import Crewquarters.DockerLogs
import Mathlib.Tactic

/-!
# When a frame of the log is one line

A payload of one newline, at its end, is one line exactly if nothing else in it breaks lines. What
is reported as truncated is also a log that has just as many lines as were asked for.
-/

namespace Crewquarters.DockerLogs

open List

def utf8 (text : List Char) : List UInt8 := text.flatMap String.utf8EncodeChar

/-- A frame whose payload is `line` and a newline, short enough for the header. -/
structure Frame where
  stream : Stream
  line : List Char
  single : '\n' ∉ line
  fits : (utf8 (line ++ ['\n'])).length < 2 ^ 32

/-- A header of eight bytes, and the line. -/
def Frame.bytes (f : Frame) : List UInt8 :=
  let payload := utf8 (f.line ++ ['\n'])
  let size := payload.length
  (match f.stream with | .stdout => 1 | .stderr => 2) :: 0 :: 0 :: 0 :: .ofNat (size / 2 ^ 24)
    :: .ofNat (size / 2 ^ 16) :: .ofNat (size / 2 ^ 8) :: .ofNat size :: payload

/-- Docker's answer: the last `tail` frames. -/
def answer (frames : List Frame) (tail : ℤ) : List UInt8 :=
  (frames.drop (frames.length - tail.toNat)).flatMap Frame.bytes

variable (replaced : List UInt8 → List Char)

theorem splitlines_line {l : List Char} (h : ∀ c ∈ l, isLineBreak c = false) :
    splitlines (l ++ ['\n']) = [l] := by
  induction l with
  | nil => decide
  | cons c t ih =>
    obtain ⟨hc, ht⟩ := forall_mem_cons.1 h
    have hr : c ≠ '\r' := by
      rintro rfl
      exact absurd hc (by decide)
    rw [cons_append, splitlines, ih ht, hc]
    · rfl
    · exact fun _ heq => absurd heq hr

theorem splitlines_ne_nil : ∀ l : List Char, splitlines (l ++ ['\n']) ≠ []
  | [] => by decide
  | c :: t => by
    rw [cons_append, splitlines.eq_def]
    split
    · rename_i heq
      cases heq
    · exact cons_ne_nil _ _
    · split_ifs
      · exact cons_ne_nil _ _
      · split <;> exact cons_ne_nil _ _

/-- The first line is the whole line only if nothing breaks it. -/
theorem not_isLineBreak_of_head {l : List Char} (h : (splitlines (l ++ ['\n'])).head? = some l) :
    ∀ c ∈ l, isLineBreak c = false := by
  induction l with
  | nil => exact fun c hc => absurd hc not_mem_nil
  | cons c t ih =>
    rw [cons_append, splitlines.eq_def] at h
    split at h
    · rename_i heq
      cases heq
    · cases h
    · rename_i heq
      obtain ⟨rfl, rfl⟩ := cons.inj heq
      split_ifs at h with hc
      · cases h
      · split at h
        · rename_i hnil
          cases t with
          | nil => exact absurd hnil (by decide)
          | cons =>
            obtain ⟨-, ht⟩ := cons.inj (Option.some.inj h)
            cases ht
        · rename_i line lines hlines
          obtain ⟨-, rfl⟩ := cons.inj (Option.some.inj h)
          exact forall_mem_cons.2 ⟨Bool.eq_false_iff.2 hc, ih (by rw [hlines]; rfl)⟩

theorem decode_utf8 (text : List Char) : decode replaced (utf8 text) = text := by
  unfold decode utf8
  rw [← List.utf8Encode, utf8Decode?_utf8Encode]

theorem size_eq {n : ℕ} (h : n < 2 ^ 32) : ((n / 2 ^ 24 % 2 ^ 8 * 256 + n / 2 ^ 16 % 2 ^ 8) * 256
    + n / 2 ^ 8 % 2 ^ 8) * 256 + n % 2 ^ 8 = n := by
  omega

theorem demux_frame (f : Frame) (rest : List UInt8) : demux replaced (f.bytes ++ rest)
    = (splitlines (f.line ++ ['\n'])).map (f.stream, ·) ++ demux replaced rest := by
  simp only [Frame.bytes, cons_append]
  rw [demux]
  simp only [UInt8.toNat_ofNat']
  rw [size_eq f.fits, take_left, drop_left, decode_utf8]
  cases f.stream <;> rfl

theorem demux_frames_iff (frames : List Frame) :
    demux replaced (frames.flatMap Frame.bytes) = frames.map (fun f => (f.stream, f.line))
      ↔ ∀ f ∈ frames, ∀ c ∈ f.line, isLineBreak c = false := by
  induction frames with
  | nil => simp [demux]
  | cons f t ih =>
    rw [flatMap_cons, demux_frame, map_cons, forall_mem_cons, ← ih]
    constructor
    · intro h
      have hline : ∀ c ∈ f.line, isLineBreak c = false := by
        refine not_isLineBreak_of_head ?_
        cases hlines : splitlines (f.line ++ ['\n']) with
        | nil => exact absurd hlines (splitlines_ne_nil f.line)
        | cons =>
          rw [hlines] at h
          exact congrArg some (congrArg Prod.snd (cons.inj h).1)
      rw [splitlines_line hline] at h
      exact ⟨hline, (cons.inj h).2⟩
    · rintro ⟨hline, ht⟩
      rw [splitlines_line hline, ht]
      rfl

/-- Of every frame one pair in order, at most `tail` pairs, and truncation reported of a log with
more lines than the bounded `tail`: exactly if no line has another break in it and the log has not
just as many lines. -/
theorem one_line_per_frame (frames : List Frame) (logTailLimit tail : ℤ) :
    (demux replaced (frames.flatMap Frame.bytes) = frames.map (fun f => (f.stream, f.line))
      ∧ (containerLogs replaced (answer frames) tail).length ≤ tail.toNat
      ∧ ((runLogs replaced logTailLimit (answer frames) tail).truncated = true
        ↔ max 1 (min tail logTailLimit) < frames.length))
    ↔ (∀ f ∈ frames, ∀ c ∈ f.line, isLineBreak c = false)
      ∧ max 1 (min tail logTailLimit) ≠ frames.length := by
  rw [demux_frames_iff]
  refine and_congr_right fun h => ?_
  have hlength : ∀ n : ℤ, (containerLogs replaced (answer frames) n).length
      = min n.toNat frames.length := by
    intro n
    rw [containerLogs, answer,
      (demux_frames_iff replaced _).2 fun f hf => h f (mem_of_mem_drop hf)]
    simp only [length_map, length_drop]
    omega
  simp only [runLogs, hlength, decide_eq_true_eq]
  omega

/-- A carriage return inside the line makes two of it, one more than the `tail`. -/
theorem two_lines_of_frame : ∃ f : Frame, ∀ replaced,
    containerLogs replaced (answer [f]) 1 = [(.stdout, ['a']), (.stdout, ['b'])] := by
  refine ⟨⟨.stdout, ['a', '\r', 'b'], by decide, by decide⟩, fun replaced => ?_⟩
  refine (demux_frame replaced _ []).trans ?_
  rw [demux]
  · decide
  · intros
    contradiction

end Crewquarters.DockerLogs
