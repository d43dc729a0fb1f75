import Mathlib.Tactic
import Crewquarters.Chunking

/-!
# Chunks cover a document

A token is a word that nothing of a word adjoins, or a single character. A text can therefore be cut
before and after a token without a change to its other tokens, so a chunk has the tokens of its
range. No token has a line break in it, and so its characters are those of segments, not of the
separators between them.
-/

namespace Crewquarters

open List Option

variable {W : WordChars} {L : Type} {segments : List (Segment L)}

section Tokens

def WordBreak (W : WordChars) (u v : List Char) : Prop :=
  ∀ a ∈ u.getLast?, ∀ b ∈ v.head?, W.word a = true → W.word b = false

theorem tokenAt_fits : (tokenAt W).Fits := by
  intro cs n h
  cases cs with
  | nil => cases h
  | cons c cs =>
    rw [tokenAt] at h
    split_ifs at h <;> obtain rfl := some.inj h
    · have hprefix := takeWhile_prefix W.word (l := cs)
      exact Nat.lt_succ_of_le hprefix.length_le
    · exact Nat.succ_pos _

theorem WordBreak.takeWhile_append {c : Char} {s v : List Char} (h : WordBreak W (c :: s) v)
    (hc : W.word c = true) : (s ++ v).takeWhile W.word = s.takeWhile W.word := by
  rw [List.takeWhile_append]
  split_ifs with hall
  · have hprefix := takeWhile_prefix W.word (l := s)
    have hs : s.takeWhile W.word = s := hprefix.eq_of_length hall
    have hword : ∀ a ∈ (c :: s).getLast?, W.word a = true := by
      intro a ha
      rcases mem_cons.1 (mem_of_getLast? ha) with rfl | ha
      · exact hc
      · rw [← hs] at ha
        exact all_eq_true.1 all_takeWhile a ha
    have hv : v.takeWhile W.word = [] := by
      cases v with
      | nil => rfl
      | cons b =>
        have hlast := getLast?_eq_some_getLast (cons_ne_nil c s)
        exact takeWhile_cons_of_neg (by simp [h _ hlast b rfl (hword _ hlast)])
    rw [hv, append_nil, hs]
  · rfl

theorem WordBreak.parts {u v : List Char} (h : WordBreak W u v) : (tokenAt W).Parts u v := by
  intro s hs hne
  obtain ⟨c, s, rfl⟩ := exists_cons_of_ne_nil hne
  obtain ⟨w, rfl⟩ := hs
  have hsuffix : WordBreak W (c :: s) v := by
    intro a ha
    refine h a ?_
    rw [getLast?_append_of_ne_nil _ (cons_ne_nil c s)]
    exact ha
  rw [cons_append, tokenAt, tokenAt]
  split_ifs with hc
  · rw [hsuffix.takeWhile_append hc]
  · rfl
  · rfl

theorem break_of_tokenAt {c : Char} {cs : List Char} {n : ℕ} (h : tokenAt W (c :: cs) = some n) :
    WordBreak W (c :: cs.take n) (cs.drop n) ∧ ∀ a ∈ c :: cs.take n, isSpace a = false := by
  have hblank : ∀ {a : Char}, W.word a = true → isSpace a = false := by
    intro a ha
    by_contra hne
    rw [W.blank a (Bool.not_eq_false _ ▸ hne)] at ha
    cases ha
  rw [tokenAt] at h
  split_ifs at h with hc hspace <;> obtain rfl := some.inj h
  · rw [take_takeWhile, drop_takeWhile]
    refine ⟨fun a _ b hb _ => ?_, fun a ha => hblank ?_⟩
    · have hnot := head?_dropWhile_not W.word cs
      rw [mem_def.1 hb] at hnot
      simpa using hnot
    · rcases mem_cons.1 ha with rfl | ha
      · exact hc
      · exact all_eq_true.1 all_takeWhile a ha
  · rw [take_zero]
    refine ⟨fun a ha _ _ hword => ?_, fun a ha => ?_⟩
    · rw [getLast?_singleton, mem_some_iff] at ha
      exact absurd (ha ▸ hword) hc
    · rw [mem_singleton.1 ha]
      exact Bool.eq_false_iff.2 hspace

/-- A span of the text is a token: cut at word breaks, and without blanks. -/
structure TokenCut (W : WordChars) (text : List Char) (x : ℕ × ℕ) (u t v : List Char) : Prop where
  text_eq : text = u ++ (t ++ v)
  span_eq : x = (u.length, u.length + t.length)
  nonempty : t ≠ []
  before : WordBreak W u (t ++ v)
  after : WordBreak W t v
  nonblank : ∀ a ∈ t, isSpace a = false

theorem WordBreak.append_left {w u v : List Char} (h : WordBreak W u v) (hne : u ≠ []) :
    WordBreak W (w ++ u) v := by
  intro a ha
  rw [getLast?_append_of_ne_nil w hne] at ha
  exact h a ha

theorem TokenCut.getElem {text u t v : List Char} {x : ℕ × ℕ} (h : TokenCut W text x u t v) {k : ℕ}
    (hk : k < t.length) : ∃ c, text[u.length + k]? = some c ∧ isSpace c = false := by
  refine ⟨t[k], ?_, h.nonblank _ (getElem_mem hk)⟩
  rw [h.text_eq, getElem?_append_right (Nat.le_add_right _ _), Nat.add_sub_cancel_left,
    getElem?_append_left hk, getElem?_eq_getElem hk]

theorem exists_tokenCut_from {x : ℕ × ℕ} : ∀ (cs u : List Char) (skip : ℕ),
    WordBreak W (u ++ cs.take skip) (cs.drop skip) →
    x ∈ (tokenAt W).spansFrom skip u.length cs → ∃ u' t v, TokenCut W (u ++ cs) x u' t v
  | [], u, skip, _, hx => by simp [Matcher.spansFrom] at hx
  | c :: cs, u, skip + 1, hbreak, hx => by
    have hu : u ++ c :: cs = u ++ [c] ++ cs := by simp
    rw [hu]
    refine exists_tokenCut_from cs (u ++ [c]) skip ?_ ?_
    · simpa using hbreak
    · simpa [Matcher.spansFrom] using hx
  | c :: cs, u, 0, hbreak, hx => by
    have hu : u ++ c :: cs = u ++ [c] ++ cs := by simp
    rw [take_zero, append_nil, drop_zero] at hbreak
    rw [Matcher.spansFrom] at hx
    split at hx
    · rename_i n hn
      obtain ⟨hafter, hnonblank⟩ := break_of_tokenAt hn
      have hcs : c :: cs.take n ++ cs.drop n = c :: cs := by simp
      have hlt : n < (c :: cs).length := tokenAt_fits _ _ hn
      rcases mem_cons.1 hx with rfl | hx
      · refine ⟨u, c :: cs.take n, cs.drop n, by rw [hcs], ?_, cons_ne_nil _ _, ?_, hafter,
          hnonblank⟩
        · rw [length_cons] at hlt
          rw [length_cons, length_take, min_eq_left (Nat.le_of_lt_succ hlt)]
          rfl
        · rw [hcs]
          exact hbreak
      · rw [hu]
        refine exists_tokenCut_from cs (u ++ [c]) n ?_ (by simpa using hx)
        rw [append_assoc]
        exact hafter.append_left (cons_ne_nil _ _)
    · rename_i hnone
      rw [hu]
      refine exists_tokenCut_from cs (u ++ [c]) 0 ?_ (by simpa using hx)
      have hc : W.word c = false := by
        by_contra hne
        rw [tokenAt, if_pos (Bool.not_eq_false _ ▸ hne)] at hnone
        cases hnone
      intro a ha b _ hword
      simp only [take_zero, append_nil, getLast?_concat, mem_some_iff] at ha
      rw [← ha, hc] at hword
      cases hword

theorem exists_tokenCut {text : List Char} {x : ℕ × ℕ} (hx : x ∈ (tokenAt W).spans text) :
    ∃ u t v, TokenCut W text x u t v :=
  exists_tokenCut_from text [] 0 (fun a ha => by cases ha) hx

theorem countTokens_slice {text : List Char} {i j : ℕ} {x y : ℕ × ℕ}
    (hi : ((tokenAt W).spans text)[i]? = some x) (hj : ((tokenAt W).spans text)[j]? = some y)
    (hij : i ≤ j) : countTokens W (slice x.1 y.2 text) = j + 1 - i := by
  obtain ⟨u, t, v, hx⟩ := exists_tokenCut (mem_of_getElem? hi)
  obtain ⟨u', t', v', hy⟩ := exists_tokenCut (mem_of_getElem? hj)
  have hle := Matcher.spans_le tokenAt_fits hi hj hij
  rw [hx.span_eq, hy.span_eq] at hle
  obtain ⟨w, rfl⟩ : u <+: u' := prefix_of_prefix_length_le
    ⟨_, hx.text_eq.symm⟩ ⟨_, hy.text_eq.symm⟩ hle
  have htext : text = u ++ ((w ++ t') ++ v') := by simpa using hy.text_eq
  have hslice : slice x.1 y.2 text = w ++ t' := by
    rw [slice, hx.span_eq, hy.span_eq, htext, ← append_assoc,
      take_left' (by simp [Nat.add_assoc]), drop_left]
  have hrest : t ++ v = w ++ t' ++ v' := append_cancel_left (hx.text_eq.symm.trans htext)
  have hbefore : WordBreak W u (w ++ t' ++ v') := hrest ▸ hx.before
  rw [countTokens, hslice]
  rw [htext] at hi hj
  refine (Matcher.spans_middle tokenAt_fits hbefore.parts
    (hy.after.append_left hy.nonempty).parts hi hj (by simp [hy.nonempty]) ?_ ?_).symm
  · rw [hx.span_eq]
  · rw [hy.span_eq]
    simp [Nat.add_assoc]

end Tokens

section Segments

def textBefore (segments : List (Segment L)) (i : ℕ) : List Char :=
  (segments.take i).flatMap fun s => s.text ++ separator

/-- The segment with index `i` is `s`, and holds the character at this position of the joined
text. -/
structure Holds (segments : List (Segment L)) (position i : ℕ) (s : Segment L) : Prop where
  get : segments[i]? = some s
  joined : textBefore segments i ++ s.text <+: joinSegments segments
  le : (textBefore segments i).length ≤ position
  lt : position < (textBefore segments i).length + s.text.length

theorem joinSegments_cons_cons (s s' : Segment L) (segments : List (Segment L)) :
    joinSegments (s :: s' :: segments) = s.text ++ separator ++ joinSegments (s' :: segments) := by
  simp [joinSegments, intercalate_cons_cons, append_assoc]

theorem textBefore_cons (s : Segment L) (segments : List (Segment L)) (i : ℕ) :
    textBefore (s :: segments) (i + 1) = s.text ++ separator ++ textBefore segments i := by
  simp [textBefore, append_assoc]

theorem Holds.cons {s s' t : Segment L} {position i : ℕ} (h : Holds (s' :: segments) position i t) :
    Holds (s :: s' :: segments) ((s.text ++ separator).length + position) (i + 1) t where
  get := h.get
  joined := by
    rw [textBefore_cons, joinSegments_cons_cons, append_assoc]
    exact (prefix_append_right_inj _).2 h.joined
  le := by
    rw [textBefore_cons, length_append]
    exact Nat.add_le_add_left h.le _
  lt := by
    have hlt := Nat.add_lt_add_left h.lt (s.text ++ separator).length
    rwa [← Nat.add_assoc, ← length_append, ← textBefore_cons] at hlt

theorem bisectStarts_cons (offset position : ℕ) (starts : List ℕ) :
    bisectStarts (offset :: starts) (offset + position)
      = bisectStarts starts (offset + position) + 1 := by
  rw [bisectStarts, takeWhile_cons_of_pos (by simp), length_cons, bisectStarts]

theorem holds_of_getElem {c : Char} (hc : isSpace c = false) : ∀ (segments : List (Segment L))
    (offset : ℕ) {position : ℕ}, (joinSegments segments)[position]? = some c →
    ∃ i s, bisectStarts (startsFrom offset segments) (offset + position) = i + 1
      ∧ Holds segments position i s
  | [], offset, position, h => by simp [joinSegments] at h
  | [s], offset, position, h => by
    have hjoin : joinSegments [s] = s.text := by simp [joinSegments]
    rw [hjoin] at h
    have hlt := (List.getElem?_eq_some_iff.1 h).1
    refine ⟨0, s, ?_, rfl, ?_, Nat.zero_le _, ?_⟩
    · rw [startsFrom, bisectStarts_cons]
      rfl
    · simp [textBefore, hjoin]
    · simpa [textBefore] using hlt
  | s :: s' :: segments, offset, position, h => by
    rw [joinSegments_cons_cons] at h
    by_cases htext : position < s.text.length
    · refine ⟨0, s, ?_, rfl, ?_, Nat.zero_le _, by simpa [textBefore] using htext⟩
      · rw [startsFrom, bisectStarts_cons, startsFrom, bisectStarts,
          takeWhile_cons_of_neg (by simp; omega)]
        rfl
      · rw [joinSegments_cons_cons]
        exact ⟨separator ++ joinSegments (s' :: segments), by simp [textBefore]⟩
    by_cases hline : position < (s.text ++ separator).length
    · -- a line break between the segments
      rw [getElem?_append_left hline, getElem?_append_right (not_lt.1 htext)] at h
      have hbreak : ∀ d ∈ separator, isSpace d = true := all_eq_true.1 (by decide)
      rw [hbreak c (mem_of_getElem? h)] at hc
      cases hc
    · obtain ⟨q, rfl⟩ := Nat.exists_eq_add_of_le (not_lt.1 hline)
      rw [getElem?_append_right (Nat.le_add_right _ _), Nat.add_sub_cancel_left] at h
      obtain ⟨i, t, hbisect, hholds⟩ := holds_of_getElem hc (s' :: segments)
        (offset + (s.text.length + separator.length)) h
      refine ⟨i + 1, t, ?_, hholds.cons⟩
      have hoffset : offset + ((s.text ++ separator).length + q)
          = offset + (s.text.length + separator.length) + q := by
        rw [length_append]
        exact (Nat.add_assoc _ _ _).symm
      rw [startsFrom, bisectStarts_cons, hoffset, hbisect]

theorem locatorOf_eq [DecidableEq L] {b e i j : ℕ} {s t : Segment L}
    (hb : bisectStarts (startsFrom 0 segments) b = i + 1)
    (he : bisectStarts (startsFrom 0 segments) e = j + 1) (hi : segments[i]? = some s)
    (hj : segments[j]? = some t) :
    locatorOf segments (startsFrom 0 segments) b e = some
      (if t.locator = s.locator then ⟨s.locator, none⟩ else ⟨s.locator, some t.locator⟩) := by
  rw [locatorOf, hb, he, Nat.add_sub_cancel, Nat.add_sub_cancel, hi, hj]
  rfl

end Segments

/-- The chunk is the text of these tokens, with the locators of their segments. -/
structure Renders [DecidableEq L] (W : WordChars) (segments : List (Segment L)) (r : ℕ × ℕ)
    (c : Chunk L) : Prop where
  tokens : ∃ x y, ((tokenAt W).spans (joinSegments segments))[r.1]? = some x
    ∧ ((tokenAt W).spans (joinSegments segments))[r.2 - 1]? = some y
    ∧ c.text = slice x.1 y.2 (joinSegments segments)
    ∧ ∃ i j s t, Holds segments x.1 i s ∧ Holds segments (y.2 - 1) j t
      ∧ c.locator = if t.locator = s.locator then ⟨s.locator, none⟩
        else ⟨s.locator, some t.locator⟩
  size : c.tokenCount = r.2 - r.1
  counted : c.tokenCount = countTokens W c.text

theorem exists_renders [DecidableEq L] {first last : ℕ} (hlt : first < last)
    (hle : last ≤ ((tokenAt W).spans (joinSegments segments)).length) :
    ∃ c, chunkOf segments (joinSegments segments) (startsFrom 0 segments)
        ((tokenAt W).spans (joinSegments segments)) first last = some c
      ∧ Renders W segments (first, last) c := by
  obtain ⟨x, hx⟩ : ∃ x, ((tokenAt W).spans (joinSegments segments))[first]? = some x :=
    ⟨_, getElem?_eq_getElem (hlt.trans_le hle)⟩
  obtain ⟨y, hy⟩ : ∃ y, ((tokenAt W).spans (joinSegments segments))[last - 1]? = some y :=
    ⟨_, getElem?_eq_getElem (by omega)⟩
  obtain ⟨u, t, v, hxcut⟩ := exists_tokenCut (mem_of_getElem? hx)
  obtain ⟨u', t', v', hycut⟩ := exists_tokenCut (mem_of_getElem? hy)
  have htpos := length_pos_of_ne_nil hxcut.nonempty
  have htpos' := length_pos_of_ne_nil hycut.nonempty
  obtain ⟨c, hc, hcblank⟩ := hxcut.getElem htpos
  obtain ⟨d, hd, hdblank⟩ := hycut.getElem (k := t'.length - 1) (by omega)
  have hbegin : u.length + 0 = x.1 := by
    rw [hxcut.span_eq]
    rfl
  have hend : u'.length + (t'.length - 1) = y.2 - 1 := by
    rw [hycut.span_eq]
    simp only
    omega
  rw [hbegin] at hc
  rw [hend] at hd
  obtain ⟨i, s, hi, hs⟩ := holds_of_getElem hcblank segments 0 hc
  obtain ⟨j, s', hj, hs'⟩ := holds_of_getElem hdblank segments 0 hd
  rw [Nat.zero_add] at hi hj
  have hcount := countTokens_slice hx hy (by omega)
  rw [Nat.sub_add_cancel (by omega)] at hcount
  refine ⟨⟨slice x.1 y.2 (joinSegments segments), last - first, _⟩, ?_,
    ⟨x, y, hx, hy, rfl, i, j, s, s', hs, hs', rfl⟩, rfl, hcount.symm⟩
  rw [chunkOf, hx, hy, bind_eq_bind, bind_some, bind_eq_bind, bind_some,
    locatorOf_eq hi hj hs.get hs'.get]
  rfl

/-- The ranges lie in the text one after the other, up to the last of its tokens. -/
structure CoversTokens (count maxTokens overlap first : ℕ) (ranges : List (ℕ × ℕ)) : Prop where
  nil : ranges = [] ↔ count ≤ first
  begins : ∀ r ∈ ranges.head?, r.1 = first
  ends : ∀ r ∈ ranges.getLast?, r.2 = count
  sizes : ∀ r ∈ ranges, r.1 < r.2 ∧ r.2 ≤ r.1 + maxTokens
  steps : ranges.IsChain fun r r' => r.1 < r'.1 ∧ r'.1 ≤ r.2 ∧ r.2 ≤ r'.1 + overlap
  grows : 4 * overlap ≤ maxTokens → ranges.IsChain fun r r' => r.2 < r'.2

section Loop

variable {bounds : List ℕ} {count maxTokens overlap first : ℕ}

theorem chunkEnd_cases (bounds : List ℕ) (count maxTokens first : ℕ) :
    chunkEnd bounds count maxTokens first = min (first + maxTokens) count
      ∨ first + maxTokens * 3 / 4 < chunkEnd bounds count maxTokens first
        ∧ chunkEnd bounds count maxTokens first ≤ min (first + maxTokens) count := by
  simp only [chunkEnd]
  split_ifs with hlast
  · cases hcandidate : (bounds.filter fun b => first + maxTokens * 3 / 4 < b
        ∧ b ≤ min (first + maxTokens) count).getLast? with
    | none => exact .inl rfl
    | some b => exact .inr (by simpa using (mem_filter.1 (mem_of_getLast? hcandidate)).2)
  · exact .inl rfl

theorem chunkEnd_spec (bounds : List ℕ) (hmax : 0 < maxTokens) (hfirst : first < count) :
    first < chunkEnd bounds count maxTokens first
      ∧ chunkEnd bounds count maxTokens first ≤ first + maxTokens
      ∧ chunkEnd bounds count maxTokens first ≤ count := by
  have hcases := chunkEnd_cases bounds count maxTokens first
  omega

theorem lt_chunkEnd (hmax : 0 < maxTokens) {before : ℕ} (hbefore : before < count)
    (hoverlap : 4 * overlap ≤ maxTokens) (hfirst : before ≤ first + overlap) :
    before < chunkEnd bounds count maxTokens first := by
  have hcases := chunkEnd_cases bounds count maxTokens first
  omega

theorem CoversTokens.empty (h : count ≤ first) : CoversTokens count maxTokens overlap first [] where
  nil := ⟨fun _ => h, fun _ => rfl⟩
  begins r hr := by cases hr
  ends r hr := by cases hr
  sizes r hr := by cases hr
  steps := .nil
  grows _ := .nil

theorem CoversTokens.last (hlt : first < count) (hle : count ≤ first + maxTokens) :
    CoversTokens count maxTokens overlap first [(first, count)] where
  nil := ⟨fun hnil => absurd hnil (cons_ne_nil _ _), fun h => by omega⟩
  begins r hr := by rw [← some.inj hr]
  ends r hr := by rw [← some.inj hr]; rfl
  sizes r hr := by
    rw [mem_singleton.1 hr]
    exact ⟨hlt, hle⟩
  steps := .singleton _
  grows _ := .singleton _

theorem CoversTokens.cons (hmax : 0 < maxTokens) (hfirst : first < count)
    (hlast : chunkEnd bounds count maxTokens first ≠ count) {ranges : List (ℕ × ℕ)}
    (h : CoversTokens count maxTokens overlap
      (max (chunkEnd bounds count maxTokens first - overlap) (first + 1)) ranges)
    (hhead : ∀ r ∈ ranges.head?, r.2 = chunkEnd bounds count maxTokens r.1) :
    CoversTokens count maxTokens overlap first
      ((first, chunkEnd bounds count maxTokens first) :: ranges) := by
  obtain ⟨hlt, hle, hcount⟩ := chunkEnd_spec bounds hmax hfirst
  set last := chunkEnd bounds count maxTokens first with hdef
  obtain ⟨r, ranges, rfl⟩ : ∃ r rest, ranges = r :: rest := by
    refine exists_cons_of_ne_nil fun hnil => ?_
    have := h.nil.1 hnil
    omega
  have hr := h.begins r rfl
  refine ⟨⟨fun hnil => absurd hnil (cons_ne_nil _ _), fun hle => by omega⟩, ?_, ?_, ?_, ?_, ?_⟩
  · intro r' hr'
    rw [← some.inj hr']
  · intro r' hr'
    exact h.ends r' (by simpa using hr')
  · intro r' hr'
    rcases mem_cons.1 hr' with rfl | hr'
    · exact ⟨hlt, hle⟩
    · exact h.sizes r' hr'
  · refine isChain_cons_cons.2 ⟨?_, h.steps⟩
    simp only
    omega
  · intro hquarter
    refine isChain_cons_cons.2 ⟨?_, h.grows hquarter⟩
    simp only
    rw [hhead r rfl]
    exact lt_chunkEnd hmax (lt_of_le_of_ne hcount hlast) hquarter (by omega)

end Loop

section Chunks

variable [DecidableEq L] {maxTokens overlap : ℕ}

theorem chunkFrom_covers (segments : List (Segment L)) (bounds : List ℕ)
    (hoverlap : overlap < maxTokens) (first : ℕ) :
    ∃ chunks ranges,
      chunkFrom segments (joinSegments segments) (startsFrom 0 segments)
        ((tokenAt W).spans (joinSegments segments)) bounds maxTokens overlap first = some chunks
      ∧ List.Forall₂ (Renders W segments) ranges chunks
      ∧ CoversTokens ((tokenAt W).spans (joinSegments segments)).length maxTokens overlap first
        ranges
      ∧ ∀ r ∈ ranges.head?, r.2 = chunkEnd bounds
        ((tokenAt W).spans (joinSegments segments)).length maxTokens r.1 := by
  set spans := (tokenAt W).spans (joinSegments segments) with hspans
  have hmax : 0 < maxTokens := Nat.zero_lt_of_lt hoverlap
  induction hn : spans.length - first using Nat.strong_induction_on generalizing first with
  | _ n ih =>
    rw [chunkFrom]
    split_ifs with hfirst
    · obtain ⟨hlt, hsize, hcount⟩ := chunkEnd_spec bounds hmax hfirst
      obtain ⟨c, hc, hrenders⟩ := exists_renders hlt hcount
      dsimp only
      rw [hc, bind_some]
      split_ifs with hlast
      · refine ⟨[c], [_], rfl, .cons hrenders .nil, ?_, fun r hr => ?_⟩
        · rw [hlast] at hsize ⊢
          exact .last hfirst hsize
        · rw [← some.inj hr]
      · obtain ⟨chunks, ranges, hchunks, hall, hcovers, hhead⟩ := ih
          (spans.length - max (chunkEnd bounds spans.length maxTokens first - overlap) (first + 1))
          (by omega) _ rfl
        refine ⟨c :: chunks, _ :: ranges, ?_, .cons hrenders hall,
          hcovers.cons hmax hfirst hlast hhead, fun r hr => ?_⟩
        · rw [hchunks, map_some]
        · rw [← some.inj hr]
    · exact ⟨[], [], rfl, .nil, .empty (not_lt.1 hfirst), fun r hr => by cases hr⟩

/-- The chunks of a document are those of token ranges that cover it. -/
theorem chunk_covers (W : WordChars) (segments : List (Segment L)) {maxTokens overlap : ℕ}
    (hoverlap : overlap < maxTokens) : ∃ chunks ranges,
      chunk W segments maxTokens overlap = some chunks
      ∧ List.Forall₂ (Renders W segments) ranges chunks
      ∧ CoversTokens (countTokens W (joinSegments segments)) maxTokens overlap 0 ranges := by
  obtain ⟨chunks, ranges, hchunks, hall, hcovers, -⟩ := chunkFrom_covers (W := W) segments
    (boundaries ((tokenAt W).spans (joinSegments segments)) (startsFrom 0 segments)) hoverlap 0
  refine ⟨chunks, ranges, ?_, hall, hcovers⟩
  rw [chunk, if_pos hoverlap]
  exact hchunks

end Chunks

def asciiWords : WordChars where
  word c := c.isAlphanum || c = '_'
  blank c hc := by
    rw [Bool.eq_false_iff]
    intro hword
    delta Char.isAlphanum Char.isAlpha Char.isUpper Char.isLower Char.isDigit at hword
    simp only [isSpace, Bool.or_eq_true, Bool.and_eq_true, decide_eq_true_eq] at hc hword
    rcases hword with hword | rfl
    · simp only [ge_iff_le, UInt32.le_iff_toNat_le] at hword
      have hn : c.val.toNat = c.toNat := rfl
      grind
    · revert hc
      decide

def twoPages : List (Segment ℕ) :=
  [⟨"One, two.".toList, 1⟩, ⟨"".toList, 2⟩, ⟨"Three four".toList, 3⟩]

theorem chunk_covers_twoPages : 1 < 4 ∧ ∃ chunks ranges,
      chunk asciiWords twoPages 4 1 = some chunks
      ∧ List.Forall₂ (Renders asciiWords twoPages) ranges chunks
      ∧ CoversTokens (countTokens asciiWords (joinSegments twoPages)) 4 1 0 ranges :=
  ⟨by decide, chunk_covers asciiWords twoPages (by decide)⟩

end Crewquarters
