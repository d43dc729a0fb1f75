import Mathlib.Tactic

/-!
# Resampling

`Downsampler` of the broker's `voice_audio.py`, from 24 kHz to 8 kHz, with exact numbers for the
floats.
-/

namespace Crewquarters

/-- The taps of `_DOWN_24K`. -/
abbrev Kernel := Fin 31 → ℚ

/-- A sample of `np.convolve`: `joined` is read backwards from its place in the valid part. -/
def filteredSample (kernel : Kernel) (joined : List ℚ) (i : ℕ) : ℚ :=
  ∑ k : Fin 31, kernel k * joined.getD (i + 30 - k) 0

/-- `np.convolve(joined, kernel, mode="valid")`. -/
def convolve (kernel : Kernel) (joined : List ℚ) : List ℚ :=
  (List.range (joined.length - 30)).map (filteredSample kernel joined)

/-- The slice `[phase::3]`. -/
def everyThird {α : Type*} : ℕ → List α → List α
  | _, [] => []
  | 0, a :: l => a :: everyThird 2 l
  | phase + 1, _ :: l => everyThird phase l

/-- `np.clip` to 16 bits, and the cut towards zero of `astype`. -/
def toInt16 (q : ℚ) : ℤ :=
  let clipped := max (-32768) (min q 32767)
  if 0 ≤ clipped then ⌊clipped⌋ else ⌈clipped⌉

/-- `astype(np.float64)`. -/
def asFloats (x : List ℤ) : List ℚ := x.map Int.cast

structure Downsampler where
  history : List ℚ
  phase : ℕ

namespace Downsampler

def init : Downsampler := ⟨List.replicate 30 0, 0⟩

def feed (kernel : Kernel) (d : Downsampler) (x : List ℤ) : List ℤ × Downsampler :=
  if x = [] then ([], d)
  else
    let joined := d.history ++ asFloats x
    let filtered := convolve kernel joined
    ((everyThird d.phase filtered).map toInt16,
      ⟨joined.drop (joined.length - 30), (((d.phase : ℤ) - filtered.length) % 3).toNat⟩)

def feedAll (kernel : Kernel) : Downsampler → List (List ℤ) → List ℤ
  | _, [] => []
  | d, x :: chunks => (d.feed kernel x).1 ++ feedAll kernel (d.feed kernel x).2 chunks

end Downsampler

end Crewquarters
