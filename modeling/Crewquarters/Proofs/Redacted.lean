import Crewquarters.Proofs.Redaction
import Mathlib.Data.Bool.AllAny

/-!
# What redaction leaves

A bearer token or a phone number in what is left would have been there before: a mask starts with a
character that cannot go on with the match of what was kept before it. So redaction leaves a clean
value, which it leaves alone. It does not look at the keys of objects.
-/

namespace Crewquarters

open List Option Matcher

section Bearer

variable {z v : List Char}

/-- A word that is found before `z`, none of whose letters `z` starts with, is found before
anything else as well. -/
theorem afterWord_append : ∀ {word u rest : List Char},
    (∀ y ∈ z.head?, ∀ letter ∈ word, ignoringCase letter y = false) →
    afterWord word (u ++ z) = some rest →
    ∃ u', rest = u' ++ z ∧ ∀ v, afterWord word (u ++ v) = some (u' ++ v)
  | [], u, rest, _, h => ⟨u, (some.inj h).symm, fun _ => rfl⟩
  | letter :: word, [], rest, hz, h => by
    cases z with
    | nil => cases h
    | cons y =>
      rw [nil_append, afterWord, hz y rfl letter mem_cons_self] at h
      cases h
  | letter :: word, c :: u, rest, hz, h => by
    rw [cons_append, afterWord] at h
    split_ifs at h with hc
    obtain ⟨u', hrest, hword⟩ := afterWord_append
      (fun y hy l hl => hz y hy l (mem_cons_of_mem letter hl)) h
    refine ⟨u', hrest, fun v => ?_⟩
    rw [cons_append, afterWord, if_pos hc, hword]

/-- `\s+[A-Za-z0-9._~+/=-]` -/
def tokenFollows (rest : List Char) : Bool :=
  rest.head?.any isSpace && (rest.dropWhile isSpace).head?.any tokenChar

theorem takeWhile_eq_nil_iff {p : Char → Bool} {cs : List Char} :
    cs.takeWhile p = [] ↔ cs.head?.any p = false := by
  cases cs with
  | nil => simp
  | cons c => cases h : p c <;> simp [h]

theorem bearerAt_isSome {cs : List Char} : (bearerAt cs).isSome = true ↔
    ∃ rest, afterWord "bearer".toList cs = some rest ∧ tokenFollows rest = true := by
  rw [isSome_iff_exists]
  simp only [bearerAt, bind_eq_some_iff, drop_takeWhile, takeWhile_eq_nil_iff]
  constructor
  · rintro ⟨n, rest, hrest, h⟩
    split_ifs at h with hfollows
    rw [not_or, Bool.not_eq_false, Bool.not_eq_false] at hfollows
    exact ⟨rest, hrest, by rw [tokenFollows, hfollows.1, hfollows.2]; rfl⟩
  · rintro ⟨rest, hrest, h⟩
    rw [tokenFollows, Bool.and_eq_true] at h
    refine ⟨_, rest, hrest, if_neg ?_⟩
    rw [h.1, h.2]
    simp

/-- What starts a mask or a match: no blank, and no letter that goes on with a word. -/
def Breaks (cs : List Char) : Prop :=
  ∀ y ∈ cs.head?, isSpace y = false ∧ ∀ letter ∈ "earer".toList, ignoringCase letter y = false

theorem tokenFollows_append {u : List Char} (hz : ∀ y ∈ z.head?, isSpace y = false)
    (hv : ∀ y ∈ v.head?, isSpace y = false)
    (htoken : z.head?.any tokenChar = true → v.head?.any tokenChar = true)
    (h : tokenFollows (u ++ z) = true) : tokenFollows (u ++ v) = true := by
  have hkeep : ∀ {cs : List Char}, (∀ y ∈ cs.head?, isSpace y = false) →
      cs.dropWhile isSpace = cs := by
    intro cs hcs
    cases cs with
    | nil => rfl
    | cons c => exact dropWhile_cons_of_neg (by simp [hcs c rfl])
  rw [tokenFollows, Bool.and_eq_true] at h ⊢
  cases u with
  | nil =>
    obtain ⟨y, hy, hspace⟩ := (any_eq_true _ _).1 h.1
    rw [hz y hy] at hspace
    cases hspace
  | cons =>
    refine ⟨h.1, ?_⟩
    have hthen := h.2
    rw [dropWhile_append] at hthen ⊢
    split_ifs at hthen ⊢ with hblank
    · rw [hkeep hz] at hthen
      rw [hkeep hv]
      exact htoken hthen
    · obtain ⟨b, rest, hrest⟩ := exists_cons_of_ne_nil
        (fun hnil => hblank (isEmpty_iff.2 hnil))
      rw [hrest] at hthen ⊢
      exact hthen

theorem bearerAt_append {c : Char} {u : List Char} (hz : Breaks z) (hv : Breaks v)
    (htoken : z.head?.any tokenChar = true → v.head?.any tokenChar = true)
    (h : bearerAt (c :: (u ++ v)) = none) : bearerAt (c :: (u ++ z)) = none := by
  by_contra hne
  obtain ⟨rest, hrest, hfollows⟩ := bearerAt_isSome.1 (isSome_iff_ne_none.2 hne)
  have hb : "bearer".toList = 'b' :: "earer".toList := by decide
  rw [hb, afterWord] at hrest
  split_ifs at hrest with hc
  obtain ⟨u', rfl, hword⟩ := afterWord_append (fun y hy => (hz y hy).2) hrest
  have hsome : (bearerAt (c :: (u ++ v))).isSome = true := by
    refine bearerAt_isSome.2 ⟨u' ++ v, ?_, ?_⟩
    · rw [hb, afterWord, if_pos hc, hword]
    · exact tokenFollows_append (fun y hy => (hz y hy).1) (fun y hy => (hv y hy).1) htoken hfollows
  rw [h] at hsome
  cases hsome

theorem bearerAt_eq_none {c : Char} (hc : ignoringCase 'b' c = false) (cs : List Char) :
    bearerAt (c :: cs) = none := by
  have hb : "bearer".toList = 'b' :: "earer".toList := by decide
  rw [bearerAt, hb, afterWord, hc]
  rfl

theorem eq_of_bearerAt {c : Char} {cs : List Char} {n : ℕ} (h : bearerAt (c :: cs) = some n) :
    c = 'b' ∨ c = 'B' := by
  have hc : ignoringCase 'b' c = true := by
    by_contra hne
    rw [bearerAt_eq_none (Bool.eq_false_iff.2 hne)] at h
    cases h
  simpa [ignoringCase] using hc

end Bearer

section Mask

theorem breaks_of_mem {c : Char} {cs : List Char} (hc : c ∈ ['b', 'B', '+', '*', '[']) :
    Breaks (c :: cs) := by
  have hall : ∀ c ∈ ['b', 'B', '+', '*', '['],
      isSpace c = false ∧ "earer".toList.all (ignoringCase · c = false) = true :=
    all_iff_forall_prop.1 (by decide)
  intro y hy
  obtain rfl := some.inj hy
  exact ⟨(hall c hc).1, all_iff_forall_prop.1 (hall c hc).2⟩

theorem occurs_bearerMask {t : List Char} (ht : bearerAt.occurs t = false) :
    bearerAt.occurs (bearerMask ++ t) = false := by
  have hletters : ∀ x ∈ bearerMask.tail, ignoringCase 'b' x = false :=
    all_iff_forall_prop.1 (by decide)
  have hmask : bearerMask = 'B' :: bearerMask.tail := by decide
  have htail : bearerMask.tail = "earer ".toList ++ '[' :: "REDACTED]".toList := by decide
  -- the bracket ends the match
  have hfirst : bearerAt ('B' :: (bearerMask.tail ++ t)) = none := by
    rw [htail, append_assoc, cons_append]
    refine bearerAt_append (v := []) (breaks_of_mem (by decide)) (fun y hy => by cases hy)
      (fun h => ?_) (by decide)
    have hbracket : tokenChar '[' = false := by decide
    rw [head?_cons, any_some, hbracket] at h
    cases h
  rw [hmask, cons_append, Matcher.occurs, hfirst, occurs_append_eq_false
    (fun x hx => bearerAt_eq_none (hletters x hx)) ht]
  rfl

theorem occurs_bearer_replace (cs : List Char) :
    bearerAt.occurs (bearerAt.replace (fun _ => bearerMask) cs) = false := by
  refine occurs_replaceFrom_eq_false (fun c u v z hahead hnone => ?_)
    (fun _ _ _ _ _ => occurs_bearerMask) 0 cs fun _ _ _ _ h => h
  cases hahead with
  | nil => exact hnone
  | @found d ds n hd =>
    have hmask : bearerMask = 'B' :: bearerMask.tail := by decide
    have htoken : tokenChar 'b' = true ∧ tokenChar 'B' = true := by decide
    rw [hmask]
    rcases eq_of_bearerAt hd with rfl | rfl
    · exact bearerAt_append (breaks_of_mem (by decide)) (breaks_of_mem (by decide))
        (fun _ => htoken.1) hnone
    · exact bearerAt_append (breaks_of_mem (by decide)) (breaks_of_mem (by decide))
        (fun _ => htoken.2) hnone

variable {D : Digits}

theorem maskPhone_eq (value : List Char) : ∃ t, maskPhone D value = '*' :: t := by
  have hstars : "***".toList = ['*', '*', '*'] := by decide
  unfold maskPhone
  dsimp only
  rw [hstars]
  split_ifs <;> exact ⟨_, rfl⟩

theorem ne_of_mem_maskPhone {a x : Char} {value : List Char} (ha : D.decimal a = false)
    (hstar : a ≠ '*') (hx : x ∈ maskPhone D value) : x ≠ a := by
  rintro rfl
  exact not_mem_maskPhone ha hstar value hx

theorem phoneAt_eq_none {c : Char} (hc : c ≠ '+') (cs : List Char) :
    phoneAt D (c :: cs) = none := by
  cases h : phoneAt D (c :: cs) with
  | none => rfl
  | some => exact absurd (phoneAt_eq_some h).1 hc

theorem phoneAt_append {c : Char} {u v z : List Char} (hz : ∀ y ∈ z.head?, D.decimal y = false)
    (h : phoneAt D (c :: (u ++ v)) = none) : phoneAt D (c :: (u ++ z)) = none := by
  by_cases hc : c = '+'
  · subst hc
    have hlength : ((u ++ z).takeWhile D.decimal).length
        ≤ ((u ++ v).takeWhile D.decimal).length := by
      have hnone : z.takeWhile D.decimal = [] := by
        cases z with
        | nil => rfl
        | cons y => exact takeWhile_cons_of_neg (by simp [hz y rfl])
      rw [takeWhile_append, takeWhile_append, hnone]
      split_ifs
      · simp
      · exact le_rfl
    simp only [phoneAt, length_take] at h ⊢
    split_ifs at h with hshort
    exact if_pos (by omega)
  · exact phoneAt_eq_none hc _

theorem occurs_phone_replace (cs : List Char) :
    (phoneAt D).occurs ((phoneAt D).replace (maskPhone D) cs) = false
      ∧ (bearerAt.occurs cs = false →
        bearerAt.occurs ((phoneAt D).replace (maskPhone D) cs) = false) := by
  have hstar : D.decimal '*' = false := D.not_decimal (by decide) (by decide)
  have hb : D.decimal 'b' = false := D.not_decimal (by decide) (by decide)
  have hB : D.decimal 'B' = false := D.not_decimal (by decide) (by decide)
  constructor
  · refine occurs_replaceFrom_eq_false (fun c u v z hahead hnone => ?_)
      (fun c cs n t _ ht => ?_) 0 cs fun _ _ _ _ h => h
    · refine phoneAt_append (fun y hy => ?_) hnone
      cases hahead with
      | nil => cases hy
      | @found d ds n hd =>
        obtain ⟨mask, hmask⟩ := maskPhone_eq (D := D) (d :: ds.take n)
        rw [hmask] at hy
        exact some.inj hy ▸ hstar
    · exact occurs_append_eq_false
        (fun x hx => phoneAt_eq_none (ne_of_mem_maskPhone plus_not_decimal (by decide) hx)) ht
  · intro hcs
    refine occurs_replaceFrom_eq_false (fun c u v z hahead hnone => ?_)
      (fun c cs n t _ ht => ?_) 0 cs fun pre c rest h _ => ?_
    · cases hahead with
      | nil => exact hnone
      | @found d ds n hd =>
        obtain ⟨rfl, -⟩ := phoneAt_eq_some hd
        obtain ⟨mask, hmask⟩ := maskPhone_eq (D := D) ('+' :: ds.take n)
        rw [hmask]
        have htoken : tokenChar '+' = true := by decide
        exact bearerAt_append (breaks_of_mem (by decide)) (breaks_of_mem (by decide))
          (fun _ => htoken) hnone
    · refine occurs_append_eq_false (fun x hx => bearerAt_eq_none ?_) ht
      have hxb := ne_of_mem_maskPhone hb (by decide) hx
      have hxB := ne_of_mem_maskPhone hB (by decide) hx
      simp [ignoringCase, hxb, hxB]
    · exact eq_none_of_occurs_eq_false (h ▸ hcs)

theorem cleanText_redactText (value : String) : cleanText D (redactText D value) = true := by
  have hbearer := occurs_bearer_replace value.toList
  obtain ⟨hphone, hkeep⟩ := occurs_phone_replace (D := D)
    (bearerAt.replace (fun _ => bearerMask) value.toList)
  rw [cleanText, redactText, String.toList_ofList, hphone, hkeep hbearer]
  rfl

end Mask

variable (D : Digits)

mutual

/-- No text of the value and no key in it has a bearer token or a phone number. -/
def cleanThroughout : Json → Bool
  | .obj kvs => cleanFieldsThroughout kvs
  | .arr xs => cleanItemsThroughout xs
  | .str s => cleanText D s
  | .null | .bool _ | .num _ => true

def cleanItemsThroughout : List Json → Bool
  | [] => true
  | x :: xs => cleanThroughout x && cleanItemsThroughout xs

def cleanFieldsThroughout : List (String × Json) → Bool
  | [] => true
  | (k, v) :: kvs => cleanText D k && cleanThroughout v && cleanFieldsThroughout kvs

end

mutual

/-- The keys outside the values of keys that look secret are clean. -/
def cleanKeptKeys : Json → Bool
  | .obj kvs => cleanKeptFieldKeys kvs
  | .arr xs => cleanKeptItemKeys xs
  | .str _ | .null | .bool _ | .num _ => true

def cleanKeptItemKeys : List Json → Bool
  | [] => true
  | x :: xs => cleanKeptKeys x && cleanKeptItemKeys xs

def cleanKeptFieldKeys : List (String × Json) → Bool
  | [] => true
  | (k, v) :: kvs => cleanText D k && (secretKey k || cleanKeptKeys v) && cleanKeptFieldKeys kvs

end

mutual

/-- A value without its texts and without the values of keys that look secret. -/
def outline : Json → Json
  | .obj kvs => .obj (outlineFields kvs)
  | .arr xs => .arr (outlineItems xs)
  | .str _ => .str ""
  | .null => .null
  | .bool b => .bool b
  | .num n => .num n

def outlineItems : List Json → List Json
  | [] => []
  | x :: xs => outline x :: outlineItems xs

def outlineFields : List (String × Json) → List (String × Json)
  | [] => []
  | (k, v) :: kvs => (k, if secretKey k then .null else outline v) :: outlineFields kvs

end

variable {D}

mutual

theorem clean_redact : ∀ value : Json, clean D (redact D value) = true
  | .obj kvs => by
    rw [redact, clean]
    exact clean_redactFields kvs
  | .arr xs => by
    rw [redact, clean]
    exact clean_redactItems xs
  | .str s => by
    rw [redact, clean]
    exact cleanText_redactText s
  | .null | .bool _ | .num _ => by rw [redact, clean]

theorem clean_redactItems : ∀ xs : List Json, cleanItems D (redactItems D xs) = true
  | [] => by rw [redactItems, cleanItems]
  | x :: xs => by rw [redactItems, cleanItems, clean_redact x, clean_redactItems xs]; rfl

theorem clean_redactFields : ∀ kvs : List (String × Json),
    cleanFields D (redactFields D kvs) = true
  | [] => by rw [redactFields, cleanFields]
  | (k, v) :: kvs => by
    rw [redactFields, cleanFields, clean_redactFields kvs, Bool.and_true]
    split_ifs
    · exact (eq_mask_iff _).1 rfl
    · exact clean_redact v

end

theorem cleanText_mask : cleanText D "[REDACTED]" = true := by
  have hplus : ∀ x ∈ "[REDACTED]".toList, x ≠ '+' :=
    all_iff_forall_prop.1 (by decide)
  have hphone : (phoneAt D).occurs ("[REDACTED]".toList ++ []) = false :=
    occurs_append_eq_false (fun x hx => phoneAt_eq_none (hplus x hx)) rfl
  have hbearer : bearerAt.occurs "[REDACTED]".toList = false := by decide
  rw [cleanText, hbearer, ← append_nil "[REDACTED]".toList, hphone]
  rfl

mutual

theorem cleanThroughout_redact : ∀ value : Json,
    cleanThroughout D (redact D value) = cleanKeptKeys D value
  | .obj kvs => by
    rw [redact, cleanThroughout, cleanKeptKeys]
    exact cleanThroughout_redactFields kvs
  | .arr xs => by
    rw [redact, cleanThroughout, cleanKeptKeys]
    exact cleanThroughout_redactItems xs
  | .str s => by
    rw [redact, cleanThroughout, cleanKeptKeys]
    exact cleanText_redactText s
  | .null | .bool _ | .num _ => by rw [redact, cleanThroughout, cleanKeptKeys]

theorem cleanThroughout_redactItems : ∀ xs : List Json,
    cleanItemsThroughout D (redactItems D xs) = cleanKeptItemKeys D xs
  | [] => by rw [redactItems, cleanItemsThroughout, cleanKeptItemKeys]
  | x :: xs => by
    rw [redactItems, cleanItemsThroughout, cleanKeptItemKeys, cleanThroughout_redact x,
      cleanThroughout_redactItems xs]

theorem cleanThroughout_redactFields : ∀ kvs : List (String × Json),
    cleanFieldsThroughout D (redactFields D kvs) = cleanKeptFieldKeys D kvs
  | [] => by rw [redactFields, cleanFieldsThroughout, cleanKeptFieldKeys]
  | (k, v) :: kvs => by
    rw [redactFields, cleanFieldsThroughout, cleanKeptFieldKeys, cleanThroughout_redactFields kvs]
    split_ifs with hk
    · rw [hk, cleanThroughout, cleanText_mask, Bool.true_or]
    · rw [Bool.eq_false_iff.2 hk, cleanThroughout_redact v, Bool.false_or]

end

mutual

theorem outline_redact : ∀ value : Json, outline (redact D value) = outline value
  | .obj kvs => by rw [redact, outline, outline, outline_redactFields kvs]
  | .arr xs => by rw [redact, outline, outline, outline_redactItems xs]
  | .str _ => by rw [redact, outline, outline]
  | .null | .bool _ | .num _ => by rw [redact]

theorem outline_redactItems : ∀ xs : List Json, outlineItems (redactItems D xs) = outlineItems xs
  | [] => by rw [redactItems]
  | x :: xs => by
    rw [redactItems, outlineItems, outlineItems, outline_redact x, outline_redactItems xs]

theorem outline_redactFields : ∀ kvs : List (String × Json),
    outlineFields (redactFields D kvs) = outlineFields kvs
  | [] => by rw [redactFields]
  | (k, v) :: kvs => by
    rw [redactFields, outlineFields, outlineFields, outline_redactFields kvs]
    split_ifs
    · rfl
    · rw [outline_redact v]

end

/-- Redaction is complete and stable exactly if there is no bearer token and no phone number in the
keys that it keeps. Whatever the keys, its texts are clean, every value of a key that looks secret
is the mask, everything else is as it was, and redacting again changes nothing. -/
theorem redact_complete (value : Json) :
    ((cleanThroughout D (redact D value) = true ∧ clean D (redact D value) = true
        ∧ outline (redact D value) = outline value
        ∧ redact D (redact D value) = redact D value)
      ↔ cleanKeptKeys D value = true)
    ∧ clean D (redact D value) = true
    ∧ outline (redact D value) = outline value
    ∧ redact D (redact D value) = redact D value := by
  have hkept : clean D (redact D value) = true ∧ outline (redact D value) = outline value
      ∧ redact D (redact D value) = redact D value :=
    ⟨clean_redact value, outline_redact value, (redact_eq_self_iff _).2 (clean_redact value)⟩
  rw [cleanThroughout_redact]
  exact ⟨and_iff_left hkept, hkept⟩

def byNumber : Json := .obj [("+15550104567", .str "answered")]

/-- A number in a key stays. -/
theorem number_kept : redact asciiDigits byNumber = byNumber
    ∧ cleanThroughout asciiDigits byNumber = false := by
  refine ⟨(redact_eq_self_iff _).2 ?_, ?_⟩ <;> decide

end Crewquarters
