import Crewquarters.Lib.Backtracking

/-!
# Codes that are read back from the left

No word of a prefix code starts another, so a text can be read as words in one way only
(`flatMap_injective`). `entityCode` spells some letters as `&name;` and leaves the others as they
are.
-/

namespace Crewquarters

open List

theorem flatMap_injective {α β : Type*} {code : α → List β} (hne : ∀ a, code a ≠ [])
    (hcode : ∀ a b, code a <+: code b → a = b) : ∀ {l l' : List α},
    l.flatMap code = l'.flatMap code → l = l'
  | [], [], _ => rfl
  | [], a :: l', h => by simp [hne] at h
  | a :: l, [], h => by simp [hne] at h
  | a :: l, b :: l', h => by
    simp only [flatMap_cons] at h
    have hab : a = b := by
      rcases append_eq_append_iff.1 h with ⟨c, hc, -⟩ | ⟨c, hc, -⟩
      · exact hcode a b ⟨c, hc.symm⟩
      · exact (hcode b a ⟨c, hc.symm⟩).symm
    subst hab
    rw [flatMap_injective hne hcode (append_cancel_left h)]

def entityCode (table : List (Char × List Char)) (c : Char) : List Char :=
  ((table.lookup c).map fun name => '&' :: (name ++ [';'])).getD [c]

section Entities

variable {table : List (Char × List Char)}

theorem entityCode_ne_nil (c : Char) : entityCode table c ≠ [] := by
  unfold entityCode
  cases table.lookup c <;> simp

theorem mem_of_lookup {c : Char} {name : List Char} (h : table.lookup c = some name) :
    (c, name) ∈ table := by
  obtain ⟨before, after, rfl, -⟩ := lookup_eq_some_iff.1 h
  simp

/-- The table can be read back: it has the ampersand, no name has a semicolon, and no two letters
have one name. -/
structure Readable (table : List (Char × List Char)) : Prop where
  amp : (table.lookup '&').isSome
  ends : ∀ e ∈ table, ';' ∉ e.2
  names : ∀ e ∈ table, ∀ e' ∈ table, e.2 = e'.2 → e.1 = e'.1

theorem Readable.eq_of_prefix (h : Readable table) {a b : Char}
    (hab : entityCode table a <+: entityCode table b) : a = b := by
  unfold entityCode at hab
  rcases ha : table.lookup a with _ | name <;> rcases hb : table.lookup b with _ | name' <;>
    rw [ha, hb] at hab
  · simpa using hab
  · -- the ampersand is spelled as well
    have hamp : a = '&' := by simpa using hab
    rw [hamp, ← Option.not_isSome_iff_eq_none] at ha
    exact absurd h.amp ha
  · have hlength := hab.length_le
    simp at hlength
  · obtain ⟨rest, hrest⟩ := hab
    simp only [Option.map_some, Option.getD_some, cons_append, append_assoc,
      nil_append, cons.injEq, true_and] at hrest
    obtain ⟨hname, -⟩ := Pattern.append_cons_inj (h.ends _ (mem_of_lookup ha))
      (h.ends _ (mem_of_lookup hb)) hrest
    exact h.names _ (mem_of_lookup ha) _ (mem_of_lookup hb) hname

theorem Readable.injective (h : Readable table) {data data' : List Char}
    (heq : data.flatMap (entityCode table) = data'.flatMap (entityCode table)) : data = data' :=
  flatMap_injective entityCode_ne_nil (fun _ _ => h.eq_of_prefix) heq

/-- A letter that is spelled, and is in no spelling, is not left. -/
theorem notMem_flatMap_entityCode {c : Char} (hc : (table.lookup c).isSome)
    (hnames : ∀ e ∈ table, c ∉ '&' :: (e.2 ++ [';'])) (data : List Char) :
    c ∉ data.flatMap (entityCode table) := by
  rw [mem_flatMap]
  rintro ⟨d, -, hd⟩
  unfold entityCode at hd
  rcases hlookup : table.lookup d with _ | name <;> rw [hlookup] at hd
  · rw [mem_singleton.1 hd, hlookup] at hc
    cases hc
  · exact hnames _ (mem_of_lookup hlookup) hd

end Entities

end Crewquarters
