import Crewquarters.Contacts

/-!
# The approved script

The text and the fixed parts have lengths, and so has the name that is between them, however often.
So a text is the template with at most one name in it, and the first match of the pattern has that
name.
-/

namespace Crewquarters

open List Pattern

variable {parts : List (List Char)}

theorem length_intercalate (n part : List Char) (parts : List (List Char)) :
    (n.intercalate (part :: parts)).length
      = part.length + ((parts.map List.length).sum + parts.length * n.length) := by
  induction parts generalizing part with
  | nil => simp
  | cons next parts ih =>
    rw [intercalate_cons_cons, length_append, length_append, ih]
    simp only [map_cons, sum_cons, length_cons]
    ring

theorem intercalate_inj {n n' first part : List Char}
    (h : n.intercalate (first :: part :: parts) = n'.intercalate (first :: part :: parts)) :
    n = n' := by
  have hlength := congrArg List.length h
  rw [length_intercalate, length_intercalate, Nat.add_left_cancel_iff, Nat.add_left_cancel_iff]
    at hlength
  have hn : n.length = n'.length := Nat.eq_of_mul_eq_mul_left (Nat.succ_pos _) hlength
  simp only [intercalate_cons_cons, append_assoc, append_cancel_left_eq] at h
  exact (append_inj h hn).1

theorem mem_backreferences {name : List Char} : ∀ {parts : List (List Char)} {s : List Char}
    {x : PUnit × List Char},
    x ∈ (backreferences name parts).ways s ↔ s = name.intercalate parts ++ x.2
  | [], s, x => by
    rw [backreferences, Pattern.mem_pure]
    exact ⟨fun h => by rw [h]; rfl, fun h => by rw [h]; rfl⟩
  | [part], s, x => by simp [backreferences, mem_literal]
  | part :: next :: parts, s, x => by
    simp only [backreferences, mem_bind, mem_literal, mem_backreferences,
      intercalate_cons_cons, append_assoc]
    constructor
    · rintro ⟨y, rfl, z, hz, hx⟩
      rw [hz, hx]
    · intro h
      exact ⟨(.unit, _), h, (.unit, _), rfl, rfl⟩

theorem mem_scriptPattern {first part s name : List Char} :
    (name, []) ∈ (scriptPattern first (part :: parts)).ways s
      ↔ name ≠ [] ∧ s = name.intercalate (first :: part :: parts) := by
  simp only [scriptPattern, mem_bind, mem_literal, mem_nonempty,
    Pattern.mem_pure, mem_backreferences, intercalate_cons_cons, append_assoc]
  constructor
  · rintro ⟨x, rfl, y, ⟨hy, hne⟩, z, hz, heq⟩
    obtain ⟨rfl, hrest⟩ := Prod.mk.inj heq
    rw [(mem_cuts.1 hy).1, hz, ← hrest, append_nil]
    exact ⟨hne, rfl⟩
  · rintro ⟨hne, rfl⟩
    refine ⟨(.unit, _), rfl, (name, _), ⟨mem_cuts.2 ⟨rfl, fun _ _ => rfl⟩, hne⟩,
      (.unit, []), (append_nil _).symm, rfl⟩

theorem toList_personalised (template name : String) : (personalised template name).toList
    = name.toList.intercalate ((Matcher.literal placeholder).split template.toList) := by
  rw [personalised, String.toList_ofList]
  exact (Matcher.intercalate_splitFrom _ 0 _).symm

variable (T : CharTables) (template text : String)

theorem approvedScript_of_parts {first part : List Char}
    (h : (Matcher.literal placeholder).split template.toList = first :: part :: parts) :
    (T.approvedScript template text = true
      ↔ ∃ name, T.plainName name = true ∧ text = personalised template name)
    ∧ ∀ name name', text = personalised template name → text = personalised template name' →
      name = name' := by
  have htext : ∀ name, text = personalised template name
      ↔ text.toList = name.toList.intercalate (first :: part :: parts) := by
    intro name
    rw [← h, ← toList_personalised, String.toList_inj]
  have hunique : ∀ name name', text = personalised template name →
      text = personalised template name' → name = name' := fun name name' hname hname' =>
    String.toList_inj.1
      (intercalate_inj (((htext name).1 hname).symm.trans ((htext name').1 hname')))
  refine ⟨?_, hunique⟩
  rw [CharTables.approvedScript, h, Option.any_eq_true]
  constructor
  · rintro ⟨name, hname, hplain⟩
    obtain ⟨-, heq⟩ := mem_scriptPattern.1 (mem_of_fullmatch hname)
    exact ⟨_, hplain, (htext _).2 (by rwa [String.toList_ofList])⟩
  · rintro ⟨name, hplain, hname⟩
    have hne : name.toList ≠ [] := by
      intro hnil
      simp [CharTables.plainName, hnil] at hplain
    refine ⟨name.toList, fullmatch_of_mem (mem_scriptPattern.2 ⟨hne, (htext _).1 hname⟩)
      fun other hother => ?_, by rwa [String.ofList_toList]⟩
    exact intercalate_inj ((mem_scriptPattern.1 hother).2.symm.trans ((htext name).1 hname))

/-- The script that is spoken is the template, or the template with one plain name in all its
placeholders, which the text determines. -/
theorem approvedScript_iff :
    if placeholder <:+: template.toList then
      (T.approvedScript template text = true
        ↔ ∃ name, T.plainName name = true ∧ text = personalised template name)
      ∧ ∀ name name', text = personalised template name → text = personalised template name' →
        name = name'
    else (T.approvedScript template text = true ↔ text = template) := by
  have hplaceholder : (Matcher.literal placeholder).occurs template.toList = true
      ↔ placeholder <:+: template.toList := Matcher.occurs_literal (by decide)
  have hsplit : (∃ part, (Matcher.literal placeholder).split template.toList = [part])
      ↔ (Matcher.literal placeholder).occurs template.toList = false :=
    Matcher.split_eq_singleton_iff
  split_ifs with hoccurs
  · rw [← hplaceholder] at hoccurs
    obtain ⟨first, parts, hparts⟩ :=
      Matcher.exists_splitFrom (m := Matcher.literal placeholder) 0 template.toList
    cases parts with
    | nil =>
      rw [hsplit.1 ⟨first, hparts⟩] at hoccurs
      cases hoccurs
    | cons => exact approvedScript_of_parts T template text hparts
  · rw [← hplaceholder, Bool.not_eq_true] at hoccurs
    obtain ⟨part, hpart⟩ := hsplit.2 hoccurs
    rw [CharTables.approvedScript, hpart]
    exact decide_eq_true_iff

end Crewquarters
