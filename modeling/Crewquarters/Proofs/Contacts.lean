import Crewquarters.Contacts

/-!
# Whom the caller may dial

`classify` gives every row one verdict, in order. It remembers the phones of earlier eligible rows
only, so that a row marked do-not-call does not keep the number of another row from being dialled.
-/

namespace Crewquarters

open List

namespace CharTables

variable (T : CharTables)

/-- The row alone allows the call. -/
def callable (contact : ContactRow) : Prop :=
  T.lower contact.consent ∈ consentYes ∧ T.isE164 contact.phone = true
    ∧ T.plainName contact.name = true ∧ T.lower contact.status ∈ readyStatuses

/-- The row says not to call. -/
def barred (contact : ContactRow) : Prop := T.lower contact.status ∈ ["dnc", "do-not-call"]

instance : DecidablePred T.callable := fun _ => inferInstanceAs (Decidable (_ ∧ _))

instance : DecidablePred T.barred := fun _ => inferInstanceAs (Decidable (_ ∈ _))

/-- The plan that gives each row its verdict: `none` for an eligible row. -/
def planOf (contacts : List ContactRow) (verdicts : List (Option SkipReason)) : Plan where
  eligible := ((contacts.zip verdicts).filter fun entry => entry.2.isNone).map Prod.fst
  skipped := (contacts.zip verdicts).filterMap fun entry =>
    entry.2.map fun reason => ⟨entry.1.row, entry.1.name, reason⟩

/-- What the loop has made of the rows it has come to. -/
structure Classified (maxCalls : ℕ) (contacts : List ContactRow) (acc : Plan × List String) :
    Prop where
  verdicts : ∃ verdicts : List (Option SkipReason), verdicts.length = contacts.length
    ∧ acc.1 = planOf contacts verdicts
  seen : acc.2 = (acc.1.eligible.map ContactRow.phone).reverse
  few : acc.1.eligible.length ≤ maxCalls
  distinct : (acc.1.eligible.map ContactRow.phone).Nodup
  callable : ∀ contact ∈ acc.1.eligible, T.callable contact

variable {T} {contacts : List ContactRow} {contact : ContactRow} {seen : List String}
  {count maxCalls : ℕ}

theorem skipReason_eq_none (h : T.skipReason contact seen count maxCalls = none) :
    T.callable contact ∧ contact.phone ∉ seen ∧ count < maxCalls := by
  simp only [skipReason] at h
  split_ifs at h with hconsent hnumber hname hdone hready hseen hcap
  exact ⟨⟨hconsent, by simpa using hnumber, by simpa using hname, hready⟩, hseen, not_le.1 hcap⟩

theorem Classified.next {acc : Plan × List String} (h : T.Classified maxCalls contacts acc)
    (contact : ContactRow) :
    T.Classified maxCalls (contacts ++ [contact]) (T.classifyNext maxCalls acc contact) := by
  obtain ⟨verdicts, hlength, hplan⟩ := h.verdicts
  have hverdict : (planOf (contacts ++ [contact])
      (verdicts ++ [T.skipReason contact acc.2 acc.1.eligible.length maxCalls]))
      = (T.classifyNext maxCalls acc contact).1 := by
    rw [planOf, zip_append hlength.symm, classifyNext, hplan]
    cases hreason : T.skipReason contact acc.2 (planOf contacts verdicts).eligible.length maxCalls
    all_goals simp [planOf]
  have hsplit : ∃ verdicts : List (Option SkipReason),
      verdicts.length = (contacts ++ [contact]).length
      ∧ (T.classifyNext maxCalls acc contact).1 = planOf (contacts ++ [contact]) verdicts :=
    ⟨_, by simp [hlength], hverdict.symm⟩
  cases hreason : T.skipReason contact acc.2 acc.1.eligible.length maxCalls with
  | some =>
    rw [classifyNext, hreason] at hsplit ⊢
    exact ⟨hsplit, h.seen, h.few, h.distinct, h.callable⟩
  | none =>
    obtain ⟨hcallable, hnew, hroom⟩ := skipReason_eq_none hreason
    rw [h.seen, mem_reverse] at hnew
    rw [classifyNext, hreason] at hsplit ⊢
    refine ⟨hsplit, by simp [h.seen], by simpa using hroom, ?_, fun c hc => ?_⟩
    · rw [map_append, map_singleton, ← concat_eq_append]
      exact h.distinct.concat hnew
    · rcases mem_append.1 hc with hc | hc
      · exact h.callable c hc
      · obtain rfl := mem_singleton.1 hc
        exact hcallable

theorem classified_foldl (maxCalls : ℕ) (contacts : List ContactRow) :
    T.Classified maxCalls contacts (contacts.foldl (T.classifyNext maxCalls) (⟨[], []⟩, [])) := by
  induction contacts using List.reverseRecOn with
  | nil => exact ⟨⟨[], rfl, rfl⟩, rfl, Nat.zero_le _, .nil, by simp⟩
  | append_singleton contacts contact ih =>
    rw [foldl_append]
    exact ih.next contact

theorem callable.not_barred (h : T.callable contact) : ¬ T.barred contact := by
  obtain ⟨-, -, -, hready⟩ := h
  have hapart : ∀ status ∈ readyStatuses, status ∉ ["dnc", "do-not-call"] := by decide
  exact hapart _ hready

/-- Every row gets one verdict, in order. At most `maxCalls` are eligible, no two with one phone,
each callable on its own and so not itself marked do-not-call. -/
theorem classify_eligible (T : CharTables) (contacts : List ContactRow) (maxCalls : ℕ) :
    (∃ verdicts : List (Option SkipReason), verdicts.length = contacts.length
      ∧ T.classify contacts maxCalls = planOf contacts verdicts)
    ∧ (T.classify contacts maxCalls).eligible.length ≤ maxCalls
    ∧ ((T.classify contacts maxCalls).eligible.map ContactRow.phone).Nodup
    ∧ ∀ c ∈ (T.classify contacts maxCalls).eligible, T.callable c ∧ ¬ T.barred c := by
  have h := classified_foldl (T := T) maxCalls contacts
  refine ⟨h.verdicts, h.few, h.distinct, fun c hc => ?_⟩
  exact ⟨h.callable c hc, (h.callable c hc).not_barred⟩

def asciiTables : CharTables := ⟨Char.isAlpha, fun _ => false, Char.isDigit, String.toLower⟩

def ana (row : ℕ) (status : String) : ContactRow := ⟨row, "Ana", "+15550100200", "yes", status⟩

/-- A contact with two rows, one of them marked: the number is dialled. -/
theorem classify_marked_later :
    ¬ ∀ c ∈ (asciiTables.classify [ana 2 "", ana 3 "dnc"] 5).eligible,
      ∀ d ∈ [ana 2 "", ana 3 "dnc"], asciiTables.barred d → c.phone ≠ d.phone := by
  decide +kernel

end CharTables

end Crewquarters
