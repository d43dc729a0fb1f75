import Crewquarters.VoiceOutcome

/-!
# Who asked not to be called

`reconcile` lets the request win over the model's verdict, but `_outcome` goes on to overwrite it
when the call ended with an error.
-/

namespace Crewquarters

namespace VoiceCaller

theorem said_ne_nil {word : Char → Bool} {transcript : List Turn}
    (h : askedNotToBeCalled word transcript = true) : said .callee transcript ≠ [] := by
  intro hnil
  rw [askedNotToBeCalled, hnil] at h
  cases h

theorem reconcile_dnc {D : Digits} {word : Char → Bool} {transcript : List Turn}
    (model : CallOutcome)
    (h : askedNotToBeCalled word transcript = true) :
    (reconcile D word model transcript).disposition = .dnc := by
  rw [reconcile, if_pos h]

/-- An answered call that did not end at a recording, and in which the callee asked not to be
called: the owner is warned and the row says so if and only if the call ended without an error code
and the model call raised nothing but a `PlatformError`. -/
theorem outcome_dnc_iff (D : Digits) (word : Char → Bool) (report : CallReport) (summary : Summary)
    (hanswered : report.answered = true) (hmachine : report.endedBy ∉ machineReasons)
    (hasked : askedNotToBeCalled word report.transcript = true) :
    (∃ result, outcome D word report summary = some result ∧ result.disposition = .dnc
      ∧ (writeRow result).1.isSome ∧ (writeRow result).2 = .dnc)
    ↔ report.errorCode.getD "" = "" ∧ summary ≠ .raised := by
  have hreach : outcome D word report summary = summary.model.map fun model =>
      endedEarly (report.errorCode.getD "") (reconcile D word model report.transcript) := by
    rw [outcome, if_neg (by simp [hanswered]), if_neg hmachine, if_neg (said_ne_nil hasked)]
  have hraised : summary ≠ .raised ↔ summary.model.isSome := by
    cases summary <;> simp [Summary.model]
  rw [hreach, hraised]
  cases summary.model with
  | none => simp
  | some model =>
    by_cases hcode : report.errorCode.getD "" = ""
    · simp [hcode, endedEarly, writeRow, reconcile_dnc model hasked]
    · simp [hcode, endedEarly]

/-- What the session reports of a call that the callee hung up, or that a model error ended. -/
def stopCalling (failed : Bool) : CallReport where
  answered := true
  endedBy := if failed then "error" else "hangup"
  finalState := "completed"
  transcript := [⟨.callee, "Please stop calling."⟩]
  errorCode := if failed then some "MODEL_ERROR" else none

/-- The callee asks for no more calls, and the model fails to sum the call up. -/
theorem outcome_dnc_iff_stopCalling :
    ∃ result, outcome asciiDigits Char.isAlphanum (stopCalling false) .platformError = some result
      ∧ result.disposition = .dnc ∧ (writeRow result).1.isSome ∧ (writeRow result).2 = .dnc :=
  (outcome_dnc_iff asciiDigits Char.isAlphanum (stopCalling false) .platformError rfl (by decide)
    (by decide)).2 (by decide)

/-- A model error ends the call after the request: the row says that it failed. -/
theorem outcome_dnc_error :
    (stopCalling true).answered = true ∧ (stopCalling true).endedBy ∉ machineReasons
    ∧ askedNotToBeCalled Char.isAlphanum (stopCalling true).transcript = true
    ∧ (outcome asciiDigits Char.isAlphanum (stopCalling true) .unparsed).any
      (·.disposition = .failed) = true := by
  decide

end VoiceCaller

end Crewquarters
