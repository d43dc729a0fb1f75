import Crewquarters.PrReviews

/-!
# At most one review a commit, while the agent's own are on the pages it reads

Only the first pages are read, and they hold the oldest reviews.
-/

namespace Crewquarters

open List

namespace PrReviews

variable {reviews : List Review} {headSha : List Char}

theorem listReviews_eq (pages : ℕ) (reviews : List Review) :
    listReviews pages reviews = reviews.take (pages * filesPageSize) := by
  induction pages generalizing reviews with
  | zero => simp [listReviews]
  | succ pages ih =>
    rw [listReviews, ih, Nat.succ_mul, Nat.add_comm, take_add]
    split_ifs with hshort
    · rw [length_take] at hshort
      rw [drop_eq_nil_of_le (by omega), take_nil]
    · rfl

/-- The agent's reviews for the commit of a run are on the pages that the run reads. -/
def onReadPages : Action → List Review → Bool
  | .run headSha _ _ _ _, reviews =>
    (reviews.drop (maxReviewPages * filesPageSize)).all fun r => r.agentFor ≠ some headSha
  | _, _ => true

/-- At most one review of the agent a commit, with its marker. -/
structure Single (reviews : List Review) : Prop where
  marked : ∀ r ∈ reviews, ∀ sha, r.agentFor = some sha → marker sha <:+: r.body
  once : ∀ sha, reviews.countP (fun r => r.agentFor = some sha) ≤ 1

theorem Single.other (h : Single reviews) (body : List Char) :
    Single (reviews ++ [⟨body, none⟩]) := by
  refine ⟨fun r hr sha hsha => ?_, fun sha => by simpa using h.once sha⟩
  rcases mem_append.1 hr with hr | hr
  · exact h.marked r hr sha hsha
  · rw [mem_singleton.1 hr] at hsha
    cases hsha

theorem Single.create (h : Single reviews)
    (hnone : reviews.countP (fun r => r.agentFor = some headSha) = 0) (lines : List Char)
    (posted : Posted) : Single (create headSha lines posted reviews) := by
  unfold PrReviews.create
  split_ifs
  · refine ⟨fun r hr sha hsha => ?_, fun sha => ?_⟩
    · rcases mem_append.1 hr with hr | hr
      · exact h.marked r hr sha hsha
      · rw [mem_singleton.1 hr] at hsha ⊢
        cases hsha
        exact (suffix_append _ _).isInfix
    · rw [countP_append]
      by_cases hsha : sha = headSha
      · subst hsha
        simp [hnone]
      · simpa [Ne.symm hsha] using h.once sha
  · exact h

/-- A review of the agent on the pages read has the marker, so that the run ends there. -/
theorem Single.countP_eq_zero (h : Single reviews) (hnew : alreadyReviewed headSha reviews = false)
    (hread : (reviews.drop (maxReviewPages * filesPageSize)).all
      (fun r => r.agentFor ≠ some headSha) = true) :
    reviews.countP (fun r => r.agentFor = some headSha) = 0 := by
  rw [alreadyReviewed, listReviews_eq, any_eq_false] at hnew
  rw [List.countP_eq_zero]
  intro r hr hagent
  rw [← take_append_drop (maxReviewPages * filesPageSize) reviews, mem_append] at hr
  rcases hr with hr | hr
  · exact hnew r hr (decide_eq_true (h.marked r (mem_of_mem_take hr) _ (of_decide_eq_true hagent)))
  · have hother := all_eq_true.1 hread r hr
    simp_all

/-- A run that reads the commit's earlier review adds none. -/
theorem Single.step (h : Single reviews) {a : Action} (hread : onReadPages a reviews = true) :
    Single (step a reviews) := by
  cases a with
  | other body => exact h.other body
  | run headSha lines listed first second =>
    rw [PrReviews.step]
    split_ifs with hdone
    · exact h
    · have hnone := h.countP_eq_zero (Bool.not_eq_true _ ▸ hdone) hread
      unfold post
      split_ifs
      · exact h.create hnone listed second
      · exact h.create hnone lines first

/-- The agent creates at most one review for a head commit if every run can read those it made. -/
theorem created_once (actions : List Action) (reviews : List Review)
    (hrun : machine.run actions [] = some reviews)
    (hread : machine.Meets (onReadPages · · = true) actions []) (headSha : List Char) :
    reviews.countP (fun r => r.agentFor = some headSha) ≤ 1 := by
  have hstep : ∀ a s t, Single s → onReadPages a s = true → machine.step a s = some t → Single t :=
    fun a s t h hok hstep => Option.some.inj hstep ▸ h.step hok
  exact ((Machine.along_of_meets hstep actions ⟨by simp, by simp⟩ hread).last hrun).once headSha

def twice : List Action := List.replicate 2 (.run "c0ffee".toList [] [] .created .created)

theorem created_once_twice : ∃ reviews, machine.run twice [] = some reviews
    ∧ reviews.countP (fun r => r.agentFor = some "c0ffee".toList) ≤ 1 :=
  ⟨[⟨reviewBody "c0ffee".toList [], some "c0ffee".toList⟩], by decide,
    created_once twice _ (by decide) (by decide) _⟩

/-- After three hundred reviews of others the agent does not find its own. -/
theorem created_again : (machine.run (List.replicate 300 (.other []) ++ twice) []).any
    (fun reviews => reviews.countP (fun r => r.agentFor = some "c0ffee".toList) = 2) = true := by
  decide +kernel

end PrReviews

end Crewquarters
