import Crewquarters.System
import Crewquarters.Proofs.Queue

/-!
# The jobs of runs

Every job in the table belongs to one attempt of one run and carries the key of that attempt and its
type (`JobsSound`). Claiming, keeping and returning leases leave the job live; completing, failing
for good and cancelling end it, and never touch another job.
-/

namespace Crewquarters

open JobTable List

def runKey : JobType → RunId → ℕ → DedupeKey
  | .runCancel, r, n => .cancel r n
  | .runStop, r, n => .stop r n
  | _, r, n => .attempt r n

def Job.IsFor (type : JobType) (r : RunId) (n : ℕ) (j : Job) : Prop :=
  j.type = type ∧ j.payload = .ofRun r n

instance (type : JobType) (r : RunId) (n : ℕ) (j : Job) : Decidable (j.IsFor type r n) :=
  inferInstanceAs (Decidable (_ ∧ _))

def JobTable.LiveFor (type : JobType) (r : RunId) (n : ℕ) (t : JobTable) : Prop :=
  ∃ j ∈ t.rows, j.live = true ∧ j.IsFor type r n

/-- Every job is for an attempt of a run, under the key of both. -/
structure JobsSound (t : JobTable) : Prop extends t.Numbered where
  shape : ∀ j ∈ t.rows, ∃ type ∈ System.handledTypes, ∃ r n,
    j.IsFor type r n ∧ j.dedupeKey = some (runKey type r n)

theorem runKey_injective {type type' : JobType} {r r' : RunId} {n n' : ℕ}
    (ht : type ∈ System.handledTypes) (ht' : type' ∈ System.handledTypes)
    (h : runKey type r n = runKey type' r' n') : type = type' ∧ r = r' ∧ n = n' := by
  simp only [System.handledTypes, mem_cons, not_mem_nil, or_false] at ht ht'
  rcases ht with rfl | rfl | rfl <;> rcases ht' with rfl | rfl | rfl <;>
    simp_all [runKey]

theorem ofRun_injective {r r' : RunId} {n n' : ℕ}
    (h : JobPayload.ofRun r n = JobPayload.ofRun r' n') : r = r' ∧ n = n' := by
  simpa [JobPayload.ofRun] using h

theorem JobsSound.of_core {t t' : JobTable} (h : JobsSound t)
    (hc : t'.rows.map Job.core = t.rows.map Job.core) (hn : t'.nextId = t.nextId) :
    JobsSound t' := by
  refine ⟨h.toNumbered.of_core hc hn, fun j hj => ?_⟩
  obtain ⟨k, hk, hkj⟩ := core_of_mem hc hj
  simp only [Job.core, Prod.mk.injEq] at hkj
  obtain ⟨type, ht, r, n, hfor, hkey⟩ := h.shape k hk
  refine ⟨type, ht, r, n, ?_, ?_⟩
  · unfold Job.IsFor
    rw [← hkj.2.1, ← hkj.2.2.1]
    exact hfor
  · rw [← hkj.2.2.2]
    exact hkey

theorem JobsSound.update {t : JobTable} {p : Job → Bool} {f : Job → Job} (h : JobsSound t)
    (hf : ∀ j, (f j).core = j.core) : JobsSound (t.update p f) :=
  h.of_core (map_core_update hf) rfl

def JobTable.withJob (type : JobType) (r : RunId) (n : ℕ) (due : Time) (t : JobTable) : JobTable :=
  (t.enqueue type (.ofRun r n) (some (runKey type r n)) due 5).2

section Enqueue

variable (t : JobTable) (type : JobType) (r : RunId) (n : ℕ) (due : Time)

theorem withJob_cases :
    (t.hasLive (runKey type r n) = true ∧ t.withJob type r n due = t)
    ∨ (t.hasLive (runKey type r n) = false ∧ t.withJob type r n due =
      { rows := t.rows ++ [Job.fresh t.nextId type (.ofRun r n) (some (runKey type r n)) due 5]
        nextId := t.nextId + 1 }) :=
  enqueue_cases

variable {t type r n due}

theorem mem_withJob_of_mem {j : Job} (h : j ∈ t.rows) : j ∈ (t.withJob type r n due).rows := by
  rcases withJob_cases t type r n due with ⟨-, he⟩ | ⟨-, he⟩ <;> rw [he]
  · exact h
  · exact mem_append_left _ h

theorem mem_withJob {j : Job} (h : j ∈ (t.withJob type r n due).rows) :
    j ∈ t.rows ∨ (t.hasLive (runKey type r n) = false
      ∧ j = Job.fresh t.nextId type (.ofRun r n) (some (runKey type r n)) due 5) := by
  rcases withJob_cases t type r n due with ⟨-, he⟩ | ⟨hlive, he⟩ <;> rw [he] at h
  · exact .inl h
  · rcases mem_append.1 h with h | h
    · exact .inl h
    · exact .inr ⟨hlive, mem_singleton.1 h⟩

theorem JobsSound.withJob (h : JobsSound t) (ht : type ∈ System.handledTypes) :
    JobsSound (t.withJob type r n due) := by
  rcases withJob_cases t type r n due with ⟨-, he⟩ | ⟨-, he⟩ <;> rw [he]
  · exact h
  · refine ⟨h.toNumbered.append rfl, fun j hj => ?_⟩
    rcases mem_append.1 hj with hj | hj
    · exact h.shape j hj
    · rw [mem_singleton.1 hj]
      exact ⟨type, ht, r, n, ⟨rfl, rfl⟩, rfl⟩

theorem JobsSound.liveFor_withJob (h : JobsSound t) (ht : type ∈ System.handledTypes) :
    (t.withJob type r n due).LiveFor type r n := by
  rcases withJob_cases t type r n due with ⟨hlive, he⟩ | ⟨-, he⟩ <;> rw [he]
  · obtain ⟨j, hj, hkey, hl⟩ := hasLive_iff.1 hlive
    obtain ⟨type', ht', r', n', hfor, hkey'⟩ := h.shape j hj
    rw [hkey', Option.some.injEq] at hkey
    obtain ⟨rfl, rfl, rfl⟩ := runKey_injective ht' ht hkey
    exact ⟨j, hj, hl, hfor⟩
  · exact ⟨_, mem_append_right _ (mem_singleton.2 rfl), rfl, rfl, rfl⟩

end Enqueue

namespace JobTable

variable {t : JobTable} {type : JobType} {r : RunId} {n : ℕ}

theorem LiveFor.withJob (h : t.LiveFor type r n) (type' : JobType) (r' : RunId) (n' : ℕ)
    (due : Time) : (t.withJob type' r' n' due).LiveFor type r n := by
  obtain ⟨j, hj, hl, hfor⟩ := h
  exact ⟨j, mem_withJob_of_mem hj, hl, hfor⟩

theorem LiveFor.update {p : Job → Bool} {f : Job → Job} (h : t.LiveFor type r n)
    (hf : ∀ j, (f j).core = j.core)
    (hp : ∀ j ∈ t.rows, j.live = true → j.IsFor type r n → p j = true → (f j).live = true) :
    (t.update p f).LiveFor type r n := by
  obtain ⟨j, hj, hl, hfor⟩ := h
  refine ⟨if p j then f j else j, mem_update.2 ⟨j, hj, rfl⟩, ?_, ?_⟩
  · split_ifs with hpj
    · exact hp j hj hl hfor hpj
    · exact hl
  · split_ifs with hpj
    · have hc := hf j
      simp only [Job.core, Prod.mk.injEq] at hc
      exact ⟨hc.2.1.trans hfor.1, hc.2.2.1.trans hfor.2⟩
    · exact hfor

end JobTable

end Crewquarters
