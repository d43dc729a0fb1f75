import Crewquarters.Proofs.Recorded

/-!
# Containers the platform ended

While no worker dies, no call raises and no lease runs out, every container of an attempt that the
platform ended (`fail_run`, or the cancel handler) is stopped: whichever of the transactions of
dispatch, cancel and failure comes first, one of the three compensations is left to do it, the
dispatch's own stop, the second look of the cancel handler or the `run.stop` job (`Pending`).
-/

namespace Crewquarters

open List Table JobTable

variable {r : RunId} {n : ℕ} {ref : RuntimeRef} {calls : List RuntimeCall} {due : Time}

/-- `stop_run` was called for the container, and `start_run` has not created it again since. -/
def StoppedAfter (ref : RuntimeRef) (calls : List RuntimeCall) : Prop :=
  ∃ before after, calls = before ++ RuntimeCall.stopped ref :: after
    ∧ RuntimeCall.created ref ∉ after

theorem StoppedAfter.append {c : RuntimeCall} (h : StoppedAfter ref calls)
    (hc : c ≠ .created ref) : StoppedAfter ref (calls ++ [c]) := by
  obtain ⟨before, after, rfl, hn⟩ := h
  refine ⟨before, after ++ [c], by simp, ?_⟩
  simp only [mem_append, mem_singleton, not_or]
  exact ⟨hn, hc.symm⟩

theorem stoppedAfter_append : StoppedAfter ref (calls ++ [.stopped ref]) :=
  ⟨calls, [], rfl, by simp⟩

def Pc.started : Pc → Bool
  | .record _ | .stopNow _ | .returned => true
  | _ => false

namespace System

variable {settings : Settings} {s t : System} {a : Action} {h : Handler} {pc : Pc}
variable {db : Db} {d : RunData} {u : Session} {p : Job → Bool} {f : Job → Job}

def Quiescent (s : System) : Prop :=
  s.handlers = [] ∧ ∀ j ∈ s.db.jobs.rows, j.type ∈ handledTypes → j.live = false

/-- Where nothing is left to do, every container of an attempt that the platform ended has been
stopped since it was created. -/
def EndedStopped (s : System) : Prop :=
  s.Quiescent → ∀ ref, .created ref ∈ s.calls → ∀ d ∈ s.db.runs, d.run.id = ref.runId →
    d.endedByPlatform ref.attempt = true → StoppedAfter ref s.calls

/-- No worker dies, no call raises and no lease runs out. -/
def Calm : Action → System → Prop
  | .crash _, _ | .raise _ _, _ => False
  | .tick clk _, s => ∀ j ∈ s.db.jobs.rows, JobTable.expired clk.reap j = false
  | .gatewayReap now, s => ∀ j ∈ s.db.jobs.rows, JobTable.expired now j = false
  | _, _ => True

instance : ∀ a s, Decidable (Calm a s)
  | .tick _ _, _ => inferInstanceAs (Decidable (∀ j ∈ _, _))
  | .gatewayReap _, _ => inferInstanceAs (Decidable (∀ j ∈ _, _))
  | .crash _, _ | .raise _ _, _ => isFalse id
  | .client _ _, _ | .claim _ _ _, _ | .advance _ _ _ _, _ | .keepLease _ _, _
  | .removed _, _ => isTrue trivial

/-- Somebody is left to stop the container. -/
def Pending (ref : RuntimeRef) (s : System) : Prop :=
  (∃ h ∈ s.handlers, (∃ spec : RunSpec, spec.ref = ref ∧ h.pc = .record spec)
    ∨ h.pc = .stopNow ref)
  ∨ (s.db.Fact ref.runId (fun d => (d.refOf ref.attempt).isSome)
    ∧ ∃ j ∈ s.db.jobs.rows, j.live = true ∧ j.IsFor .runStop ref.runId ref.attempt
      ∧ ∀ h ∈ s.handlers, h.job.id = j.id → h.pc = .start ∨ h.pc = .stopRun ref)

/-- In calm runs a live job has one handler, and what the platform ended is stopped or about to be.
-/
structure Orderly (s : System) : Prop where
  owned : ∀ h ∈ s.handlers, ∃ j ∈ s.db.jobs.rows, JobTable.owned h.job.id h.worker j = true
  single : ∀ h ∈ s.handlers, ∀ k ∈ s.handlers, h.job.id = k.job.id → h = k
  begun : ∀ ref, .created ref ∈ s.calls → ∀ j ∈ s.db.jobs.rows,
    j.IsFor .runDispatch ref.runId ref.attempt → j.live = true →
    ∃ h ∈ s.handlers, h.job.id = j.id ∧ h.pc.started = true
  recorded : ∀ ref, .created ref ∈ s.calls →
    s.db.Fact ref.runId (fun d => (d.refOf ref.attempt).isSome)
      ∨ ∃ h ∈ s.handlers, ∃ spec : RunSpec, spec.ref = ref ∧ h.pc = .record spec
  ended : ∀ ref, .created ref ∈ s.calls →
    s.db.Fact ref.runId (fun d => d.endedByPlatform ref.attempt = true) →
    StoppedAfter ref s.calls ∨ s.Pending ref
  cancelled : ∀ h ∈ s.handlers, ∀ r ref, h.pc = .cancelFinish r (some ref) →
    StoppedAfter ref s.calls ∧ .created ref ∈ s.calls

theorem Orderly.endedStopped (ho : Orderly s) (hs : Sound s) : s.EndedStopped := by
  rintro ⟨hnone, hlive⟩ ref hc d hd hid hended
  rcases ho.ended ref hc ((Db.fact_iff hs.db).2 ⟨d, hd, hid, hended⟩) with hstop | hpend
  · exact hstop
  · rcases hpend with ⟨h, hh, -⟩ | ⟨-, j, hj, hl, hfor, -⟩
    · rw [hnone] at hh
      cases hh
    · rw [hlive j hj (by rw [hfor.1]; decide)] at hl
      cases hl

theorem Orderly.row (ho : Orderly s) (hs : Sound s) (hh : h ∈ s.handlers) {j : Job}
    (hj : j ∈ s.db.jobs.rows) (hid : j.id = h.job.id) :
    j.state = .claimed ∧ j.core = h.job.core := by
  obtain ⟨k, hk, hown⟩ := ho.owned h hh
  simp only [JobTable.owned, Bool.and_eq_true, decide_eq_true_eq] at hown
  obtain rfl := hs.db.jobs.eq_of_id hj hk (hid.trans hown.1.1.symm)
  obtain ⟨m, hm, hcore⟩ := hs.jobs h hh
  obtain rfl := hs.db.jobs.eq_of_id hj hm (hid.trans (congrArg Prod.fst hcore).symm)
  exact ⟨hown.1.2, hcore⟩

/-- A dispatch handler that has not started its container is the only one, so nothing was created
for its attempt. -/
theorem Orderly.not_created (ho : Orderly s) (hs : Sound s) (hh : h ∈ s.handlers)
    (hfor : h.job.IsFor .runDispatch r n) (hpc : h.pc.started = false) :
    .created ⟨r, n⟩ ∉ s.calls := by
  intro hc
  obtain ⟨j, hj, hown⟩ := ho.owned h hh
  simp only [JobTable.owned, Bool.and_eq_true, decide_eq_true_eq] at hown
  obtain ⟨hstate, hcore⟩ := ho.row hs hh hj hown.1.1
  obtain ⟨k, hk, hid, hstarted⟩ := ho.begun ⟨r, n⟩ hc j hj (hfor.of_core hcore)
    (by simp [Job.live, hstate])
  obtain rfl := ho.single k hk h hh (hid.trans hown.1.1)
  rw [hpc] at hstarted
  cases hstarted

theorem Pending.handlers (hp : Pending ref s) (ho : s.db.Onward t.db)
    (hhandlers : t.handlers = s.handlers)
    (hstop : ∀ j ∈ s.db.jobs.rows, j.live = true → j.IsFor .runStop ref.runId ref.attempt →
      j ∈ t.db.jobs.rows) : Pending ref t := by
  rcases hp with ⟨h, hh, hpc⟩ | ⟨href, j, hj, hl, hfor, hhs⟩
  · exact .inl ⟨h, hhandlers ▸ hh, hpc⟩
  · refine .inr ⟨fact_ref_onward ho href, j, hstop j hj hl hfor, hl, hfor, ?_⟩
    rw [hhandlers]
    exact hhs

/-- A transaction that leaves claimed jobs and live stop jobs alone, and adds dispatch jobs only
for attempts nothing was created for. -/
theorem Orderly.withDb (ho : Orderly s) (hon : s.db.Onward db)
    (hclaimed : ∀ j ∈ s.db.jobs.rows, j.state = .claimed → j ∈ db.jobs.rows)
    (hstop : ∀ j ∈ s.db.jobs.rows, j.live = true → ∀ {r n}, j.IsFor .runStop r n → j ∈ db.jobs.rows)
    (hnew : ∀ j ∈ db.jobs.rows, j.live = true → ∀ {r n}, j.IsFor .runDispatch r n →
      j ∈ s.db.jobs.rows ∨ .created ⟨r, n⟩ ∉ s.calls)
    (hends : ∀ ref, .created ref ∈ s.calls →
      db.Fact ref.runId (fun d => d.endedByPlatform ref.attempt = true) →
      s.db.Fact ref.runId (fun d => d.endedByPlatform ref.attempt = true)
      ∨ StoppedAfter ref s.calls ∨ (s.withDb db).Pending ref) :
    Orderly (s.withDb db) where
  owned h hh := by
    obtain ⟨j, hj, hown⟩ := ho.owned h hh
    have hstate := hown
    simp only [JobTable.owned, Bool.and_eq_true, decide_eq_true_eq] at hstate
    exact ⟨j, hclaimed j hj hstate.1.2, hown⟩
  single := ho.single
  begun ref hc j hj hfor hl := by
    rcases hnew j hj hl hfor with hj | hn
    · exact ho.begun ref hc j hj hfor hl
    · exact absurd hc hn
  recorded ref hc := (ho.recorded ref hc).imp_left (fact_ref_onward hon)
  ended ref hc hf := by
    rcases hends ref hc hf with hf | hdone
    · exact (ho.ended ref hc hf).imp_right fun hp =>
        hp.handlers hon rfl fun j hj hl hfor => hstop j hj hl hfor
    · exact hdone
  cancelled := ho.cancelled

theorem fact_of_store {P : RunData → Prop} {r' : RunId} (hd : db.getRun r = some d)
    (hid : u.run.id = d.run.id) (h : (db.store u).Fact r' P) :
    (r' = r ∧ P u.toRunData) ∨ db.Fact r' P := by
  obtain ⟨e, he, hp⟩ := h
  have hu : u.run.id = r := hid.trans (Db.getRun_id hd)
  by_cases hr : u.run.id = r'
  · subst hr
    rw [Db.getRun_store (by rw [hu]; exact hd)] at he
    exact .inl ⟨hu, Option.some.inj he ▸ hp⟩
  · rw [Db.getRun_store_of_ne hr] at he
    exact .inr ⟨e, he, hp⟩

theorem Orderly.store (ho : Orderly s) (hs : Sound s) (hd : s.db.getRun r = some d)
    (hm : Moves (s.db.session d) u) (ha : AttemptsSound u.toRunData) (hjobs : u.jobs = s.db.jobs)
    (hends : ∀ n, u.endedByPlatform n = true → d.endedByPlatform n = true
      ∨ (.created ⟨r, n⟩ ∈ s.calls →
        StoppedAfter ⟨r, n⟩ s.calls ∨ (s.withDb (s.db.store u)).Pending ⟨r, n⟩)) :
    Orderly (s.withDb (s.db.store u)) := by
  have hrows : (s.db.store u).jobs = s.db.jobs := hjobs
  refine ho.withDb (hs.db.moves hd hm ha).2 (fun j hj _ => hrows ▸ hj)
    (fun j hj _ _ _ _ => hrows ▸ hj) (fun j hj _ _ _ _ => .inl (hrows ▸ hj)) fun ref hc hf => ?_
  rcases fact_of_store hd hm.later.id hf with ⟨rfl, hu⟩ | hf
  · rcases hends _ hu with hd' | hdone
    · exact .inl ⟨d, hd, hd'⟩
    · exact .inr (hdone hc)
  · exact .inl hf

theorem Sound.pending_fail (hs : Sound s) (hd : s.db.getRun r = some d)
    (hactive : d.run.state.phase < 4) (hon : s.db.Onward db)
    (hjobs : db.jobs = s.db.jobs.withJob .runStop d.run.id d.run.currentAttempt due)
    (href : s.db.Fact r fun e => (e.refOf d.run.currentAttempt).isSome) :
    (s.withDb db).Pending ⟨r, d.run.currentAttempt⟩ := by
  have hid : d.run.id = r := Db.getRun_id hd
  refine .inr ⟨fact_ref_onward hon href, ?_⟩
  rcases withJob_cases s.db.jobs .runStop d.run.id d.run.currentAttempt due with
    ⟨hlive, -⟩ | ⟨-, heq⟩
  · -- a stop job of this attempt would say that the platform had ended it before
    obtain ⟨j, hj, hkey, -⟩ : ∃ j ∈ s.db.jobs.rows, j.dedupeKey
        = some (runKey .runStop d.run.id d.run.currentAttempt) ∧ j.live = true := by
      simpa [JobTable.hasLive] using hlive
    obtain ⟨type, ht, r', n', hfor, hkey'⟩ := hs.db.jobs.shape j hj
    rw [hkey', Option.some.injEq] at hkey
    obtain ⟨rfl, rfl, rfl⟩ := runKey_injective ht (by decide) hkey
    have hended : d.endedByPlatform d.run.currentAttempt = true :=
      (hs.db.jobRuns j hj hfor).get (by rw [hid]; exact hd)
    exact absurd ((hs.db.run hd).ended_lt hactive hended) (lt_irrefl _)
  · have hmem : Job.fresh s.db.jobs.nextId .runStop (.ofRun d.run.id d.run.currentAttempt)
        (some (runKey .runStop d.run.id d.run.currentAttempt)) due 5 ∈ db.jobs.rows := by
      rw [hjobs, heq]
      simp
    refine ⟨_, hmem, rfl, ⟨rfl, by rw [hid]; rfl⟩, fun h hh hjob => ?_⟩
    obtain ⟨j, hj, hcore⟩ := hs.jobs h hh
    have hlt := hs.db.jobs.bound j hj
    have hjid : j.id = h.job.id := congrArg Prod.fst hcore
    have hfresh : h.job.id = s.db.jobs.nextId := hjob
    omega

section Turn

variable (ho : Orderly s) (hd : s.db.getRun r = some d) (hid : u.run.id = d.run.id)
  (hon : s.db.Onward (s.db.store u))
include hd hid

omit ho hon in
theorem fact_ended_of_store (hends : ∀ n, u.endedByPlatform n = d.endedByPlatform n)
    (hf : (s.db.store u).Fact ref.runId fun d => d.endedByPlatform ref.attempt = true) :
    s.db.Fact ref.runId fun d => d.endedByPlatform ref.attempt = true := by
  rcases fact_of_store hd hid hf with ⟨rfl, hu⟩ | hf
  · exact ⟨d, hd, (hends _).symm.trans hu⟩
  · exact hf

include ho hon

/-- The job of a queued run's dispatch is cancelled: it is not claimed, nor a stop job. -/
theorem Orderly.unqueued (hs : Sound s) (hends : ∀ n, u.endedByPlatform n = d.endedByPlatform n)
    {now : Time} (hjobs : u.jobs
      = (s.db.jobs.cancelByDedupe (dispatchKey d.run.id d.run.currentAttempt) now).2) :
    Orderly (s.withDb (s.db.store u)) := by
  have hrows : (s.db.store u).jobs = _ := hjobs
  refine ho.withDb hon (fun j hj hstate => ?_) (fun j hj hl r' n' hfor => ?_)
    (fun j hj hl r' n' _ => .inl ?_) fun ref _ hf => .inl (fact_ended_of_store hd hid hends hf)
  · rw [hrows]
    refine mem_update.2 ⟨j, hj, ?_⟩
    rw [if_neg (by simp [hstate])]
  · rw [hrows]
    refine mem_update.2 ⟨j, hj, ?_⟩
    rw [if_neg]
    intro hp
    simp only [Bool.and_eq_true, decide_eq_true_eq] at hp
    obtain ⟨type, htype, r'', n'', hfor', hkey⟩ := hs.db.jobs.shape j hj
    have heq : runKey type r'' n'' = runKey .runDispatch d.run.id d.run.currentAttempt :=
      Option.some.inj (hkey.symm.trans hp.1)
    obtain ⟨rfl, -⟩ := runKey_injective htype (by decide) heq
    cases (hfor.unique hfor').1
  · rw [hrows] at hj
    obtain ⟨k, hk, rfl⟩ := mem_update.1 hj
    split_ifs at hl ⊢
    · cases hl
    · exact hk

/-- A job is added; a dispatch only for an attempt that nothing was created for. -/
theorem Orderly.added (hends : ∀ n, u.endedByPlatform n = d.endedByPlatform n) {type : JobType}
    (hjobs : u.jobs = s.db.jobs.withJob type d.run.id n due)
    (hnew : type = .runDispatch → .created ⟨d.run.id, n⟩ ∉ s.calls) :
    Orderly (s.withDb (s.db.store u)) := by
  have hrows : (s.db.store u).jobs = _ := hjobs
  refine ho.withDb hon (fun j hj _ => hrows ▸ mem_withJob_of_mem hj)
    (fun j hj _ _ _ _ => hrows ▸ mem_withJob_of_mem hj) (fun j hj _ r' n' hfor => ?_)
    fun ref _ hf => .inl (fact_ended_of_store hd hid hends hf)
  rw [hrows] at hj
  rcases mem_withJob hj with hj | ⟨-, rfl⟩
  · exact .inl hj
  · obtain ⟨htype, rfl, rfl⟩ := hfor.unique ⟨rfl, rfl⟩
    exact .inr (hnew htype.symm)

/-- The platform ends the current attempt: a container on record gets a stop job, and one that is
not yet is stopped by the dispatch that started it. -/
theorem Orderly.failed (hs : Sound s) (hphase : d.run.state.phase < 4)
    (hends : ∀ n, u.endedByPlatform n = (d.endedByPlatform n || decide (d.run.currentAttempt = n)))
    (hjobs : u.jobs = if (d.refOf d.run.currentAttempt).isSome
      then s.db.jobs.withJob .runStop d.run.id d.run.currentAttempt due else s.db.jobs) :
    Orderly (s.withDb (s.db.store u)) := by
  have hrows : (s.db.store u).jobs = _ := hjobs
  have hmem : ∀ j ∈ s.db.jobs.rows, j ∈ (s.db.store u).jobs.rows := by
    intro j hj
    rw [hrows]
    split_ifs
    · exact mem_withJob_of_mem hj
    · exact hj
  refine ho.withDb hon (fun j hj _ => hmem j hj) (fun j hj _ _ _ _ => hmem j hj)
    (fun j hj _ r' n' hfor => .inl ?_) fun ref hc hf => ?_
  · rw [hrows] at hj
    split_ifs at hj
    · rcases mem_withJob hj with hj | ⟨-, rfl⟩
      · exact hj
      · cases hfor.1
    · exact hj
  · rcases fact_of_store hd hid hf with ⟨hr, hu⟩ | hf
    · rw [hends, Bool.or_eq_true, decide_eq_true_eq] at hu
      rcases hu with hu | hu
      · exact .inl ⟨d, hr ▸ hd, hu⟩
      · obtain rfl : ref = ⟨r, d.run.currentAttempt⟩ := by
          cases ref
          exact congrArg₂ RuntimeRef.mk hr hu.symm
        refine .inr (.inr ?_)
        rcases ho.recorded _ hc with href | ⟨h, hh, spec, hspec, hpc⟩
        · have hsome : (d.refOf d.run.currentAttempt).isSome := href.get hd
          rw [if_pos hsome] at hrows
          exact hs.pending_fail hd hphase hon hrows href
        · exact .inl ⟨h, hh, .inl ⟨spec, hspec, hpc⟩⟩
    · exact .inl hf

end Turn

theorem Orderly.turn (ho : Orderly s) (hs : Sound s) (hd : s.db.getRun r = some d)
    (ht : Turn (s.db.session d) u) (ha : AttemptsSound u.toRunData) :
    Orderly (s.withDb (s.db.store u)) := by
  have hon := (hs.db.moves hd ht.moves ha).2
  cases ht with
  | silent kept attempt ends jobs move =>
    exact ho.store hs hd (Turn.silent kept attempt ends jobs move).moves ha jobs
      fun n hn => .inl ((ends n).symm.trans hn)
  | unqueue kept attempt ends jobs => exact ho.unqueued hd kept.id hon hs ends jobs.choose_spec
  | cancel kept attempt ends jobs =>
    exact ho.added hd kept.id hon ends jobs.choose_spec fun h => by cases h
  | retry kept attempt ends jobs =>
    refine ho.added hd kept.id hon ends jobs.choose_spec fun _ hc => ?_
    -- the run has not come to this attempt yet
    have hle := ((hs.created _ hc).get (d := d) (by rw [Db.getRun_id hd]; exact hd)).le
    exact Nat.not_succ_le_self _ hle
  | fail kept attempt ends jobs source =>
    refine ho.failed hd kept.id hon hs ?_ ends jobs.choose_spec
    rcases source with hq | hw
    · rw [show d.run.state = .queued from hq]
      decide
    · exact (phase_watched hw).2.trans_lt (by decide)

theorem Orderly.turns {db' : Db} (h : Db.Turns db db') (hs : Sound (s.withDb db)) :
    Orderly (s.withDb db) → Orderly (s.withDb db') := by
  intro ho
  induction h with
  | refl => exact ho
  | turn run turn sound _ ih => exact ih (hs.turn run turn sound) (ho.turn hs run turn sound)

theorem Orderly.create {d : RunData} (ho : Orderly s) (hs : Sound s) (hd : NewRun d)
    (hid : d.run.id = s.db.nextUuid) : Orderly (s.withDb (s.db.withNew d due)) := by
  have hfresh : ∀ ref, .created ref ∈ s.calls → ref.runId ≠ d.run.id := by
    intro ref hc heq
    obtain ⟨e, he, -⟩ := hs.created ref hc
    rw [hs.db.getRun_fresh (heq.trans hid).ge] at he
    cases he
  refine ho.withDb (hs.db.create hd hid).2 (fun j hj _ => mem_withJob_of_mem hj)
    (fun j hj _ _ _ _ => mem_withJob_of_mem hj) (fun j hj _ r n hfor => ?_) fun ref hc hf => .inl ?_
  · rcases mem_withJob hj with hj | ⟨-, rfl⟩
    · exact .inl hj
    · obtain ⟨-, rfl, -⟩ := hfor.unique ⟨rfl, rfl⟩
      exact .inr fun hc => hfresh _ hc rfl
  · obtain ⟨e, he, hended⟩ := hf
    refine ⟨e, ?_, hended⟩
    have hne : RunData.id d ≠ ref.runId := fun h => hfresh ref hc h.symm
    exact (get_append_of_ne hne).symm.trans he

theorem Pending.goto (hp : Pending ref s) (ho : Orderly s) (hs : Sound s) (hh : h ∈ s.handlers)
    (hrec : ∀ spec : RunSpec, spec.ref = ref → h.pc ≠ .record spec) (hnow : h.pc ≠ .stopNow ref)
    (hjob : s.db.Fact ref.runId (fun d => (d.refOf ref.attempt).isSome) →
      h.job.IsFor .runStop ref.runId ref.attempt → pc = .start ∨ pc = .stopRun ref) :
    Pending ref (s.goto h pc) := by
  rcases hp with ⟨k, hk, hpc⟩ | ⟨href, j, hj, hl, hfor, hhs⟩
  · refine .inl ⟨k, mem_put_of_mem hk fun hid => ?_, hpc⟩
    have hkid : k.id = h.id := hid
    obtain rfl : k = h := inj_on_of_nodup_map hs.handlerIds hk hh hkid
    rcases hpc with ⟨spec, hspec, hpc⟩ | hpc
    · exact hrec spec hspec hpc
    · exact hnow hpc
  · refine .inr ⟨href, j, hj, hl, hfor, fun k hk hid => ?_⟩
    rcases mem_put hk with rfl | ⟨hk, -⟩
    · have hrow := (ho.row hs hh hj hid.symm).2
      exact hjob href (hfor.of_core hrow.symm)
    · exact hhs k hk hid

section

variable (ho : Orderly s)
include ho

/-- A handler goes on: a dispatch handler does not go back before `start_run`, it leaves the second
transaction with the container on record, and no compensation is lost. -/
theorem Orderly.goto (hs : Sound s) (hh : h ∈ s.handlers)
    (hstarted : h.pc.started = true → pc.started = true)
    (hrec : ∀ spec, h.pc = .record spec →
      s.db.Fact spec.runId fun d => (d.refOf spec.attempt).isSome)
    (hpend : ∀ ref, .created ref ∈ s.calls →
      s.db.Fact ref.runId (fun d => d.endedByPlatform ref.attempt = true) → Pending ref s →
      StoppedAfter ref s.calls ∨ Pending ref (s.goto h pc))
    (hcancel : ∀ r ref, pc = .cancelFinish r (some ref) → StoppedAfter ref s.calls
      ∧ .created ref ∈ s.calls) :
    Orderly (s.goto h pc) where
  owned k hk := by
    rcases mem_put hk with rfl | ⟨hk, -⟩
    · exact ho.owned h hh
    · exact ho.owned k hk
  single k hk l hl hid := by
    rcases mem_put hk with rfl | ⟨hk, hkid⟩ <;> rcases mem_put hl with rfl | ⟨hl, hlid⟩
    · rfl
    · obtain rfl := ho.single h hh l hl hid
      exact absurd rfl hlid
    · obtain rfl := ho.single k hk h hh hid
      exact absurd rfl hkid
    · exact ho.single k hk l hl hid
  begun ref hc j hj hfor hl := by
    obtain ⟨k, hk, hid, hst⟩ := ho.begun ref hc j hj hfor hl
    by_cases hkh : k.id = h.id
    · obtain rfl : k = h := inj_on_of_nodup_map hs.handlerIds hk hh hkh
      exact ⟨{ k with pc }, mem_put_self (a := { k with pc }) hk rfl, hid, hstarted hst⟩
    · exact ⟨k, mem_put_of_mem hk hkh, hid, hst⟩
  recorded ref hc := by
    rcases ho.recorded ref hc with href | ⟨k, hk, spec, rfl, hpc⟩
    · exact .inl href
    · by_cases hkh : k.id = h.id
      · obtain rfl : k = h := inj_on_of_nodup_map hs.handlerIds hk hh hkh
        exact .inl (hrec spec hpc)
      · exact .inr ⟨k, mem_put_of_mem hk hkh, spec, rfl, hpc⟩
  ended ref hc hf := by
    rcases ho.ended ref hc hf with hstop | hp
    · exact .inl hstop
    · exact hpend ref hc hf hp
  cancelled k hk r ref hpc := by
    rcases mem_put hk with rfl | ⟨hk, -⟩
    · exact hcancel r ref hpc
    · exact ho.cancelled k hk r ref hpc

theorem Orderly.gotoOther {type : JobType} (hs : Sound s) (hh : h ∈ s.handlers)
    (hfor : h.job.IsFor type r n) (htype : type ≠ .runStop) (hstarted : h.pc.started = false)
    (hcancel : ∀ r ref, pc ≠ .cancelFinish r (some ref)) : Orderly (s.goto h pc) := by
  have hrec : ∀ spec, h.pc ≠ .record spec := by
    rintro spec hpc
    rw [hpc] at hstarted
    cases hstarted
  have hnow : ∀ ref, h.pc ≠ .stopNow ref := by
    rintro ref hpc
    rw [hpc] at hstarted
    cases hstarted
  refine ho.goto hs hh (fun h => by rw [hstarted] at h; cases h)
    (fun spec hpc => absurd hpc (hrec spec)) (fun ref _ _ hp => .inr ?_)
    fun r ref hpc => absurd hpc (hcancel r ref)
  exact hp.goto ho hs hh (fun spec _ => hrec spec) (hnow ref)
    fun _ hstop => absurd (hfor.unique hstop).1 htype

theorem Orderly.readStop (hs : Sound s) (hh : h ∈ s.handlers) (hpc : h.pc = .start)
    (hfor : h.job.IsFor .runStop r n) (hd : s.db.getRun r = some d) :
    Orderly (s.goto h (afterStopRead n d)) := by
  refine ho.goto hs hh (fun h => by rw [hpc] at h; cases h)
    (fun spec h => by rw [hpc] at h; cases h) (fun ref _ _ hp => .inr ?_) fun r' ref h => ?_
  · refine hp.goto ho hs hh (fun spec _ h => by rw [hpc] at h; cases h)
      (fun h => by rw [hpc] at h; cases h) fun href hstop => .inr ?_
    obtain ⟨-, rfl, rfl⟩ := hfor.unique hstop
    obtain ⟨x, hx⟩ := Option.isSome_iff_exists.1 (href.get hd)
    unfold afterStopRead
    rw [hx, (hs.db.run hd).refs _ _ hx, Db.getRun_id hd]
  · unfold afterStopRead at h
    split at h <;> cases h

theorem Orderly.stopContainer (ref : RuntimeRef) : Orderly (s.stopContainer ref) := by
  have hmem : ∀ x, .created x ∈ (s.stopContainer ref).calls → .created x ∈ s.calls := by
    intro x hx
    simpa [System.stopContainer] using hx
  refine ⟨ho.owned, ho.single, fun x hx => ho.begun x (hmem x hx),
    fun x hx => ho.recorded x (hmem x hx), fun x hx hf => ?_, fun k hk r x hpc => ?_⟩
  · exact (ho.ended x (hmem x hx) hf).imp_left fun h => h.append fun heq => by cases heq
  · obtain ⟨hstop, hc⟩ := ho.cancelled k hk r x hpc
    exact ⟨hstop.append (fun heq => by cases heq), mem_append_left _ hc⟩

theorem Orderly.stopGoto (hs : Sound s) (hh : h ∈ s.handlers)
    (hstarted : h.pc.started = true → pc.started = true) (hrec : ∀ spec, h.pc ≠ .record spec)
    (hnow : ∀ x, h.pc = .stopNow x → x = ref)
    (hjob : ∀ x : RuntimeRef, h.job.IsFor .runStop x.runId x.attempt → x = ref)
    (hcancel : ∀ r x, pc = .cancelFinish r (some x) → x = ref ∧ .created ref ∈ s.calls) :
    Orderly ((s.stopContainer ref).goto h pc) := by
  have hstopped : StoppedAfter ref (s.stopContainer ref).calls := stoppedAfter_append
  refine (ho.stopContainer ref).goto hs.stopContainer hh hstarted
    (fun spec hpc => absurd hpc (hrec spec)) (fun x _ _ hp => ?_) fun r x hpc => ?_
  · by_cases hx : x = ref
    · exact .inl (hx ▸ hstopped)
    · exact .inr (hp.goto (ho.stopContainer ref) hs.stopContainer hh (fun spec _ => hrec spec)
        (fun hpc => hx (hnow x hpc)) fun _ hfor => absurd (hjob x hfor) hx)
  · obtain ⟨rfl, hc⟩ := hcancel r x hpc
    exact ⟨hstopped, mem_append_left _ hc⟩

theorem Orderly.stop (hs : Sound s) (hh : h ∈ s.handlers) (hstops : StopsAt ref h.pc pc) :
    Orderly ((s.stopContainer ref).goto h pc) := by
  have hsound := hs.handlers h hh
  obtain ⟨pc₀, hpc⟩ : ∃ p, h.pc = p := ⟨_, rfl⟩
  rw [hpc] at hstops hsound
  cases hstops with
  | now =>
    refine ho.stopGoto hs hh (fun _ => rfl) (by simp [hpc]) (fun x hx => ?_) (fun x hx => ?_) nofun
    · rw [hpc] at hx
      cases hx
      rfl
    · cases (hsound.1.unique hx).1
  | cancel =>
    obtain ⟨⟨m, hfor⟩, d, hd, href⟩ := hsound
    refine ho.stopGoto hs hh (by simp [hpc, Pc.started]) (by simp [hpc]) (by simp [hpc])
      (fun x hx => ?_) fun r' x hx => ?_
    · cases (hfor.unique hx).1
    · cases hx
      exact ⟨rfl, hs.recorded d (get_mem hd) _ _ href⟩
  | stop =>
    refine ho.stopGoto hs hh (fun _ => rfl) (by simp [hpc]) (by simp [hpc]) (fun x hx => ?_) nofun
    obtain ⟨-, hr, hn⟩ := hsound.unique hx
    cases x
    exact congrArg₂ RuntimeRef.mk hr.symm hn.symm

/-- Nothing was created for a handler on its way to `start_run`, so it creates the container and
goes on to record it. -/
theorem Orderly.start {spec : RunSpec} (hs : Sound s) (hh : h ∈ s.handlers)
    (hpc : h.pc = .startRun spec) : Orderly ((s.startContainer spec).goto h (.record spec)) := by
  have hsound := hs.handlers h hh
  rw [hpc] at hsound
  have hnew : .created spec.ref ∉ s.calls :=
    ho.not_created hs hh hsound.1 (by rw [hpc]; rfl)
  have hnone : s.hasContainer spec.ref = false := by
    rw [hasContainer, any_eq_false]
    intro c hc href
    rw [decide_eq_true_eq] at href
    exact hnew (href ▸ (hs.containers c hc).2)
  have hother : ∀ x, .created x ∈ s.calls ++ [RuntimeCall.created spec.ref] →
      x = spec.ref ∨ (x ≠ spec.ref ∧ .created x ∈ s.calls) := by
    intro x hx
    by_cases heq : x = spec.ref
    · exact .inl heq
    · refine .inr ⟨heq, ?_⟩
      simpa [heq] using hx
  have hrecord : { h with pc := .record spec } ∈ (s.goto h (.record spec)).handlers :=
    mem_put_self (a := { h with pc := .record spec }) hh rfl
  have hgoto : Orderly (s.goto h (.record spec)) := by
    refine ho.gotoOther hs hh hsound.1 (by decide) (by rw [hpc]; rfl)
      fun _ _ hcancel => by cases hcancel
  unfold System.startContainer
  rw [hnone]
  refine ⟨hgoto.owned, hgoto.single, fun x hx j hj hfor hl => ?_, fun x hx => ?_,
    fun x hx hf => ?_, fun k hk r x hk' => ?_⟩
  · rcases hother x hx with rfl | ⟨-, hx⟩
    · obtain ⟨k, hk, hcore⟩ := hs.jobs h hh
      have hid := hs.db.dispatch j hj k hk hfor (hsound.1.of_core hcore)
      exact ⟨_, hrecord, (congrArg Prod.fst hcore).symm.trans hid.symm, rfl⟩
    · exact hgoto.begun x hx j hj hfor hl
  · rcases hother x hx with rfl | ⟨-, hx⟩
    · exact .inr ⟨_, hrecord, spec, rfl, rfl⟩
    · exact hgoto.recorded x hx
  · rcases hother x hx with rfl | ⟨hne, hx⟩
    · exact .inr (.inl ⟨_, hrecord, .inl ⟨spec, rfl, rfl⟩⟩)
    · refine (hgoto.ended x hx hf).imp_left fun h => h.append ?_
      simpa using hne.symm
  · obtain ⟨hstop, hc⟩ := hgoto.cancelled k hk r x hk'
    refine ⟨hstop.append fun heq => ?_, mem_append_left _ hc⟩
    cases heq
    exact hnew hc

theorem Orderly.record {d : RunData} {u : Session} {spec : RunSpec} {stop : Bool} (hs : Sound s)
    (hh : h ∈ s.handlers) (hpc : h.pc = .record spec) (hd : s.db.getRun spec.runId = some d)
    (hr : Record (s.db.session d) u spec.attempt spec.ref stop) (ha : AttemptsSound u.toRunData) :
    Orderly ((s.withDb (s.db.store u)).goto h (if stop then .stopNow spec.ref else .returned)) := by
  have hsound := hs.handlers h hh
  rw [hpc] at hsound
  have hm := hr.moves (show spec.ref = ⟨d.run.id, spec.attempt⟩ by
    rw [show d.run.id = spec.runId from Db.getRun_id hd]
    rfl)
  have hs' : Sound (s.withDb (s.db.store u)) := by
    refine hs.store hd hm ha fun n x hx => ?_
    rw [hr.refs] at hx
    split_ifs at hx
    · exact .inr (Option.some.inj hx ▸ hsound.2)
    · exact .inl hx
  have ho' : Orderly (s.withDb (s.db.store u)) :=
    ho.store hs hd hm ha hr.jobs fun n hn => .inl ((hr.ends n).symm.trans hn)
  refine ho'.goto hs' hh (fun _ => by cases stop <;> rfl) (fun spec' hpc' => ?_)
    (fun x _ hf hp => .inr ?_) fun r x hx => ?_
  · rw [hpc] at hpc'
    cases hpc'
    exact fact_store hd hm.later.id hr.ref_isSome
  · by_cases hx : x = spec.ref
    · subst hx
      -- the run is off the attempt, or in the state its end left
      have hended : d.endedByPlatform spec.attempt = true := by
        rcases fact_of_store hd hm.later.id hf with ⟨-, hu⟩ | hf
        · exact (hr.ends _).symm.trans hu
        · exact hf.get hd
      have hstop : stop = true := by
        refine hr.stop.2 ?_
        rcases (hs.db.run hd).ended _ hended with hlt | ⟨-, hmem⟩
        · exact .inl (Nat.ne_of_gt hlt)
        · refine .inr ?_
          show d.run.state = _ ∨ d.run.state = _ ∨ d.run.state = _
          simpa using hmem
      subst hstop
      exact .inl ⟨_, mem_put_self (a := { h with pc := .stopNow spec.ref }) hh rfl, .inr rfl⟩
    · refine hp.goto ho' hs' hh (fun spec' hspec hpc' => hx ?_) (by simp [hpc]) fun _ hfor => ?_
      · rw [hpc] at hpc'
        cases hpc'
        exact hspec.symm
      · cases (hsound.1.1.unique hfor).1
  · cases stop <;> cases hx

/-- The cancel handler's transaction. The container it had not read is stopped in it, the one it
had read was stopped before, and one that is not on record is left to the dispatch. -/
theorem Orderly.cancel {d : RunData} {u : Session} {read late : Option RuntimeRef} (hs : Sound s)
    (hh : h ∈ s.handlers) (hpc : h.pc = .cancelFinish r read) (hd : s.db.getRun r = some d)
    (hc : Cancelled (s.db.session d) u read late) (ha : AttemptsSound u.toRunData) :
    Orderly (((s.withDb (s.db.store u)).stopLate late).goto h .returned) := by
  have hsound := hs.handlers h hh
  rw [hpc] at hsound
  obtain ⟨m, hfor⟩ := hsound.1
  have hid : d.run.id = r := Db.getRun_id hd
  have hs₁ : Sound (s.stopLate late) := by
    cases late
    · exact hs
    · exact hs.stopContainer
  have ho₁ : Orderly (s.stopLate late) := by
    cases late
    · exact ho
    · exact ho.stopContainer _
  have hd₁ : (s.stopLate late).db.getRun r = some d := by rwa [(stopLate_frame late s).1]
  have hstopped : ∀ x, d.refOf d.run.currentAttempt = some x →
      StoppedAfter x (s.stopLate late).calls := by
    intro x hx
    have hlate := hc.late
    rw [show (s.db.session d).refOf (s.db.session d).run.currentAttempt = some x from hx] at hlate
    split_ifs at hlate with hread
    · subst hlate
      exact stoppedAfter_append
    · subst hlate
      exact (ho.cancelled h hh r x (by rw [hpc, ← not_not.1 hread])).1
  have hcommute : (s.withDb (s.db.store u)).stopLate late
      = (s.stopLate late).withDb ((s.stopLate late).db.store u) := by
    cases late <;> rfl
  have hstore : Orderly ((s.stopLate late).withDb ((s.stopLate late).db.store u)) := by
    refine ho₁.store hs₁ hd₁ ?_ ha ?_ fun n hn => ?_
    · rw [(stopLate_frame late s).1]
      exact hc.moves
    · rw [(stopLate_frame late s).1]
      exact hc.jobs
    · rw [hc.ends, Bool.or_eq_true, decide_eq_true_eq] at hn
      rcases hn with hn | rfl
      · exact .inl hn
      · refine .inr fun hcreated => ?_
        rcases ho₁.recorded _ hcreated with href | ⟨k, hk, spec, hspec, hkpc⟩
        · obtain ⟨x, hx⟩ := Option.isSome_iff_exists.1 (href.get hd₁)
          have hxr := (hs.db.run hd).refs _ _ hx
          rw [hid] at hxr
          exact .inl (hxr ▸ hstopped x hx)
        · exact .inr (.inl ⟨k, hk, .inl ⟨spec, hspec, hkpc⟩⟩)
  have hs₂ : Sound ((s.stopLate late).withDb ((s.stopLate late).db.store u)) := by
    refine hs₁.store hd₁ ?_ ha fun n x hx => .inl ((hc.kept.refs n).symm.trans hx)
    rw [(stopLate_frame late s).1]
    exact hc.moves
  rw [hcommute]
  refine hstore.gotoOther hs₂ ?_ hfor (by decide) (by rw [hpc]; rfl) nofun
  show h ∈ (s.stopLate late).handlers
  rwa [(stopLate_frame late s).2]

end

theorem setJobs_update_of_false (hp : ∀ j ∈ s.db.jobs.rows, p j = false) :
    s.setJobs (s.db.jobs.update p f) = s := by
  have hrows : s.db.jobs.update p f = s.db.jobs := by
    unfold JobTable.update
    congr 1
    conv_rhs => rw [← List.map_id s.db.jobs.rows]
    refine map_congr_left fun j hj => ?_
    simp [hp j hj]
  rw [hrows]
  rfl

/-- A handler ends, and with it its job; or the job goes back to the queue, if nothing was created
for it. -/
theorem Orderly.finish (ho : Orderly s) (hs : Sound s) (hh : h ∈ s.handlers)
    (hp : ∀ j, p j = true → j.id = h.job.id) (hf : ∀ j, (f j).core = j.core)
    (hpc : h.pc = .returned ∨ ∃ b, h.pc = .raised b)
    (hjob : ∀ j ∈ s.db.jobs.rows, j.id = h.job.id → ∀ {r n}, j.IsFor .runDispatch r n →
      .created ⟨r, n⟩ ∈ s.calls → p j = true ∧ (f j).live = false) :
    Orderly ((s.setJobs (s.db.jobs.update p f)).drop h) := by
  have hkeep : ∀ k ∈ s.handlers, k.pc ≠ .returned → (∀ b, k.pc ≠ .raised b) →
      k ∈ s.handlers.filter fun k => k.id ≠ h.id := by
    intro k hk hret hraise
    refine List.mem_filter.2 ⟨hk, decide_eq_true fun hid => ?_⟩
    obtain rfl : k = h := inj_on_of_nodup_map hs.handlerIds hk hh hid
    rcases hpc with hpc | ⟨b, hpc⟩
    · exact hret hpc
    · exact hraise b hpc
  have hrow : ∀ j ∈ s.db.jobs.rows, j.id ≠ h.job.id → j ∈ (s.db.jobs.update p f).rows := by
    intro j hj hid
    refine mem_update.2 ⟨j, hj, ?_⟩
    rw [if_neg fun hpj => hid (hp j hpj)]
  refine ⟨fun k hk => ?_, fun k hk l hl => ho.single k (mem_of_mem_filter hk) l
    (mem_of_mem_filter hl), fun x hx j hj hfor hl => ?_, fun x hx => ?_, fun x hx hended => ?_,
    fun k hk => ho.cancelled k (mem_of_mem_filter hk)⟩
  · obtain ⟨hk, hid⟩ := List.mem_filter.1 hk
    rw [decide_eq_true_eq] at hid
    obtain ⟨j, hj, hown⟩ := ho.owned k hk
    refine ⟨j, hrow j hj fun hjid => ?_, hown⟩
    simp only [JobTable.owned, Bool.and_eq_true, decide_eq_true_eq] at hown
    obtain rfl := ho.single k hk h hh (hown.1.1.symm.trans hjid)
    exact hid rfl
  · obtain ⟨i, hi, rfl⟩ := mem_update.1 hj
    by_cases hid : i.id = h.job.id
    · have hifor : i.IsFor .runDispatch x.runId x.attempt := by
        split_ifs at hfor
        · exact hfor.of_core (hf i).symm
        · exact hfor
      obtain ⟨hpi, hdead⟩ := hjob i hi hid hifor hx
      rw [if_pos hpi, hdead] at hl
      cases hl
    · rw [if_neg fun hpi => hid (hp i hpi)] at hfor hl ⊢
      obtain ⟨k, hk, hkid, hst⟩ := ho.begun x hx i hi hfor hl
      refine ⟨k, List.mem_filter.2 ⟨hk, decide_eq_true fun hkh => hid ?_⟩, hkid, hst⟩
      obtain rfl : k = h := inj_on_of_nodup_map hs.handlerIds hk hh hkh
      exact hkid.symm
  · refine (ho.recorded x hx).imp_right fun hrecord => ?_
    obtain ⟨k, hk, spec, hspec, hkpc⟩ := hrecord
    exact ⟨k, hkeep k hk (by simp [hkpc]) (by simp [hkpc]), spec, hspec, hkpc⟩
  · refine (ho.ended x hx hended).imp_right fun hpend => ?_
    rcases hpend with ⟨k, hk, hkpc⟩ | ⟨href, j, hj, hl, hfor, hhs⟩
    · refine .inl ⟨k, ?_, hkpc⟩
      rcases hkpc with ⟨spec, -, hkpc⟩ | hkpc
      · exact hkeep k hk (by simp [hkpc]) (by simp [hkpc])
      · exact hkeep k hk (by simp [hkpc]) (by simp [hkpc])
    · refine .inr ⟨href, j, hrow j hj fun hid => ?_, hl, hfor,
        fun k hk => hhs k (mem_of_mem_filter hk)⟩
      have hstart := hhs h hh hid.symm
      rcases hpc with hpc | ⟨b, hpc⟩ <;> simp [hpc] at hstart

theorem Orderly.complete {now : Time} (ho : Orderly s) (hs : Sound s) (hh : h ∈ s.handlers)
    (hpc : h.pc = .returned) :
    Orderly ((s.setJobs (s.db.jobs.update (JobTable.owned h.job.id h.worker)
      (JobTable.endAs .succeeded now))).drop h) := by
  refine ho.finish hs hh (fun j hj => ?_) (fun _ => rfl) (.inl hpc)
    fun j hj hid _ _ _ _ => ⟨?_, rfl⟩
  · simp only [JobTable.owned, Bool.and_eq_true, decide_eq_true_eq] at hj
    exact hj.1.1
  · obtain ⟨k, hk, hown⟩ := ho.owned h hh
    have hkid := hown
    simp only [JobTable.owned, Bool.and_eq_true, decide_eq_true_eq] at hkid
    rwa [hs.db.jobs.eq_of_id hj hk (hid.trans hkid.1.1.symm)]

theorem Orderly.raised {retryable : Bool} (ho : Orderly s) (hs : Sound s) (hh : h ∈ s.handlers)
    (hp : ∀ j, p j = true → j.id = h.job.id) (hf : ∀ j, (f j).core = j.core)
    (hpc : h.pc = .raised retryable) : Orderly ((s.setJobs (s.db.jobs.update p f)).drop h) := by
  refine ho.finish hs hh hp hf (.inr ⟨_, hpc⟩) fun j hj hid r n hfor hc => ?_
  have hcore := (ho.row hs hh hj hid).2
  exact absurd hc (ho.not_created hs hh (hfor.of_core hcore.symm) (by rw [hpc]; rfl))

theorem Orderly.claim {worker : WorkerId} {seconds : ℚ} {now : Time} {j : Job} (ho : Orderly s)
    (hs : Sound s) (hj : j ∈ s.db.jobs.rows) (hav : j.state = .available) :
    Orderly (s.claimed worker seconds now j) := by
  have hnone : ∀ k ∈ s.handlers, k.job.id ≠ j.id := by
    intro k hk hid
    have hstate := (ho.row hs hk hj hid.symm).1
    rw [hav] at hstate
    cases hstate
  have hrow : ∀ i ∈ s.db.jobs.rows, i.id ≠ j.id →
      i ∈ (s.claimed worker seconds now j).db.jobs.rows := by
    intro i hi hid
    exact mem_update.2 ⟨i, hi, by simp [hid]⟩
  have hleased : JobTable.lease worker seconds now j
      ∈ (s.claimed worker seconds now j).db.jobs.rows :=
    mem_update.2 ⟨j, hj, by simp⟩
  refine ⟨fun k hk => ?_, fun k hk l hl hid => ?_, fun x hx i hi hfor hl => ?_, fun x hx => ?_,
    fun x hx hf => ?_, fun k hk r x hpc => ?_⟩
  · rcases List.mem_append.1 hk with hk | hk
    · obtain ⟨i, hi, hown⟩ := ho.owned k hk
      refine ⟨i, hrow i hi fun hid => ?_, hown⟩
      simp only [JobTable.owned, Bool.and_eq_true, decide_eq_true_eq] at hown
      exact hnone k hk (hown.1.1.symm.trans hid)
    · rw [List.mem_singleton.1 hk]
      exact ⟨_, hleased, by simp [JobTable.owned, JobTable.lease]⟩
  · rcases List.mem_append.1 hk with hk | hk <;> rcases List.mem_append.1 hl with hl | hl
    · exact ho.single k hk l hl hid
    · rw [List.mem_singleton.1 hl] at hid
      exact absurd hid (hnone k hk)
    · rw [List.mem_singleton.1 hk] at hid
      exact absurd hid.symm (hnone l hl)
    · rw [List.mem_singleton.1 hk, List.mem_singleton.1 hl]
  · obtain ⟨i, hi', rfl⟩ := mem_update.1 hi
    by_cases hid : i.id = j.id
    · -- an available job has no handler, and so nothing was created for it
      obtain rfl := hs.db.jobs.eq_of_id hi' hj hid
      have hfor' : i.IsFor .runDispatch x.runId x.attempt := by
        split_ifs at hfor
        · exact hfor.of_core rfl
        · exact hfor
      obtain ⟨k, hk, hkid, -⟩ := ho.begun x hx i hi' hfor' (by simp [Job.live, hav])
      exact absurd hkid (hnone k hk)
    · rw [if_neg (by simpa using hid)] at hfor hl ⊢
      obtain ⟨k, hk, hrest⟩ := ho.begun x hx i hi' hfor hl
      exact ⟨k, mem_append_left _ hk, hrest⟩
  · refine (ho.recorded x hx).imp_right fun hrecord => ?_
    obtain ⟨k, hk, hrest⟩ := hrecord
    exact ⟨k, mem_append_left _ hk, hrest⟩
  · refine (ho.ended x hx hf).imp_right fun hpend => ?_
    rcases hpend with ⟨k, hk, hkpc⟩ | ⟨href, i, hi, hl, hfor, hhs⟩
    · exact .inl ⟨k, mem_append_left _ hk, hkpc⟩
    · by_cases hid : i.id = j.id
      · obtain rfl := hs.db.jobs.eq_of_id hi hj hid
        refine .inr ⟨href, _, hleased, rfl, hfor.of_core rfl, fun k hk hkid => ?_⟩
        rcases List.mem_append.1 hk with hk | hk
        · exact absurd hkid (hnone k hk)
        · rw [List.mem_singleton.1 hk]
          exact .inl rfl
      · refine .inr ⟨href, i, hrow i hi hid, hl, hfor, fun k hk hkid => ?_⟩
        rcases List.mem_append.1 hk with hk | hk
        · exact hhs k hk hkid
        · rw [List.mem_singleton.1 hk] at hkid
          exact absurd hkid.symm hid
  · rcases List.mem_append.1 hk with hk | hk
    · exact ho.cancelled k hk r x hpc
    · rw [List.mem_singleton.1 hk] at hpc
      cases hpc

theorem Orderly.keepLease (ho : Orderly s) :
    Orderly (s.setJobs (s.db.jobs.update p fun j => { j with leaseUntil := some due })) := by
  have hrow : ∀ j ∈ s.db.jobs.rows, ∃ k ∈ (s.db.jobs.update p
      fun j => { j with leaseUntil := some due }).rows, k.core = j.core ∧ k.state = j.state
        ∧ k.leaseOwner = j.leaseOwner := by
    intro j hj
    refine ⟨_, mem_update.2 ⟨j, hj, rfl⟩, ?_⟩
    split_ifs <;> exact ⟨rfl, rfl, rfl⟩
  refine ⟨fun k hk => ?_, ho.single, fun x hx j hj hfor hl => ?_, ho.recorded, fun x hx hf => ?_,
    ho.cancelled⟩
  · obtain ⟨j, hj, hown⟩ := ho.owned k hk
    obtain ⟨i, hi, hcore, hstate, howner⟩ := hrow j hj
    refine ⟨i, hi, ?_⟩
    have hid : i.id = j.id := congrArg Prod.fst hcore
    simpa only [JobTable.owned, hid, hstate, howner] using hown
  · obtain ⟨i, hi, rfl⟩ := mem_update.1 hj
    by_cases hpi : p i = true
    · rw [if_pos hpi] at hfor hl ⊢
      exact ho.begun x hx i hi (hfor.of_core rfl) hl
    · rw [if_neg hpi] at hfor hl ⊢
      exact ho.begun x hx i hi hfor hl
  · refine (ho.ended x hx hf).imp_right fun hpend => ?_
    rcases hpend with hk | ⟨href, j, hj, hl, hfor, hhs⟩
    · exact .inl hk
    · obtain ⟨i, hi, hcore, hstate, -⟩ := hrow j hj
      have hid : i.id = j.id := congrArg Prod.fst hcore
      refine .inr ⟨href, i, hi, ?_, hfor.of_core hcore, fun k hk hkid => hhs k hk (hkid.trans hid)⟩
      rwa [Job.live, hstate]

theorem orderly_did (hs : Sound s) (ho : Orderly s) (hok : Calm a s) (hdid : Did settings s a t) :
    Orderly t := by
  cases hdid with
  | refused => exact ho
  | call run turn sound => exact ho.turn hs run turn sound
  | create new fresh => exact ho.create hs new fresh
  | claim job available => exact ho.claim hs job available
  | pass handler pc job run turn sound =>
    exact (ho.turn hs run turn sound).gotoOther (hs.turn run turn sound) (getHandler_mem handler)
      job (by decide) (by rw [pc]; rfl) nofun
  | mint handler pc job run mint sound =>
    refine Orderly.gotoOther (ho.store hs run mint.moves sound mint.jobs
      fun n hn => .inl ((mint.ends n).symm.trans hn)) ?_ (getHandler_mem handler) job (by decide)
      (by rw [pc]; rfl) nofun
    exact hs.store run mint.moves sound fun n x hx => .inl ((mint.refs n).symm.trans hx)
  | start handler pc => exact ho.start hs (getHandler_mem handler) pc
  | record handler pc run record sound =>
    exact ho.record hs (getHandler_mem handler) pc run record sound
  | stop handler stops => exact ho.stop hs (getHandler_mem handler) stops
  | readCancel handler pc job =>
    refine ho.gotoOther hs (getHandler_mem handler) job (by decide) (by rw [pc]; rfl)
      fun r ref h => ?_
    unfold afterCancelRead at h
    split at h <;> cases h
  | cancel handler pc run cancelled sound =>
    exact ho.cancel hs (getHandler_mem handler) pc run cancelled sound
  | cancelOver handler pc run =>
    have hsound := hs.handlers _ (getHandler_mem handler)
    rw [pc] at hsound
    obtain ⟨m, hfor⟩ := hsound.1
    have ha := (hs.db.run run).attempts
    exact (ho.turn hs run .refl ha).gotoOther (hs.turn run .refl ha) (getHandler_mem handler) hfor
      (by decide) (by rw [pc]; rfl) nofun
  | readStop handler pc job run => exact ho.readStop hs (getHandler_mem handler) pc job run
  | failed handler pc job =>
    exact ho.gotoOther hs (getHandler_mem handler) job (by decide) (by rw [pc]; rfl) nofun
  | raise | raiseStarted => exact hok.elim
  | crash handler action =>
    rcases action with rfl | ⟨created, rfl, -⟩ <;> exact hok.elim
  | giveUp handler pc =>
    have hdrop := ho.raised (p := fun _ => false) (f := id) hs (getHandler_mem handler)
      (fun _ h => absurd h Bool.false_ne_true) (fun _ => rfl) pc
    rwa [setJobs_update_of_false fun _ _ => rfl] at hdrop
  | complete handler pc => exact ho.complete hs (getHandler_mem handler) pc
  | requeue handler pc =>
    refine ho.raised hs (getHandler_mem handler) (fun j hj => ?_) (fun _ => rfl) pc
    exact of_decide_eq_true hj
  | @die id catalog clk random h type r n d u retryable handler pc dead job run turn sound off =>
    have hbury : Orderly ((s.buried (clk 0) h.job).drop h) := by
      refine ho.raised hs (getHandler_mem handler) (fun j hj => ?_) (fun _ => rfl) pc
      exact of_decide_eq_true hj
    exact hbury.turn hs.bury.drop run turn sound
  | keepLease => exact ho.keepLease
  | tick tick turns =>
    rw [reapExpired_table, setJobs_update_of_false hok] at turns
    exact Orderly.turns turns hs ho
  | reap =>
    rw [reapExpired_table, setJobs_update_of_false hok]
    exact ho
  | removed => exact ⟨ho.owned, ho.single, ho.begun, ho.recorded, ho.ended, ho.cancelled⟩

end System

/-- In every run of the system in which no worker dies, no call raises and no lease runs out, the
containers of attempts that the platform ended are stopped when nothing is left to do. -/
theorem ended_containers_stopped (G : Guards) (settings : Settings) (actions : List Action)
    (h : (system G settings).Meets System.Calm actions System.init) :
    (system G settings).Along System.EndedStopped actions System.init := by
  have halong : (system G settings).Along (fun s => s.Sound ∧ s.Orderly) actions System.init := by
    refine Machine.along_of_meets (fun a s t hs hok hstep => ?_) actions ⟨.init, ?_⟩ h
    · have hdid := System.did_of_step hs.1 hstep
      exact ⟨hs.1.did hdid, System.orderly_did hs.1 hs.2 hok hdid⟩
    · constructor <;> simp [System.init, Db.empty]
  exact halong.mono fun s hs => hs.2.endedStopped hs.1

/-- The run is cancelled while its dispatch is between the two transactions: the cancel handler
reads no reference and finds one in its own transaction. -/
def cancelledWhileStarting : List Action :=
  [.client (fun _ => 0) createPlain, .claim "w" [] 0, go 0 0, go 0 0,
    .client (fun _ => 0) (.call 0 (.requestCancel "owner_cancel")), .claim "v" [] 0, go 1 0,
    go 0 0, go 1 0, go 0 0, go 1 0]

theorem ended_containers_stopped_cancelledWhileStarting :
    (system plainGuards plainSettings).Meets System.Calm cancelledWhileStarting System.init
    ∧ (system plainGuards plainSettings).Along System.EndedStopped cancelledWhileStarting
      System.init := by
  have h : (system plainGuards plainSettings).Meets System.Calm cancelledWhileStarting
      System.init := by decide
  exact ⟨h, ended_containers_stopped _ _ _ h⟩

end Crewquarters
