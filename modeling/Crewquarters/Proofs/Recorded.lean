import Crewquarters.Proofs.Steps

/-!
# Containers on record

`runtime_ref` is written in the second transaction of a dispatch, after the container was started
with no lock held. Once the attempt's dispatch job has ended, a container that was created for the
attempt is on record, in every run of the system in which no dispatch returns early and no dispatch
job dies while a container of the attempt is, or may still come to be, created and not recorded.
-/

namespace Crewquarters

open Table List Option

variable {r : RunId} {n : ℕ} {h : Handler} {d : RunData} {u : Session} {ref : RuntimeRef}
  {now : Time} {pc : Pc} {j : Job}

def Pc.starting : Pc → Bool
  | .startRun _ | .record _ => true
  | _ => false

def Pc.unrecorded : Pc → Bool
  | .start | .startRun _ | .record _ => true
  | _ => false

theorem ended_update {t : JobTable} {p : Job → Bool} {f : Job → Job}
    (hf : ∀ j, (f j).core = j.core) (hj : j ∈ (t.update p f).rows) (hl : j.live = false) :
    ∃ k ∈ t.rows, k.core = j.core ∧ (k.live = false ∨ (p k = true ∧ (f k).live = false)) := by
  obtain ⟨k, hk, rfl⟩ := JobTable.mem_update.1 hj
  refine ⟨k, hk, ?_, ?_⟩
  · split_ifs
    · exact (hf k).symm
    · rfl
  · split_ifs at hl with hp
    · exact .inr ⟨hp, hl⟩
    · exact .inl hl

theorem Turn.ended_row {s t : Session} (h : Turn s t) (hj : JobsSound s.jobs)
    (hmem : j ∈ t.jobs.rows) (hl : j.live = false) :
    (∃ k ∈ s.jobs.rows, k.core = j.core ∧ k.live = false)
    ∨ (s.run.state = .queued ∧ t.run.state = .cancelled
      ∧ t.run.currentAttempt = s.run.currentAttempt
      ∧ j.IsFor .runDispatch s.run.id s.run.currentAttempt) := by
  have hadded : ∀ {type : JobType} {n : ℕ} {due : Time},
      j ∈ (s.jobs.withJob type s.run.id n due).rows →
        ∃ k ∈ s.jobs.rows, k.core = j.core ∧ k.live = false := by
    intro type n due hj
    rcases mem_withJob hj with hj | ⟨-, rfl⟩
    · exact ⟨j, hj, rfl, hl⟩
    · cases hl
  cases h with
  | silent kept attempt ends jobs => exact .inl ⟨j, jobs ▸ hmem, rfl, hl⟩
  | unqueue kept attempt ends jobs source target =>
    obtain ⟨now, jobs⟩ := jobs
    rw [jobs] at hmem
    obtain ⟨k, hk, hcore, hkl | ⟨hp, -⟩⟩ :=
      ended_update (cancelByDedupe_core now) hmem hl
    · exact .inl ⟨k, hk, hcore, hkl⟩
    · refine .inr ⟨source, target, attempt, ?_⟩
      simp only [Bool.and_eq_true, decide_eq_true_eq] at hp
      obtain ⟨type, ht, r, n, hfor, hkey⟩ := hj.shape k hk
      have heq : runKey type r n = runKey .runDispatch s.run.id s.run.currentAttempt :=
        some.inj (hkey.symm.trans hp.1)
      obtain ⟨rfl, rfl, rfl⟩ := runKey_injective ht (by decide) heq
      exact hfor.of_core hcore.symm
  | cancel kept attempt ends jobs | retry kept attempt ends jobs =>
    obtain ⟨due, jobs⟩ := jobs
    exact .inl (hadded (jobs ▸ hmem))
  | fail kept attempt ends jobs =>
    obtain ⟨due, jobs⟩ := jobs
    rw [jobs] at hmem
    split_ifs at hmem
    · exact .inl (hadded hmem)
    · exact .inl ⟨j, hmem, rfl, hl⟩

def Job.dispatchRef (j : Job) : Option RuntimeRef :=
  match j.type, j.payload with
  | .runDispatch, ⟨some r, some n, _⟩ => some ⟨r, n⟩
  | _, _ => none

theorem Job.IsFor.dispatchRef (h : j.IsFor .runDispatch r n) : j.dispatchRef = some ⟨r, n⟩ := by
  unfold Job.dispatchRef
  rw [h.1, h.2]
  rfl

theorem Db.fact_iff {db : Db} {P : RunData → Prop} (hs : DbSound db) :
    db.Fact r P ↔ ∃ d ∈ db.runs, d.run.id = r ∧ P d := by
  constructor
  · rintro ⟨d, hd, hp⟩
    exact ⟨d, get_mem hd, getRun_id hd, hp⟩
  · rintro ⟨d, hd, rfl, hp⟩
    exact ⟨d, hs.getRun hd, hp⟩

namespace System

variable {settings : Settings} {s t : System} {a : Action}

def createdRefs (s : System) : List RuntimeRef :=
  s.calls.filterMap fun
    | .created ref => some ref
    | .stopped _ => none

theorem mem_createdRefs : ref ∈ s.createdRefs ↔ .created ref ∈ s.calls := by
  unfold createdRefs
  rw [mem_filterMap]
  constructor
  · rintro ⟨c, hc, h⟩
    split at h
    · exact some.inj h ▸ hc
    · cases h
  · exact fun h => ⟨_, h, rfl⟩

/-- Once a dispatch job has ended, the container created for its attempt is on record. -/
def ContainersRecorded (s : System) : Prop :=
  ∀ ref ∈ s.createdRefs, ∀ j ∈ s.db.jobs.rows, j.IsFor .runDispatch ref.runId ref.attempt →
    j.live = false → ∃ d ∈ s.db.runs, d.run.id = ref.runId ∧ d.refOf ref.attempt = some ref

instance : DecidablePred ContainersRecorded := fun s =>
  inferInstanceAs (Decidable (∀ ref ∈ s.createdRefs, _))

/-- The attempt has a reference, or no container was created and none of its handlers, as far as
`before` goes, is on the way to one. -/
def Settled (before : Pc → Bool) (ref : RuntimeRef) (s : System) : Prop :=
  (∃ d ∈ s.db.runs, d.run.id = ref.runId ∧ (d.refOf ref.attempt).isSome)
    ∨ (ref ∉ s.createdRefs ∧ ∀ h ∈ s.handlers,
      h.job.IsFor .runDispatch ref.runId ref.attempt → before h.pc = false)

instance (before : Pc → Bool) (ref : RuntimeRef) (s : System) :
    Decidable (Settled before ref s) :=
  inferInstanceAs (Decidable ((∃ d ∈ s.db.runs, _) ∨ _))

def ReapsSettled (now : Time) (s : System) : Prop :=
  ∀ j ∈ s.db.jobs.rows, j.spent now = true → ∀ ref ∈ j.dispatchRef, s.Settled Pc.unrecorded ref

instance (now : Time) (s : System) : Decidable (ReapsSettled now s) :=
  inferInstanceAs (Decidable (∀ j ∈ s.db.jobs.rows, _))

/-- A dispatch handler returns early, and a dispatch job dies, only where the attempt is settled. -/
def EndsSettled (settings : Settings) : Action → System → Prop
  | .advance id catalog clk random, s => ∀ h ∈ s.getHandler id, ∀ ref ∈ h.job.dispatchRef,
    (h.pc = .start → s.mints settings catalog clk h = none → s.Settled Pc.starting ref)
    ∧ ∀ retryable, h.pc = .raised retryable →
      (s.db.jobs.fail h.job.id h.worker retryable random (clk 0)).1 = some .dead →
      s.Settled Pc.unrecorded ref
  | .tick clk _, s => s.ReapsSettled clk.reap
  | .gatewayReap now, s => s.ReapsSettled now
  | _, _ => True

instance (settings : Settings) : ∀ a s, Decidable (EndsSettled settings a s)
  | .advance _ _ _ _, _ => inferInstanceAs (Decidable (∀ h ∈ _, _))
  | .tick _ _, _ => inferInstanceAs (Decidable (ReapsSettled _ _))
  | .gatewayReap _, _ => inferInstanceAs (Decidable (ReapsSettled _ _))
  | .client _ _, _ | .claim _ _ _, _ | .raise _ _, _ | .crash _, _ | .keepLease _ _, _
  | .removed _, _ => isTrue trivial

def Over (r : RunId) (n : ℕ) (s : System) : Prop :=
  s.db.Fact r (fun d => (d.refOf n).isSome)
    ∨ (.created ⟨r, n⟩ ∉ s.calls ∧ ∀ h ∈ s.handlers, h.job.IsFor .runDispatch r n →
      h.pc.starting = false ∧ (h.pc = .start → s.db.Fact r (Reached n 2)))

def OverForGood (r : RunId) (n : ℕ) (s : System) : Prop :=
  s.db.Fact r (fun d => (d.refOf n).isSome)
    ∨ (.created ⟨r, n⟩ ∉ s.calls ∧ s.db.Fact r (Reached n 2)
      ∧ ∀ h ∈ s.handlers, h.job.IsFor .runDispatch r n → h.pc.starting = false)

/-- Attempts whose dispatch job has ended, or whose dispatch has returned, are over. -/
structure EndsOver (s : System) : Prop where
  ended : ∀ j ∈ s.db.jobs.rows, ∀ {r n}, j.IsFor .runDispatch r n → j.live = false → s.Over r n
  returned : ∀ h ∈ s.handlers, ∀ {r n}, h.job.IsFor .runDispatch r n →
    (h.pc = .returned ∨ ∃ ref, h.pc = .stopNow ref) → s.OverForGood r n

theorem OverForGood.over (h : s.OverForGood r n) : s.Over r n :=
  h.imp_right fun ⟨hc, hr, hh⟩ => ⟨hc, fun k hk hfor => ⟨hh k hk hfor, fun _ => hr⟩⟩

theorem EndsOver.containersRecorded (h : EndsOver s) (hs : Sound s) : s.ContainersRecorded := by
  intro ref href j hj hfor hl
  rw [mem_createdRefs] at href
  rcases h.ended j hj hfor hl with hrec | ⟨hnot, -⟩
  · obtain ⟨d, hd, hsome⟩ := hrec
    obtain ⟨x, hx⟩ := isSome_iff_exists.1 hsome
    refine ⟨d, get_mem hd, Db.getRun_id hd, ?_⟩
    rw [hx, (hs.db.run hd).refs _ _ hx, Db.getRun_id hd]
  · exact absurd href hnot

/-- A step after which every handler is one that was there, or is past its transactions, and that
creates nothing. -/
structure Quiet (s t : System) : Prop where
  onward : s.db.Onward t.db
  created : ∀ ref, .created ref ∈ t.calls → .created ref ∈ s.calls
  handlers : ∀ h ∈ t.handlers, h ∈ s.handlers ∨ h.pc.unrecorded = false

theorem starting_of_unrecorded (h : pc.unrecorded = false) : pc.starting = false ∧ pc ≠ .start := by
  cases pc <;> simp_all [Pc.unrecorded, Pc.starting]

theorem fact_ref_onward {db db' : Db} (ho : db.Onward db')
    (h : db.Fact r fun d => (d.refOf n).isSome) : db'.Fact r fun d => (d.refOf n).isSome :=
  h.evolves ho.evolves fun hl hp => by
    obtain ⟨x, hx⟩ := isSome_iff_exists.1 hp
    rw [hl.refs n x hx]
    rfl

theorem Over.quiet (h : s.Over r n) (hq : Quiet s t) : t.Over r n := by
  rcases h with h | ⟨hc, hh⟩
  · exact .inl (fact_ref_onward hq.onward h)
  · refine .inr ⟨fun hn => hc (hq.created _ hn), fun k hk hfor => ?_⟩
    rcases hq.handlers k hk with hk | hpc
    · obtain ⟨hs, hstart⟩ := hh k hk hfor
      exact ⟨hs, fun hpc => (hstart hpc).evolves hq.onward.evolves fun hl => hl.reached⟩
    · obtain ⟨hs, hstart⟩ := starting_of_unrecorded hpc
      exact ⟨hs, fun hpc => absurd hpc hstart⟩

theorem OverForGood.quiet (h : s.OverForGood r n) (hq : Quiet s t) : t.OverForGood r n := by
  rcases h with h | ⟨hc, hr, hh⟩
  · exact .inl (fact_ref_onward hq.onward h)
  · refine .inr ⟨fun hn => hc (hq.created _ hn),
      hr.evolves hq.onward.evolves fun hl => hl.reached, fun k hk hfor => ?_⟩
    rcases hq.handlers k hk with hk | hpc
    · exact hh k hk hfor
    · exact (starting_of_unrecorded hpc).1

theorem EndsOver.quiet (h : EndsOver s) (hq : Quiet s t)
    (hrows : ∀ j ∈ t.db.jobs.rows, ∀ {r n}, j.IsFor .runDispatch r n → j.live = false →
      (∃ k ∈ s.db.jobs.rows, k.core = j.core ∧ k.live = false) ∨ t.Over r n)
    (hnew : ∀ k ∈ t.handlers, k ∉ s.handlers → ∀ {r n}, k.job.IsFor .runDispatch r n →
      (k.pc = .returned ∨ ∃ ref, k.pc = .stopNow ref) → t.OverForGood r n) : EndsOver t where
  ended j hj r n hfor hl := by
    rcases hrows j hj hfor hl with ⟨k, hk, hcore, hkl⟩ | hover
    · exact (h.ended k hk (hfor.of_core hcore) hkl).quiet hq
    · exact hover
  returned k hk r n hfor hpc := by
    by_cases hold : k ∈ s.handlers
    · exact (h.returned k hold hfor hpc).quiet hq
    · exact hnew k hk hold hfor hpc

namespace EndsOver

theorem store (h : EndsOver s) (hs : Sound s) (hd : s.db.getRun r = some d)
    (hm : Moves (s.db.session d) u) (ha : AttemptsSound u.toRunData) (hjobs : u.jobs = s.db.jobs) :
    EndsOver (s.withDb (s.db.store u)) := by
  have hq : Quiet s (s.withDb (s.db.store u)) :=
    ⟨(hs.db.moves hd hm ha).2, fun _ => id, fun _ => .inl⟩
  refine h.quiet hq (fun j hj r n _ hl => .inl ⟨j, ?_, rfl, hl⟩) fun k hk hn => absurd hk hn
  exact hjobs ▸ hj

theorem not_starting (hs : Sound s) (hh : h ∈ s.handlers) (hfor : h.job.IsFor .runDispatch r n)
    (hn : ¬ s.db.Fact r (Reached n 1)) : h.pc.starting = false := by
  have hsound := hs.handlers h hh
  generalize h.pc = pc at hsound ⊢
  cases pc with
  | startRun =>
    obtain ⟨-, rfl, rfl⟩ := hfor.unique hsound.1
    exact absurd (hsound.2.run.mono fun _ => And.left) hn
  | record =>
    obtain ⟨-, rfl, rfl⟩ := hfor.unique hsound.1.1
    exact absurd (hsound.1.2.run.mono fun _ => And.left) hn
  | _ => rfl

theorem turn (h : EndsOver s) (hs : Sound s) (hd : s.db.getRun r = some d)
    (ht : Turn (s.db.session d) u) (ha : AttemptsSound u.toRunData) :
    EndsOver (s.withDb (s.db.store u)) := by
  have hq : Quiet s (s.withDb (s.db.store u)) :=
    ⟨(hs.db.moves hd ht.moves ha).2, fun _ => id, fun _ => .inl⟩
  refine h.quiet hq (fun j hj r' n hfor hl => ?_) fun k hk hn => absurd hk hn
  rcases ht.ended_row hs.db.jobs hj hl with hold | ⟨hqueued, hcancelled, hcur, hfor'⟩
  · exact .inl hold
  · -- the run was queued, so nothing of this attempt has begun
    obtain ⟨-, rfl, rfl⟩ := hfor.unique hfor'
    have hd' : s.db.getRun d.run.id = some d := by
      rw [Db.getRun_id hd]
      exact hd
    have hn : ¬ s.db.Fact d.run.id (Reached d.run.currentAttempt 1) := by
      intro hf
      have hp := (hf.get hd').phase_le
      rw [show d.run.state = .queued from hqueued] at hp
      exact absurd hp (by decide)
    refine .inr (.inr ⟨fun hc => hn (hs.created _ hc), fun k hk hkfor =>
      ⟨not_starting hs hk hkfor hn, fun _ => ?_⟩⟩)
    refine fact_store hd' ht.kept.id (.inr ⟨hcur.symm, ?_⟩)
    rw [hcancelled]
    decide

theorem turns {db db' : Db} (h : Db.Turns db db') (hs : Sound (s.withDb db)) :
    EndsOver (s.withDb db) → EndsOver (s.withDb db') := by
  intro he
  induction h with
  | refl => exact he
  | turn run turn sound _ ih => exact ih (hs.turn run turn sound) (he.turn hs run turn sound)

theorem goto (he : EndsOver s) (hpc : pc.unrecorded = false)
    (hnew : ∀ {r n}, h.job.IsFor .runDispatch r n → (pc = .returned ∨ ∃ ref, pc = .stopNow ref) →
      s.OverForGood r n) : EndsOver (s.goto h pc) := by
  have hq : Quiet s (s.goto h pc) := by
    refine ⟨.refl, fun _ => id, fun k hk => ?_⟩
    rcases mem_put hk with rfl | ⟨hk, -⟩
    · exact .inr hpc
    · exact .inl hk
  refine he.quiet hq (fun j hj r n _ hl => .inl ⟨j, hj, rfl, hl⟩) fun k hk hn r n hfor hkpc => ?_
  rcases mem_put hk with rfl | ⟨hk, -⟩
  · exact (hnew hfor hkpc).quiet hq
  · exact absurd hk hn

theorem drop (he : EndsOver s) : EndsOver (s.drop h) := by
  have hq : Quiet s (s.drop h) :=
    ⟨.refl, fun _ => id, fun k hk => .inl (mem_of_mem_filter hk)⟩
  exact he.quiet hq (fun j hj r n _ hl => .inl ⟨j, hj, rfl, hl⟩)
    fun k hk hn => absurd (mem_of_mem_filter hk) hn

theorem update {p : Job → Bool} {f : Job → Job} (he : EndsOver s) (hf : ∀ j, (f j).core = j.core)
    (hp : ∀ j ∈ s.db.jobs.rows, ∀ {r n}, j.IsFor .runDispatch r n → p j = true →
      (f j).live = false → s.Over r n) : EndsOver (s.setJobs (s.db.jobs.update p f)) := by
  have hq : Quiet s (s.setJobs (s.db.jobs.update p f)) :=
    ⟨Db.onward_update hf, fun _ => id, fun _ => .inl⟩
  refine he.quiet hq (fun j hj r n hfor hl => ?_) fun k hk hn => absurd hk hn
  obtain ⟨k, hk, hcore, hkl | ⟨hpk, hfk⟩⟩ := ended_update hf hj hl
  · exact .inl ⟨k, hk, hcore, hkl⟩
  · exact .inr ((hp k hk (hfor.of_core hcore) hpk hfk).quiet hq)

/-- A step of a dispatch handler on its way to a container, whose attempt is not over unless it
has a reference. -/
theorem active (he : EndsOver s) (hfor : h.job.IsFor .runDispatch r n)
    (hown : s.Over r n → s.db.Fact r fun d => (d.refOf n).isSome) (ho : s.db.Onward t.db)
    (hjobs : t.db.jobs = s.db.jobs)
    (hcreated : ∀ ref, .created ref ∈ t.calls → .created ref ∈ s.calls ∨ ref = ⟨r, n⟩)
    (hhandlers : ∀ k ∈ t.handlers, k ∈ s.handlers
      ∨ (k.job = h.job ∧ k.pc ≠ .returned ∧ ∀ ref, k.pc ≠ .stopNow ref)) : EndsOver t where
  ended j hj r' n' hjfor hl := by
    have hover := he.ended j (hjobs ▸ hj) hjfor hl
    by_cases heq : r' = r ∧ n' = n
    · obtain ⟨rfl, rfl⟩ := heq
      exact .inl (fact_ref_onward ho (hown hover))
    · rcases hover with href | ⟨hc, hh⟩
      · exact .inl (fact_ref_onward ho href)
      · refine .inr ⟨fun hn => ?_, fun k hk hkfor => ?_⟩
        · rcases hcreated _ hn with hn | hn
          · exact hc hn
          · exact heq ⟨congrArg RuntimeRef.runId hn, congrArg RuntimeRef.attempt hn⟩
        · rcases hhandlers k hk with hk | ⟨hjob, -⟩
          · obtain ⟨hs, hstart⟩ := hh k hk hkfor
            exact ⟨hs, fun hpc => (hstart hpc).evolves ho.evolves fun hl => hl.reached⟩
          · rw [hjob] at hkfor
            exact absurd (hkfor.unique hfor).2 heq
  returned k hk r' n' hkfor hpc := by
    have hold : k ∈ s.handlers := by
      rcases hhandlers k hk with hk | ⟨-, hret, hstop⟩
      · exact hk
      · rcases hpc with hpc | ⟨ref, hpc⟩
        · exact absurd hpc hret
        · exact absurd hpc (hstop ref)
    have hover := he.returned k hold hkfor hpc
    by_cases heq : r' = r ∧ n' = n
    · obtain ⟨rfl, rfl⟩ := heq
      exact .inl (fact_ref_onward ho (hown hover.over))
    · rcases hover with href | ⟨hc, hr, hh⟩
      · exact .inl (fact_ref_onward ho href)
      · refine .inr ⟨fun hn => ?_, hr.evolves ho.evolves fun hl => hl.reached,
          fun k' hk' hkfor' => ?_⟩
        · rcases hcreated _ hn with hn | hn
          · exact hc hn
          · exact heq ⟨congrArg RuntimeRef.runId hn, congrArg RuntimeRef.attempt hn⟩
        · rcases hhandlers k' hk' with hk' | ⟨hjob, -⟩
          · exact hh k' hk' hkfor'
          · rw [hjob] at hkfor'
            exact absurd (hkfor'.unique hfor).2 heq

theorem mint {spec : RunSpec} (he : EndsOver s) (hs : Sound s) (hh : h ∈ s.handlers)
    (hpc : h.pc = .start) (hfor : h.job.IsFor .runDispatch spec.runId spec.attempt)
    (hd : s.db.getRun spec.runId = some d) (hm : Mint (s.db.session d) u spec)
    (ha : AttemptsSound u.toRunData) :
    EndsOver ((s.withDb (s.db.store u)).goto h (.startRun spec)) := by
  refine he.active hfor (fun hover => ?_) (hs.db.moves hd hm.moves ha).2 hm.jobs
    (fun ref href => .inl href) fun k hk => ?_
  · rcases hover with href | ⟨-, hhandlers⟩
    · exact href
    · -- its transaction found the run `QUEUED` or `PREPARING`
      have hreached := ((hhandlers h hh hfor).2 hpc).get hd
      rw [show spec.attempt = d.run.currentAttempt from hm.attempt] at hreached
      have hp := hreached.phase_le
      rcases hm.source with hsrc | hsrc <;>
        rw [show d.run.state = _ from hsrc] at hp <;> exact absurd hp (by decide)
  · rcases mem_put hk with rfl | ⟨hk, -⟩
    · exact .inr ⟨rfl, by simp, by simp⟩
    · exact .inl hk

theorem start {spec : RunSpec} (he : EndsOver s) (hs : Sound s) (hh : h ∈ s.handlers)
    (hpc : h.pc = .startRun spec) (hnext : pc = .record spec ∨ pc = .raised true) :
    EndsOver ((s.startContainer spec).goto h pc) := by
  have hsound := hs.handlers h hh
  rw [hpc] at hsound
  obtain ⟨hdb, hhandlers⟩ := startContainer_frame spec s
  refine he.active hsound.1 (fun hover => ?_) (hdb ▸ .refl) (by rw [← hdb]; rfl)
    (fun ref href => ?_) fun k hk => ?_
  · rcases hover with href | ⟨-, hnone⟩
    · exact href
    · have := (hnone h hh hsound.1).1
      rw [hpc] at this
      cases this
  · have href' : .created ref ∈ (s.startContainer spec).calls := href
    unfold startContainer at href'
    split_ifs at href'
    · exact .inl href'
    · rcases mem_append.1 href' with href' | href'
      · exact .inl href'
      · exact .inr (by simpa [RunSpec.ref] using href')
  · rcases mem_put hk with rfl | ⟨hk, -⟩
    · exact .inr ⟨rfl, by rcases hnext with rfl | rfl <;> simp⟩
    · exact .inl (hhandlers ▸ hk)

theorem claim {worker : WorkerId} {seconds : ℚ} (he : EndsOver s) (hs : Sound s)
    (hj : j ∈ s.db.jobs.rows) (hav : j.state = .available) :
    EndsOver (s.claimed worker seconds now j) := by
  have hcore : ∀ k, (JobTable.lease worker seconds now k).core = k.core := fun _ => rfl
  have ho : s.db.Onward (s.claimed worker seconds now j).db := Db.onward_update hcore
  refine ⟨fun k hk r n hfor hl => ?_, fun k hk r n hfor hpc => ?_⟩
  · obtain ⟨k', hk', hc', hkl | ⟨-, hkl⟩⟩ := ended_update hcore hk hl
    · rcases he.ended k' hk' (hfor.of_core hc') hkl with href | ⟨hc, hh⟩
      · exact .inl (fact_ref_onward ho href)
      · refine .inr ⟨hc, fun h hmem hhfor => ?_⟩
        rcases mem_append.1 hmem with hmem | hmem
        · obtain ⟨hst, hstart⟩ := hh h hmem hhfor
          exact ⟨hst, fun hpc => (hstart hpc).evolves ho.evolves fun hl => hl.reached⟩
        · -- the job claimed is live, and it would be the only dispatch job of the attempt
          obtain rfl := mem_singleton.1 hmem
          have hid := hs.db.dispatch j hj k' hk' (hhfor.of_core rfl) (hfor.of_core hc')
          obtain rfl := hs.db.jobs.eq_of_id hj hk' hid
          simp [Job.live, hav] at hkl
    · cases hkl
  · have hold : k ∈ s.handlers := by
      rcases mem_append.1 hk with hk | hk
      · exact hk
      · obtain rfl := mem_singleton.1 hk
        rcases hpc with hpc | ⟨ref, hpc⟩ <;> cases hpc
    rcases he.returned k hold hfor hpc with href | ⟨hc, hr, hh⟩
    · exact .inl (fact_ref_onward ho href)
    · refine .inr ⟨hc, hr.evolves ho.evolves fun hl => hl.reached, fun h hmem hhfor => ?_⟩
      rcases mem_append.1 hmem with hmem | hmem
      · exact hh h hmem hhfor
      · obtain rfl := mem_singleton.1 hmem
        rfl

end EndsOver

theorem Settled.over (h : s.Settled Pc.unrecorded ref) (hs : Sound s) :
    s.Over ref.runId ref.attempt := by
  rcases h with h | ⟨hc, hh⟩
  · exact .inl ((Db.fact_iff hs.db).2 h)
  · refine .inr ⟨fun hn => hc (mem_createdRefs.2 hn), fun k hk hfor => ?_⟩
    obtain ⟨hst, hstart⟩ := starting_of_unrecorded (hh k hk hfor)
    exact ⟨hst, fun hpc => absurd hpc hstart⟩

namespace EndsOver

theorem reap (he : EndsOver s) (hs : Sound s) (hok : s.ReapsSettled now) :
    EndsOver (s.setJobs (s.db.jobs.reapExpired now).2.2) := by
  rw [reapExpired_table]
  refine he.update (reaped_core now) fun j hj r n hfor _ hl => ?_
  by_cases hspent : j.spent now = true
  · exact (hok j hj hspent _ hfor.dispatchRef).over hs
  · simp [JobTable.reaped, hspent, JobTable.requeue, Job.live] at hl

theorem pass (he : EndsOver s) (hs : Sound s) (hfor : h.job.IsFor .runDispatch r n)
    (hd : s.db.getRun r = some d) (ht : Turn (s.db.session d) u) (ha : AttemptsSound u.toRunData)
    (hpassed : Passed n u.toRunData) (hok : s.Settled Pc.starting ⟨r, n⟩) :
    EndsOver ((s.withDb (s.db.store u)).goto h .returned) := by
  refine (he.turn hs hd ht ha).goto rfl fun {r' n'} hfor' _ => ?_
  obtain ⟨-, rfl, rfl⟩ := hfor.unique hfor'
  rcases hok with hrec | ⟨hc, hh⟩
  · exact .inl (fact_ref_onward (hs.db.moves hd ht.moves ha).2 ((Db.fact_iff hs.db).2 hrec))
  · rcases hpassed with hp | ⟨-, href⟩
    · exact .inr ⟨fun hn => hc (mem_createdRefs.2 hn), fact_store hd ht.kept.id hp,
        fun k hk hkfor => hh k hk hkfor⟩
    · exact .inl (fact_store hd ht.kept.id href)

theorem die (he : EndsOver s) (hs : Sound s) (hh : h ∈ s.handlers) (hd : s.db.getRun r = some d)
    (ht : Turn ((s.buried now h.job).db.session d) u) (ha : AttemptsSound u.toRunData)
    (hok : ∀ ref ∈ h.job.dispatchRef, s.Settled Pc.unrecorded ref) :
    EndsOver ((s.buried now h.job).withDb ((s.buried now h.job).db.store u)) := by
  have hburied : EndsOver (s.buried now h.job) := by
    refine he.update (fun _ => rfl) fun j hj r' n' hfor hid _ => ?_
    obtain ⟨k, hk, hcore⟩ := hs.jobs h hh
    have hkid : k.id = h.job.id := congrArg Prod.fst hcore
    obtain rfl := hs.db.jobs.eq_of_id hj hk ((of_decide_eq_true hid).trans hkid.symm)
    have hdispatch := (hfor.of_core hcore.symm).dispatchRef
    exact (hok _ hdispatch).over hs
  exact hburied.turn hs.bury hd ht ha

end EndsOver

namespace EndsOver

theorem create {due : Time} (he : EndsOver s) (hs : Sound s) (hd : NewRun d)
    (hid : d.run.id = s.db.nextUuid) : EndsOver (s.withDb (s.db.withNew d due)) := by
  have hq : Quiet s (s.withDb (s.db.withNew d due)) :=
    ⟨(hs.db.create hd hid).2, fun _ => id, fun _ => .inl⟩
  refine he.quiet hq (fun j hj r n _ hl => ?_) fun k hk hn => absurd hk hn
  rcases mem_withJob hj with hj | ⟨-, rfl⟩
  · exact .inl ⟨j, hj, rfl, hl⟩
  · cases hl

theorem runtime (he : EndsOver s) (hdb : t.db = s.db) (hhandlers : t.handlers = s.handlers)
    (hcalls : ∀ ref, .created ref ∈ t.calls → .created ref ∈ s.calls) :
    Quiet s t ∧ EndsOver t := by
  have hq : Quiet s t := ⟨hdb ▸ .refl, hcalls, fun k hk => .inl (hhandlers ▸ hk)⟩
  exact ⟨hq, he.quiet hq (fun j hj r n _ hl => .inl ⟨j, hdb ▸ hj, rfl, hl⟩)
    fun k hk hn => absurd (hhandlers ▸ hk) hn⟩

theorem stop (he : EndsOver s) (hs : Sound s) (hh : h ∈ s.handlers) (hstops : StopsAt ref h.pc pc) :
    EndsOver ((s.stopContainer ref).goto h pc) := by
  obtain ⟨hq, hstopped⟩ := he.runtime (t := s.stopContainer ref) rfl rfl fun x hx => by
    simpa [stopContainer] using hx
  have hsound := hs.handlers h hh
  have hreturned := fun {r n} (hfor : h.job.IsFor .runDispatch r n) => he.returned h hh hfor
  generalize h.pc = pc₀ at hstops hsound hreturned
  cases hstops with
  | now => exact hstopped.goto rfl fun hfor _ => (hreturned hfor (.inr ⟨ref, rfl⟩)).quiet hq
  | cancel =>
    refine hstopped.goto rfl fun hfor hpc => ?_
    rcases hpc with hpc | ⟨x, hpc⟩ <;> cases hpc
  | stop =>
    refine hstopped.goto rfl fun hfor _ => ?_
    cases (hfor.unique hsound).1

theorem gotoOther {type : JobType} (he : EndsOver s) (hpc : pc.unrecorded = false)
    (hfor : h.job.IsFor type r n) (htype : type ≠ .runDispatch) : EndsOver (s.goto h pc) :=
  he.goto hpc fun hfor' _ => absurd (hfor.unique hfor').1 htype

theorem gotoRaised {retryable : Bool} (he : EndsOver s) :
    EndsOver (s.goto h (.raised retryable)) := by
  refine he.goto rfl fun _ hpc => ?_
  rcases hpc with hpc | ⟨x, hpc⟩ <;> cases hpc

theorem cancel {read late : Option RuntimeRef} (he : EndsOver s) (hs : Sound s)
    (hh : h ∈ s.handlers) (hpc : h.pc = .cancelFinish r read) (hd : s.db.getRun r = some d)
    (hc : Cancelled (s.db.session d) u read late) (ha : AttemptsSound u.toRunData) :
    EndsOver (((s.withDb (s.db.store u)).stopLate late).goto h .returned) := by
  have hsound := hs.handlers h hh
  rw [hpc] at hsound
  obtain ⟨m, hcancel⟩ := hsound.1
  have hstore : EndsOver (s.withDb (s.db.store u)) := he.store hs hd hc.moves ha hc.jobs
  obtain ⟨hdb, hhandlers⟩ := stopLate_frame late (s.withDb (s.db.store u))
  refine (hstore.runtime hdb hhandlers fun x hx => ?_).2.gotoOther rfl hcancel (by decide)
  rcases late with _ | late
  · exact hx
  · simpa [stopLate, stopContainer] using hx

theorem complete (he : EndsOver s) (hs : Sound s) (hh : h ∈ s.handlers) (hpc : h.pc = .returned) :
    EndsOver ((s.setJobs (s.db.jobs.update (JobTable.owned h.job.id h.worker)
      (JobTable.endAs .succeeded now))).drop h) := by
  refine EndsOver.drop (he.update (fun _ => rfl) fun j hj r n hfor hp _ => ?_)
  simp only [JobTable.owned, Bool.and_eq_true, decide_eq_true_eq] at hp
  obtain ⟨k, hk, hcore⟩ := hs.jobs h hh
  have hkid : k.id = h.job.id := congrArg Prod.fst hcore
  obtain rfl := hs.db.jobs.eq_of_id hj hk (hp.1.1.trans hkid.symm)
  exact (he.returned h hh (hfor.of_core hcore.symm) (.inl hpc)).over

end EndsOver

theorem endsOver_did (hs : Sound s) (he : EndsOver s) (hok : EndsSettled settings a s)
    (hdid : Did settings s a t) : EndsOver t := by
  cases hdid with
  | refused => exact he
  | call run turn sound => exact he.turn hs run turn sound
  | create new fresh => exact he.create hs new fresh
  | claim job available => exact he.claim hs job available
  | @pass id catalog clk random h r n d u handler pc job run turn sound passed mintless =>
    exact he.pass hs job run turn sound passed
      ((hok h handler _ job.dispatchRef).1 pc mintless)
  | mint handler pc job run mint sound =>
    exact he.mint hs (getHandler_mem handler) pc job run mint sound
  | start handler pc => exact he.start hs (getHandler_mem handler) pc (.inl rfl)
  | @record id catalog clk random h d u spec stop handler pc run record sound =>
    have hsound := hs.handlers h (getHandler_mem handler)
    rw [pc] at hsound
    have hmoves := record.moves (show spec.ref = ⟨d.run.id, spec.attempt⟩ by
      rw [Db.getRun_id run]; rfl)
    refine (he.store hs run hmoves sound record.jobs).goto (by split_ifs <;> rfl) fun hfor _ => ?_
    obtain ⟨-, rfl, rfl⟩ := hsound.1.1.unique hfor
    exact .inl (fact_store run hmoves.later.id record.ref_isSome)
  | stop handler stops => exact he.stop hs (getHandler_mem handler) stops
  | readCancel handler pc job =>
    refine he.gotoOther ?_ job (by decide)
    unfold afterCancelRead
    split <;> rfl
  | cancel handler pc run cancelled sound =>
    exact he.cancel hs (getHandler_mem handler) pc run cancelled sound
  | @cancelOver id catalog clk random h r read d handler pc run ended =>
    have hsound := hs.handlers h (getHandler_mem handler)
    rw [pc] at hsound
    obtain ⟨m, hcancel⟩ := hsound.1
    exact (he.turn hs run .refl (hs.db.run run).attempts).gotoOther rfl hcancel (by decide)
  | readStop handler pc job =>
    refine he.gotoOther ?_ job (by decide)
    unfold afterStopRead
    split <;> rfl
  | failed | raise => exact he.gotoRaised
  | raiseStarted handler pc => exact he.start hs (getHandler_mem handler) pc (.inr rfl)
  | crash | giveUp => exact he.drop
  | complete handler pc => exact he.complete hs (getHandler_mem handler) pc
  | requeue =>
    refine EndsOver.drop (he.update (fun _ => rfl) fun _ _ _ _ _ _ hl => ?_)
    cases hl
  | @die id catalog clk random h type r n d u retryable handler pc dead job run turn sound off =>
    exact (he.die hs (getHandler_mem handler) run turn sound
      fun ref href => (hok h handler ref href).2 retryable pc dead).drop
  | keepLease =>
    exact he.update (fun _ => rfl) fun j hj _ _ hfor _ hl => he.ended j hj hfor hl
  | tick tick turns => exact EndsOver.turns turns hs.reap (he.reap hs hok)
  | reap => exact he.reap hs hok
  | removed => exact (he.runtime (t := s.removeContainer _) rfl rfl fun _ => id).2

end System

/-- In every run of the system whose early returns and dead dispatch jobs are all of settled
attempts, the containers of ended dispatch jobs are on record. -/
theorem containers_recorded (G : Guards) (settings : Settings) (actions : List Action)
    (h : (system G settings).Meets (System.EndsSettled settings) actions System.init) :
    (system G settings).Along System.ContainersRecorded actions System.init := by
  have halong : (system G settings).Along (fun s => s.Sound ∧ s.EndsOver) actions System.init := by
    refine Machine.along_of_meets (fun a s t hs hok hstep => ?_) actions ⟨.init, ?_⟩ h
    · have hdid := System.did_of_step hs.1 hstep
      exact ⟨hs.1.did hdid, System.endsOver_did hs.1 hs.2 hok hdid⟩
    · constructor <;> simp [System.init, Db.empty]
  exact halong.mono fun s hs => hs.2.containersRecorded hs.1

/-- A worker dies after its first transaction; the job is dispatched again and done. -/
def dispatchedAgain : List Action :=
  [.client (fun _ => 0) createPlain, .claim "w" [] 0, go 0 0, .crash 0, .gatewayReap 50,
    .claim "v" [] 50, go 1 50, go 1 50, go 1 50, go 1 50]

theorem containers_recorded_dispatchedAgain :
    (system plainGuards plainSettings).Meets (System.EndsSettled plainSettings) dispatchedAgain
      System.init
    ∧ (system plainGuards plainSettings).Along System.ContainersRecorded dispatchedAgain
      System.init := by
  have h : (system plainGuards plainSettings).Meets (System.EndsSettled plainSettings)
      dispatchedAgain System.init := by decide +kernel
  exact ⟨h, containers_recorded _ _ _ h⟩

/-- A worker dies between starting the container and recording it. The agent says hello, so the
second dispatch finds the run past preparation and returns. -/
def greetedUnrecorded : List Action :=
  [.client (fun _ => 0) createPlain, .claim "w" [] 0, go 0 0, go 0 0,
    .client (fun _ => 0) (.call 0 (.handshake 1 60)), .crash 0, .gatewayReap 50, .claim "v" [] 50,
    go 1 50, go 1 50]

theorem unrecorded_container :
    ¬ (system plainGuards plainSettings).Along System.ContainersRecorded greetedUnrecorded
      System.init := by
  decide +kernel

end Crewquarters
