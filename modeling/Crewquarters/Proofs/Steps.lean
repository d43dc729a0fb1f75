import Crewquarters.Proofs.Sound

/-!
# The steps of the system

`Did` lists what an action can do, in terms of the transactions' effects on runs and jobs;
`did_of_step` is the one place where the system's step function is taken apart. Every step keeps
`System.Sound`, so it holds in every state of every run of the system.
-/

namespace Crewquarters

open Option Db Except

variable {d : RunData} {u : Session} {spec : RunSpec} {r : RunId}

/-- Turns of runs, one after the other. -/
inductive Db.Turns : Db → Db → Prop where
  | refl {db} : Turns db db
  | turn {db db' r d u} (run : db.getRun r = some d) (turn : Turn (db.session d) u)
      (sound : AttemptsSound u.toRunData) (rest : Turns (db.store u) db') : Turns db db'

namespace System

variable {s t : System}

def claimed (worker : WorkerId) (seconds : ℚ) (now : Time) (j : Job) (s : System) : System :=
  { s.setJobs (s.db.jobs.update (fun k => k.id = j.id) (JobTable.lease worker seconds now)) with
    handlers := s.handlers
      ++ [⟨s.nextHandler, worker, JobTable.lease worker seconds now j, .start⟩]
    nextHandler := s.nextHandler + 1 }

def buried (now : Time) (job : Job) (s : System) : System :=
  s.setJobs (s.db.jobs.update (fun k => k.id = job.id) (JobTable.endAs .dead now))

def afterCancelRead (r : RunId) (d : RunData) : Pc :=
  match cancelRead d with
  | none => .returned
  | some none => .cancelFinish r none
  | some (some ref) => .cancelStop r ref

def afterStopRead (n : ℕ) (d : RunData) : Pc :=
  match d.refOf n with
  | none => .returned
  | some ref => .stopRun ref

/-- The steps that call `stop_run`. -/
inductive StopsAt (ref : RuntimeRef) : Pc → Pc → Prop where
  | now : StopsAt ref (.stopNow ref) .returned
  | cancel (r : RunId) : StopsAt ref (.cancelStop r ref) (.cancelFinish r (some ref))
  | stop : StopsAt ref (.stopRun ref) .returned

def stopLate (late : Option RuntimeRef) (s : System) : System :=
  match late with
  | none => s
  | some ref => s.stopContainer ref

/-- The container a dispatch handler's first transaction asks for, if it is next and mints. -/
def mints (settings : Settings) (catalog : Catalog) (clk : Clock) (h : Handler) (s : System) :
    Option RunSpec :=
  match h.pc, h.job.type, h.job.payload with
  | .start, .runDispatch, ⟨some r, some n, _⟩ =>
    match s.db.withRun r (dispatchPrepare settings catalog clk n) with
    | .ok (spec, _) => spec
    | .error _ => none
  | _, _, _ => none

/-- Every way a step of the system can go. -/
inductive Did (settings : Settings) (s : System) : Action → System → Prop where
  | refused {a} (action : (∃ clk op, a = .client clk op) ∨ ∃ clk locked, a = .tick clk locked) :
      Did settings s a s
  | call {clk op r d u} (run : s.db.getRun r = some d) (turn : Turn (s.db.session d) u)
      (sound : AttemptsSound u.toRunData) :
      Did settings s (.client clk op) (s.withDb (s.db.store u))
  | create {clk op d due} (new : NewRun d) (fresh : d.run.id = s.db.nextUuid) :
      Did settings s (.client clk op) (s.withDb (s.db.withNew d due))
  | claim {worker locked now seconds j} (job : j ∈ s.db.jobs.rows)
      (available : j.state = .available) :
      Did settings s (.claim worker locked now) (s.claimed worker seconds now j)
  | pass {id catalog clk random h r n d u} (handler : s.getHandler id = some h)
      (pc : h.pc = .start) (job : h.job.IsFor .runDispatch r n) (run : s.db.getRun r = some d)
      (turn : Turn (s.db.session d) u) (sound : AttemptsSound u.toRunData)
      (passed : Passed n u.toRunData) (mintless : s.mints settings catalog clk h = none) :
      Did settings s (.advance id catalog clk random) ((s.withDb (s.db.store u)).goto h .returned)
  | mint {id catalog clk random h d u spec} (handler : s.getHandler id = some h)
      (pc : h.pc = .start) (job : h.job.IsFor .runDispatch spec.runId spec.attempt)
      (run : s.db.getRun spec.runId = some d) (mint : Mint (s.db.session d) u spec)
      (sound : AttemptsSound u.toRunData) (minted : s.mints settings catalog clk h = some spec) :
      Did settings s (.advance id catalog clk random)
        ((s.withDb (s.db.store u)).goto h (.startRun spec))
  | start {id catalog clk random h spec} (handler : s.getHandler id = some h)
      (pc : h.pc = .startRun spec) :
      Did settings s (.advance id catalog clk random)
        ((s.startContainer spec).goto h (.record spec))
  | record {id catalog clk random h d u spec stop} (handler : s.getHandler id = some h)
      (pc : h.pc = .record spec) (run : s.db.getRun spec.runId = some d)
      (record : Record (s.db.session d) u spec.attempt spec.ref stop)
      (sound : AttemptsSound u.toRunData) :
      Did settings s (.advance id catalog clk random) ((s.withDb (s.db.store u)).goto h
        (if stop then .stopNow spec.ref else .returned))
  | stop {id catalog clk random h ref pc} (handler : s.getHandler id = some h)
      (stops : StopsAt ref h.pc pc) :
      Did settings s (.advance id catalog clk random) ((s.stopContainer ref).goto h pc)
  | readCancel {id catalog clk random h r n d} (handler : s.getHandler id = some h)
      (pc : h.pc = .start) (job : h.job.IsFor .runCancel r n) (run : s.db.getRun r = some d) :
      Did settings s (.advance id catalog clk random) (s.goto h (afterCancelRead r d))
  | cancel {id catalog clk random h r read late d u} (handler : s.getHandler id = some h)
      (pc : h.pc = .cancelFinish r read) (run : s.db.getRun r = some d)
      (cancelled : Cancelled (s.db.session d) u read late) (sound : AttemptsSound u.toRunData) :
      Did settings s (.advance id catalog clk random)
        (((s.withDb (s.db.store u)).stopLate late).goto h .returned)
  | cancelOver {id catalog clk random h r read d} (handler : s.getHandler id = some h)
      (pc : h.pc = .cancelFinish r read) (run : s.db.getRun r = some d)
      (ended : d.run.state ≠ .cancelling) :
      Did settings s (.advance id catalog clk random)
        ((s.withDb (s.db.store (s.db.session d))).goto h .returned)
  | readStop {id catalog clk random h r n d} (handler : s.getHandler id = some h)
      (pc : h.pc = .start) (job : h.job.IsFor .runStop r n) (run : s.db.getRun r = some d) :
      Did settings s (.advance id catalog clk random) (s.goto h (afterStopRead n d))
  | failed {id catalog clk random h r n retryable} (handler : s.getHandler id = some h)
      (pc : h.pc = .start) (job : h.job.IsFor .runDispatch r n)
      (mintless : s.mints settings catalog clk h = none) :
      Did settings s (.advance id catalog clk random) (s.goto h (.raised retryable))
  | raise {id created h} (handler : s.getHandler id = some h)
      (quiet : created = true → ∀ spec, h.pc ≠ .startRun spec) :
      Did settings s (.raise id created) (s.goto h (.raised true))
  | raiseStarted {id h spec} (handler : s.getHandler id = some h) (pc : h.pc = .startRun spec) :
      Did settings s (.raise id true) ((s.startContainer spec).goto h (.raised true))
  | crash {id h a} (handler : s.getHandler id = some h)
      (action : a = .crash id ∨ ∃ created, a = .raise id created ∧ ∀ spec, h.pc ≠ .startRun spec) :
      Did settings s a (s.drop h)
  | giveUp {id catalog clk random h retryable} (handler : s.getHandler id = some h)
      (pc : h.pc = .raised retryable) : Did settings s (.advance id catalog clk random) (s.drop h)
  | complete {id catalog clk random h} (handler : s.getHandler id = some h)
      (pc : h.pc = .returned) :
      Did settings s (.advance id catalog clk random) ((s.setJobs (s.db.jobs.update
        (JobTable.owned h.job.id h.worker) (JobTable.endAs .succeeded (clk 0)))).drop h)
  | requeue {id catalog clk random h due retryable} (handler : s.getHandler id = some h)
      (pc : h.pc = .raised retryable) :
      Did settings s (.advance id catalog clk random) ((s.setJobs (s.db.jobs.update
        (fun k => k.id = h.job.id) (JobTable.requeue due))).drop h)
  | die {id catalog clk random h type r n d u retryable} (handler : s.getHandler id = some h)
      (pc : h.pc = .raised retryable)
      (dead : (s.db.jobs.fail h.job.id h.worker retryable random (clk 0)).1 = some .dead)
      (job : h.job.IsFor type r n) (run : s.db.getRun r = some d)
      (turn : Turn ((s.buried (clk 0) h.job).db.session d) u) (sound : AttemptsSound u.toRunData)
      (off : u.run.currentAttempt = n → ¬ (type = .runDispatch ∧ u.run.state = .queued)
        ∧ ¬ (type = .runCancel ∧ u.run.state = .cancelling)) :
      Did settings s (.advance id catalog clk random)
        (((s.buried (clk 0) h.job).withDb ((s.buried (clk 0) h.job).db.store u)).drop h)
  | keepLease {id now h seconds} (handler : s.getHandler id = some h) :
      Did settings s (.keepLease id now) (s.setJobs (s.db.jobs.update
        (JobTable.owned h.job.id h.worker) fun j => { j with leaseUntil := some (now + seconds) }))
  | tick {clk locked db} (tick : Crewquarters.tick clk locked s.db = .ok db)
      (turns : Db.Turns (s.setJobs (s.db.jobs.reapExpired clk.reap).2.2).db db) :
      Did settings s (.tick clk locked) (s.withDb db)
  | reap {now} : Did settings s (.gatewayReap now) (s.setJobs (s.db.jobs.reapExpired now).2.2)
  | removed {ref} : Did settings s (.removed ref) (s.removeContainer ref)

end System

namespace Db.Turns

variable {db db' db'' : Db}

theorem trans (h : Turns db db') (h' : Turns db' db'') : Turns db db'' := by
  induction h with
  | refl => exact h'
  | turn run turn sound _ ih => exact .turn run turn sound (ih h')

theorem single (hd : db.getRun r = some d) (ht : Turn (db.session d) u)
    (ha : AttemptsSound u.toRunData) : Turns db (db.store u) :=
  .turn hd ht ha .refl

theorem settleUnlocked {clk : ℕ → Clock} {locked : List RunId} {job : Job}
    (h : db.All AttemptsSound) (hs : settleUnlocked clk locked db job = .ok db') :
    Turns db db' := by
  unfold Crewquarters.settleUnlocked at hs
  split at hs
  · rw [ok.injEq] at hs
    exact hs ▸ .refl
  · split at hs
    · rw [ok.injEq] at hs
      exact hs ▸ .refl
    · rename_i d hd
      obtain ⟨u, hu, hs⟩ := bind_eq_ok.1 hs
      rw [ok.injEq] at hs
      have hd' := h d (Table.get_mem hd)
      have hu' := raising_eq_ok.1 hu
      exact hs ▸ .single hd (onDeadJob_turn hd' hu').1
        (AttemptsSound.worker (c := .onDeadJob _ _) hu hd')

theorem watchRun (G : Guards) {clk : RunId → Clock} {now : Time} {id : RunId}
    (h : db.All AttemptsSound) (hw : watchRun clk now db id = .ok db') : Turns db db' := by
  obtain ⟨d, u, hd, hu, rfl⟩ :=
    onRun_eq_ok (f := fun s => raising (Crewquarters.watch (clk id) now s)) hw
  have hd' := h d (Table.get_mem hd)
  rcases watch_cases (raising_eq_ok.1 hu) with rfl | ⟨m, code, message, r, i, hf⟩ | ⟨k, he⟩
  · exact .single hd .refl hd'
  · exact .single hd (turn_fail hd' hf) (hd'.fail hf)
  · have he' : (RunCall.expireInputs now).exec G (clk id) (db.session d) = .ok u :=
      dropResult_eq_ok.2 ⟨k, he⟩
    exact .single hd (RunCall.turn he' hd') (AttemptsSound.call he' hd')

theorem tick (G : Guards) {clk : TickClock} {locked : List RunId} (h : db.All AttemptsSound)
    (ht : tick clk locked db = .ok db') :
    Turns { db with jobs := (db.jobs.reapExpired clk.reap).2.2 } db' := by
  have hI := attemptsSound_invariant G
  obtain ⟨v, hv, ht⟩ := bind_eq_ok.1 ht
  have hsettled : Turns { db with jobs := (db.jobs.reapExpired clk.reap).2.2 } v
      ∧ v.All AttemptsSound := by
    refine foldlM_keeps (P := fun b => Turns _ b ∧ b.All AttemptsSound) ?_ ⟨.refl, h⟩ hv
    rintro b job b' ⟨hb, hall⟩ hjob
    exact ⟨hb.trans (.settleUnlocked hall hjob), hI.settleUnlocked hall hjob⟩
  refine (foldlM_keeps (P := fun b => Turns _ b ∧ b.All AttemptsSound) ?_ hsettled ht).1
  rintro b r b' ⟨hb, hall⟩ hr
  exact ⟨hb.trans (.watchRun G hall hr), hI.watchRun hall hr⟩

theorem sound (h : Turns db db') (hs : DbSound db) : DbSound db' := by
  induction h with
  | refl => exact hs
  | turn run turn sound _ ih => exact ih (hs.moves run turn.moves sound).1

theorem evolves (h : Turns db db') : db.Evolves db' := by
  induction h with
  | refl => exact .refl
  | turn run turn _ _ ih => exact (Evolves.store run turn.moves.later).trans ih

end Db.Turns

theorem dispatchRecord_isOk (settings : Settings) (clk : Clock) {n : ℕ} (ref : RuntimeRef)
    {s : Session} (h : (s.getAttempt n).isSome) :
    ∃ stop t, dispatchRecord settings clk n ref s = .ok (stop, t) := by
  obtain ⟨a, ha⟩ := isSome_iff_exists.1 h
  simp only [dispatchRecord, ha]
  split_ifs <;> exact ⟨_, _, rfl⟩

theorem cancelFinish_isOk (clk : Clock) (read : Option RuntimeRef) (s : Session) :
    ∃ late t, cancelFinish clk read s = .ok (late, t) := by
  unfold cancelFinish
  split_ifs with hc
  · exact ⟨_, _, rfl⟩
  · have hcan : RunState.canTransition s.run.state .cancelled := by
      rw [not_not.1 hc]
      rfl
    split
    · rw [transition_of_can hcan]
      exact ⟨_, _, rfl⟩
    · rename_i a ha
      have hput : RunState.canTransition (s.putAttempt { a with
          state := .cancelled, endedAt := a.endedAt.or (some (clk 0)) }).run.state .cancelled :=
        hcan
      simp only [transition_of_can hput]
      exact ⟨_, _, rfl⟩

namespace System

variable {G : Guards} {settings : Settings} {s t : System} {h : Handler} {id : ℕ}
  {catalog : Catalog} {clk : Clock} {random : ℚ}
variable {r : RunId} {n : ℕ} {db : Db} {calls : List RuntimeCall}

theorem mints_of_pc (hpc : h.pc ≠ .start) : s.mints settings catalog clk h = none := by
  unfold mints
  split
  · exact absurd ‹_› hpc
  · rfl

theorem mints_of_type {type : JobType} (hfor : h.job.IsFor type r n) (htype : type ≠ .runDispatch) :
    s.mints settings catalog clk h = none := by
  unfold mints
  split
  · exact absurd (hfor.1.symm.trans ‹_›) htype
  · rfl

theorem getHandler_mem (hh : s.getHandler id = some h) : h ∈ s.handlers := Table.get_mem hh

theorem Sound.job (hs : Sound s) (hh : h ∈ s.handlers) :
    ∃ type ∈ handledTypes, ∃ r n, h.job.IsFor type r n ∧ s.db.Fact r (JobFact type n) := by
  obtain ⟨j, hj, hc⟩ := hs.jobs h hh
  obtain ⟨type, ht, r, n, hfor, -⟩ := hs.db.jobs.shape j hj
  exact ⟨type, ht, r, n, hfor.of_core hc.symm, hs.db.jobRuns j hj hfor⟩

section Handler
variable (hh : s.getHandler id = some h)
include hh

theorem did_prepare (hs : Sound s) (hpc : h.pc = .start)
    (hfor : h.job.IsFor .runDispatch r n) (hfact : s.db.Fact r (JobFact .runDispatch n)) :
    Did settings s (.advance id catalog clk random) (s.prepare settings catalog clk h r n) := by
  have hmints : s.mints settings catalog clk h
      = match s.db.withRun r (dispatchPrepare settings catalog clk n) with
        | .ok (spec, _) => spec
        | .error _ => none := by
    unfold mints
    rw [hpc, hfor.1, hfor.2]
    rfl
  unfold prepare
  split
  · rename_i e heq
    exact .failed hh hpc hfor (by rw [hmints, heq])
  · rename_i db heq
    obtain ⟨d, u, hd, hu, rfl⟩ := withRun_eq_ok heq
    have ha := (hs.db.run hd).attempts
    obtain ⟨hturn, hpassed⟩ := dispatchPrepare_turn ha (hfact.get hd).le hu
    exact .pass hh hpc hfor hd hturn
      (AttemptsSound.worker (c := .dispatchPrepare _ _ _) (dropResult_eq_ok.2 ⟨_, hu⟩) ha) hpassed
      (by rw [hmints, heq])
  · rename_i spec db heq
    obtain ⟨d, u, hd, hu, rfl⟩ := withRun_eq_ok heq
    have ha := (hs.db.run hd).attempts
    obtain ⟨hn, hmint⟩ := dispatchPrepare_mint hu
    have hr : spec.runId = r := hmint.runId.trans (getRun_id hd)
    have hspec : s.mints settings catalog clk h = some spec := by rw [hmints, heq]
    subst hn
    subst hr
    exact .mint hh hpc hfor hd hmint
      (AttemptsSound.worker (c := .dispatchPrepare _ _ _) (dropResult_eq_ok.2 ⟨_, hu⟩) ha) hspec

theorem did_record (hs : Sound s) (hpc : h.pc = .record spec) :
    Did settings s (.advance id catalog clk random) (s.record settings clk h spec) := by
  have hsound := hs.handlers h (getHandler_mem hh)
  rw [hpc] at hsound
  obtain ⟨d, hd, -, -, hrow⟩ := hsound.1.2.run
  obtain ⟨stop, u, hu⟩ :=
    dispatchRecord_isOk settings clk spec.ref (s := s.db.session d) hrow
  have heq : s.db.withRun spec.runId (dispatchRecord settings clk spec.attempt spec.ref)
      = .ok (stop, s.db.store u) := by
    unfold Db.withRun
    rw [show s.db.getRun spec.runId = some d from hd]
    show (dispatchRecord settings clk spec.attempt spec.ref (s.db.session d) >>= _) = _
    rw [show dispatchRecord settings clk spec.attempt spec.ref (s.db.session d) = _ from hu]
    rfl
  unfold record
  rw [heq]
  exact .record hh hpc hd (dispatchRecord_record hu) (AttemptsSound.worker
    (c := .dispatchRecord _ _ _) (dropResult_eq_ok.2 ⟨_, hu⟩) (hs.db.run hd).attempts)

theorem did_finishCancel {read : Option RuntimeRef} (hs : Sound s)
    (hpc : h.pc = .cancelFinish r read) :
    Did settings s (.advance id catalog clk random) (s.finishCancel clk h r read) := by
  have hsound := hs.handlers h (getHandler_mem hh)
  rw [hpc] at hsound
  obtain ⟨n, hfor⟩ := hsound.1
  obtain ⟨type, -, r', n', hfor', d, hd, -⟩ := hs.job (getHandler_mem hh)
  obtain ⟨-, rfl, -⟩ := hfor.unique hfor'
  obtain ⟨late, u, hu⟩ := cancelFinish_isOk clk read (s.db.session d)
  have heq : s.db.withRun r (cancelFinish clk read) = .ok (late, s.db.store u) := by
    unfold Db.withRun
    rw [hd]
    show (cancelFinish clk read (s.db.session d) >>= _) = _
    rw [hu]
    rfl
  unfold finishCancel
  rw [heq]
  rcases cancelFinish_cancelled hu with ⟨hn, rfl, rfl⟩ | hc
  · exact .cancelOver hh hpc hd hn
  · have hdid : Did settings s (.advance id catalog clk random)
        (((s.withDb (s.db.store u)).stopLate late).goto h .returned) :=
      .cancel hh hpc hd hc (AttemptsSound.worker (c := .cancelFinish _)
        (dropResult_eq_ok.2 ⟨_, hu⟩) (hs.db.run hd).attempts)
    rcases late with _ | late <;> exact hdid

theorem did_readCancel (hpc : h.pc = .start)
    (hfor : h.job.IsFor .runCancel r n) (hfact : s.db.Fact r (JobFact .runCancel n)) :
    Did settings s (.advance id catalog clk random) (s.readCancel h r) := by
  obtain ⟨d, hd, -⟩ := hfact
  have hdid : Did settings s (.advance id catalog clk random) (s.goto h (afterCancelRead r d)) :=
    .readCancel hh hpc hfor hd
  unfold afterCancelRead at hdid
  unfold readCancel
  rw [hd, bind_some]
  split at hdid <;> simp_all

theorem did_readStop (hpc : h.pc = .start)
    (hfor : h.job.IsFor .runStop r n) (hfact : s.db.Fact r (JobFact .runStop n)) :
    Did settings s (.advance id catalog clk random) (s.readStop h r n) := by
  obtain ⟨d, hd, -⟩ := hfact
  have hdid : Did settings s (.advance id catalog clk random) (s.goto h (afterStopRead n d)) :=
    .readStop hh hpc hfor hd
  unfold afterStopRead at hdid
  unfold readStop
  rw [hd, bind_some, show stopRead n d = d.refOf n from rfl]
  split at hdid <;> simp_all

theorem did_begin (hs : Sound s) (hpc : h.pc = .start) :
    Did settings s (.advance id catalog clk random) (s.begin settings catalog clk h) := by
  obtain ⟨type, ht, r, n, hfor, hfact⟩ := hs.job (getHandler_mem hh)
  unfold begin
  rw [hfor.1, hfor.2]
  simp only [handledTypes, List.mem_cons, List.not_mem_nil, or_false] at ht
  rcases ht with rfl | rfl | rfl
  · exact did_prepare hh hs hpc hfor hfact
  · exact did_readCancel hh hpc hfor hfact
  · exact did_readStop hh hpc hfor hfact

theorem did_fail {retryable : Bool} (hs : Sound s) (hpc : h.pc = .raised retryable)
    (hf : failJob clk random h retryable s.db = .ok db) :
    Did settings s (.advance id catalog clk random) ((s.withDb db).drop h) := by
  obtain ⟨type, -, r, n, hfor, -⟩ := hs.job (getHandler_mem hh)
  rcases hfail : s.db.jobs.fail h.job.id h.worker retryable random (clk 0) with ⟨state, jobs⟩
  unfold failJob at hf
  rw [hfail, hfor.2] at hf
  rcases JobTable.fail_cases hfail with ⟨rfl, rfl, -⟩
    | ⟨j, -, -, ⟨rfl, -, due, rfl⟩ | ⟨rfl, -, rfl⟩⟩
  · simp only [ok.injEq] at hf
    subst hf
    exact .giveUp hh hpc
  · simp only [ok.injEq] at hf
    subst hf
    exact .requeue hh hpc
  · obtain ⟨d, u, hd, hu, rfl⟩ := onRun_eq_ok hf
    have ha := (hs.db.run hd).attempts
    obtain ⟨hturn, hoff⟩ := onDeadJob_turn ha (raising_eq_ok.1 hu)
    rw [hfor.1] at hoff
    exact .die hh hpc (by rw [hfail]) hfor hd hturn
      (AttemptsSound.worker (c := .onDeadJob _ _) hu ha) fun hn => hoff (by rw [hn]; rfl)

theorem did_advance (hs : Sound s) :
    Did settings s (.advance id catalog clk random) (s.advance settings catalog clk random h) := by
  unfold advance
  split
  · exact did_begin hh hs ‹_›
  · exact .start hh ‹_›
  · exact did_record hh hs ‹_›
  · rename_i ref hpc
    exact .stop hh (hpc ▸ .now)
  · rename_i r ref hpc
    exact .stop hh (hpc ▸ .cancel r)
  · exact did_finishCancel hh hs ‹_›
  · rename_i ref hpc
    exact .stop hh (hpc ▸ .stop)
  · exact .complete hh ‹_›
  · split
    · exact did_fail hh hs ‹_› ‹_›
    · exact .giveUp hh ‹_›

theorem did_raise {created : Bool} :
    Did settings s (.raise id created) (s.raise created h) := by
  unfold raise
  split
  · cases created
    · exact .raise hh nofun
    · exact .raiseStarted hh ‹_›
  · rename_i hpc
    exact .crash hh (.inr ⟨created, rfl, by simp [hpc]⟩)
  · rename_i hpc
    exact .crash hh (.inr ⟨created, rfl, by simp [hpc]⟩)
  · rename_i hpc _ _
    exact .raise hh fun _ => hpc

end Handler

theorem did_client {op : ClientOp} (hs : Sound s) :
    Did settings s (.client clk op) (s.withDb (s.db.commit G clk (.client op))) := by
  have hcall : ∀ {r : RunId} {c : RunCall} {db : Db},
      s.db.onRun r (fun u => raising (c.exec G clk u)) = .ok db →
        Did settings s (.client clk op) (s.withDb db) := by
    intro r c db hc
    obtain ⟨d, u, hd, hu, rfl⟩ := onRun_eq_ok hc
    have ha := (hs.db.run hd).attempts
    have hu := raising_eq_ok.1 hu
    exact .call hd (RunCall.turn hu ha) (AttemptsSound.call hu ha)
  unfold Db.commit
  split
  · rename_i db hdb
    cases op with
    | createRun =>
      rcases insertRun_cases (Db.exec_createRun (G := G) hdb).symm with rfl | ⟨d, due, hd, hid, rfl⟩
      · exact .refused (.inl ⟨_, _, rfl⟩)
      · exact .create hd hid
    | call => exact hcall hdb
    | answer =>
      simp only [DbOp.exec, ClientOp.exec] at hdb
      split at hdb
      · cases hdb
      · exact hcall hdb
  · exact .refused (.inl ⟨_, _, rfl⟩)

theorem did_of_step {a : Action} (hs : Sound s) (hstep : step G settings a s = some t) :
    Did settings s a t := by
  cases a with
  | client =>
    simp only [step, some.injEq] at hstep
    exact hstep ▸ did_client hs
  | claim worker locked now =>
    simp only [step, claim] at hstep
    split at hstep
    · cases hstep
    · rename_i job jobs hclaim
      obtain ⟨j, hj, hav, rfl, rfl⟩ := JobTable.claim_cases hclaim
      rw [some.injEq] at hstep
      exact hstep ▸ .claim hj hav
  | advance =>
    obtain ⟨h, hh, rfl⟩ := map_eq_some_iff.1 hstep
    exact did_advance hh hs
  | raise =>
    obtain ⟨h, hh, rfl⟩ := map_eq_some_iff.1 hstep
    exact did_raise hh
  | crash =>
    obtain ⟨h, hh, rfl⟩ := map_eq_some_iff.1 hstep
    exact .crash hh (.inl rfl)
  | keepLease =>
    obtain ⟨h, hh, rfl⟩ := map_eq_some_iff.1 hstep
    exact .keepLease hh
  | tick clk locked =>
    simp only [step, some.injEq] at hstep
    subst hstep
    unfold Db.commit
    split
    · rename_i db hdb
      exact .tick hdb (.tick G (fun d hd => (hs.db.runs d hd).1.attempts) hdb)
    · exact .refused (.inr ⟨_, _, rfl⟩)
  | gatewayReap =>
    simp only [step, some.injEq] at hstep
    exact hstep ▸ .reap
  | removed =>
    simp only [step, some.injEq] at hstep
    exact hstep ▸ .removed

theorem startContainer_frame (spec : RunSpec) (s : System) :
    (s.startContainer spec).db = s.db ∧ (s.startContainer spec).handlers = s.handlers := by
  unfold startContainer
  split_ifs <;> exact ⟨rfl, rfl⟩

theorem stopLate_frame (late : Option RuntimeRef) (s : System) :
    (s.stopLate late).db = s.db ∧ (s.stopLate late).handlers = s.handlers := by
  cases late <;> exact ⟨rfl, rfl⟩

theorem fact_store {P : RunData → Prop} (hd : db.getRun r = some d) (hid : u.run.id = d.run.id)
    (hP : P u.toRunData) : (db.store u).Fact r P := by
  have hr : u.run.id = r := hid.trans (getRun_id hd)
  exact ⟨u.toRunData, hr ▸ getRun_store (hr ▸ hd), hP⟩

theorem returned_of_dispatch {job : Job} (hfor : job.IsFor .runDispatch r n)
    (hfact : db.Fact r (Reached n 1)) : HandlerSound db calls job .returned := by
  constructor
  · intro r' n' hfor'
    obtain ⟨-, rfl, rfl⟩ := hfor.unique hfor'
    exact hfact
  · intro r' n' hfor'
    cases (hfor.unique hfor').1

theorem returned_of_cancel {job : Job} (hfor : job.IsFor .runCancel r n)
    (hfact : db.Fact r (Reached n 4)) : HandlerSound db calls job .returned := by
  constructor
  · intro r' n' hfor'
    cases (hfor.unique hfor').1
  · intro r' n' hfor'
    obtain ⟨-, rfl, rfl⟩ := hfor.unique hfor'
    exact hfact

theorem returned_of_stop {job : Job} (hfor : job.IsFor .runStop r n) :
    HandlerSound db calls job .returned := by
  constructor
  · intro r' n' hfor'
    cases (hfor.unique hfor').1
  · intro r' n' hfor'
    cases (hfor.unique hfor').1

namespace Sound

theorem reap {now : Time} (hs : Sound s) :
    Sound (s.setJobs (s.db.jobs.reapExpired now).2.2) := by
  rw [reapExpired_table]
  exact hs.update (reaped_core now)

theorem bury {now : Time} {job : Job} (hs : Sound s) : Sound (s.buried now job) :=
  hs.update fun _ => rfl

theorem turns {db db' : Db} (h : Db.Turns db db') : Sound (s.withDb db) → Sound (s.withDb db') := by
  intro hs
  induction h with
  | refl => exact hs
  | turn run turn sound _ ih => exact ih (hs.turn run turn sound)

section

variable (hs : Sound s)
include hs

theorem mint (hh : h ∈ s.handlers) (hfor : h.job.IsFor .runDispatch spec.runId spec.attempt)
    (hd : s.db.getRun spec.runId = some d) (hm : Mint (s.db.session d) u spec)
    (ha : AttemptsSound u.toRunData) :
    Sound ((s.withDb (s.db.store u)).goto h (.startRun spec)) := by
  refine (hs.store hd hm.moves ha fun n x hx => .inl ((hm.refs n).symm.trans hx)).goto hh
    ⟨hfor, ⟨?_, ?_, hm.claims.2.1, ?_⟩⟩
  · show spec.token.tokenId < u.nextUuid
    rw [hm.tokenId, hm.nextUuid]
    exact Nat.lt_succ_self _
  · exact hm.claims.1.trans hm.runId.symm
  · refine fact_store hd hm.id ⟨.inr ⟨hm.attempt.trans hm.currentAttempt.symm, ?_⟩,
      hm.claims.2.2.trans hm.installationId.symm, hm.row⟩
    rw [hm.target]
    rfl

theorem record {stop : Bool} (hh : h ∈ s.handlers) (hpc : h.pc = .record spec)
    (hd : s.db.getRun spec.runId = some d)
    (hr : Record (s.db.session d) u spec.attempt spec.ref stop) (ha : AttemptsSound u.toRunData) :
    Sound ((s.withDb (s.db.store u)).goto h (if stop then .stopNow spec.ref else .returned)) := by
  have hsound := hs.handlers h hh
  rw [hpc] at hsound
  obtain ⟨⟨hfor, htoken⟩, hcreated⟩ := hsound
  have hid : d.run.id = spec.runId := getRun_id hd
  have hmoves := hr.moves (show spec.ref = ⟨d.run.id, spec.attempt⟩ by rw [hid]; rfl)
  have hstore : Sound (s.withDb (s.db.store u)) := by
    refine hs.store hd hmoves ha fun n x hx => ?_
    rw [hr.refs] at hx
    split_ifs at hx
    · exact .inr (some.inj hx ▸ hcreated)
    · exact .inl hx
  have hreached : Reached spec.attempt 1 u.toRunData :=
    hmoves.later.reached (htoken.run.get hd).1
  refine hstore.goto hh ?_
  split_ifs
  · refine ⟨hfor, fact_store hd hmoves.later.id ⟨hreached, ?_⟩⟩
    obtain ⟨x, hx⟩ := isSome_iff_exists.1 hr.ref_isSome
    have hu := hmoves.sound (hs.db.run hd) ha
    show u.refOf spec.attempt = some spec.ref
    rw [hx, hu.refs _ _ hx, hr.run]
    exact congrArg some (by rw [show (s.db.session d).run.id = spec.runId from hid]; rfl)
  · exact returned_of_dispatch hfor (fact_store hd hmoves.later.id hreached)

theorem readCancel {n : ℕ} (hh : h ∈ s.handlers) (hfor : h.job.IsFor .runCancel r n)
    (hd : s.db.getRun r = some d) (hfact : JobFact .runCancel n d) :
    Sound (s.goto h (afterCancelRead r d)) := by
  refine hs.goto hh ?_
  unfold afterCancelRead cancelRead
  split_ifs with hc
  · exact returned_of_cancel hfor ⟨d, hd, hfact.over hc⟩
  · rcases href : d.refOf d.run.currentAttempt with _ | ref
    · rw [show (d.getAttempt d.run.currentAttempt).bind (·.runtimeRef) = none from href]
      exact ⟨⟨n, hfor⟩, nofun⟩
    · rw [show (d.getAttempt d.run.currentAttempt).bind (·.runtimeRef) = some ref from href]
      have hatt : ref.attempt = d.run.currentAttempt :=
        congrArg RuntimeRef.attempt ((hs.db.run hd).refs _ _ href)
      exact ⟨⟨n, hfor⟩, d, hd, hatt ▸ href⟩

theorem stop {ref : RuntimeRef} {pc : Pc} (hh : h ∈ s.handlers) (hstops : StopsAt ref h.pc pc) :
    Sound ((s.stopContainer ref).goto h pc) := by
  have hsound := hs.handlers h hh
  refine hs.stopContainer.goto hh ?_
  generalize h.pc = pc₀ at hstops hsound
  cases hstops with
  | now => exact returned_of_dispatch hsound.1 (hsound.2.mono fun _ => And.left)
  | cancel => exact ⟨hsound.1, fun x hx => some.inj hx ▸ hsound.2⟩
  | stop => exact returned_of_stop hsound

theorem cancel {read late : Option RuntimeRef} (hh : h ∈ s.handlers)
    (hpc : h.pc = .cancelFinish r read) (hd : s.db.getRun r = some d)
    (hc : Cancelled (s.db.session d) u read late) (ha : AttemptsSound u.toRunData) :
    Sound (((s.withDb (s.db.store u)).stopLate late).goto h .returned) := by
  have hsound := hs.handlers h hh
  rw [hpc] at hsound
  obtain ⟨n, hfor⟩ := hsound.1
  obtain ⟨type, -, r', n', hfor', hfact⟩ := hs.job hh
  obtain ⟨rfl, rfl, rfl⟩ := hfor.unique hfor'
  have hstore : Sound (s.withDb (s.db.store u)) :=
    hs.store hd hc.moves ha fun n x hx => .inl ((hc.kept.refs n).symm.trans hx)
  have hlate : Sound ((s.withDb (s.db.store u)).stopLate late) := by
    cases late
    · exact hstore
    · exact hstore.stopContainer
  have hover : Reached n 4 u.toRunData :=
    (hc.moves.later.reached (hfact.get hd)).over (by rw [hc.target]; decide)
  have hframe := stopLate_frame late (s.withDb (s.db.store u))
  refine hlate.goto (hframe.2 ▸ hh) ?_
  rw [hframe.1]
  exact returned_of_cancel hfor (fact_store hd hc.kept.id hover)

theorem cancelOver {read : Option RuntimeRef} (hh : h ∈ s.handlers)
    (hpc : h.pc = .cancelFinish r read) (hd : s.db.getRun r = some d)
    (hended : d.run.state ≠ .cancelling) :
    Sound ((s.withDb (s.db.store (s.db.session d))).goto h .returned) := by
  have hsound := hs.handlers h hh
  rw [hpc] at hsound
  obtain ⟨n, hfor⟩ := hsound.1
  obtain ⟨type, -, r', n', hfor', hfact⟩ := hs.job hh
  obtain ⟨rfl, rfl, rfl⟩ := hfor.unique hfor'
  exact (hs.turn hd .refl (hs.db.run hd).attempts).goto hh
    (returned_of_cancel hfor (fact_store hd rfl ((hfact.get hd).over hended)))

theorem did {a : Action} (hdid : Did settings s a t) : Sound t := by
  cases hdid with
  | refused => exact hs
  | call run turn sound => exact hs.turn run turn sound
  | create new fresh => exact hs.create new fresh
  | @claim worker locked now seconds j job available =>
    have hleased : Sound (s.setJobs (s.db.jobs.update (fun k => k.id = j.id)
        (JobTable.lease worker seconds now))) := hs.update fun _ => rfl
    refine hleased.begin ?_
    have hcore : ∀ k, (JobTable.lease worker seconds now k).core = k.core := fun _ => rfl
    exact JobTable.grows_update hcore j job
  | pass handler pc job run turn sound passed =>
    exact (hs.turn run turn sound).goto (getHandler_mem handler)
      (returned_of_dispatch job (fact_store run turn.kept.id passed.reached))
  | mint handler pc job run mint sound =>
    exact hs.mint (getHandler_mem handler) job run mint sound
  | start handler pc =>
    have hh := getHandler_mem handler
    have hsound := hs.handlers _ hh
    rw [pc] at hsound
    obtain ⟨hdb, hhandlers⟩ := startContainer_frame _ s
    refine (hs.startContainer hsound.2).goto (hhandlers ▸ hh) ⟨?_, created_startContainer hs _⟩
    rw [hdb]
    exact hsound
  | record handler pc run record sound =>
    exact hs.record (getHandler_mem handler) pc run record sound
  | stop handler stops => exact hs.stop (getHandler_mem handler) stops
  | readCancel handler pc job run =>
    have hh := getHandler_mem handler
    obtain ⟨type, -, r', n', hfor', hfact⟩ := hs.job hh
    obtain ⟨rfl, rfl, rfl⟩ := job.unique hfor'
    exact hs.readCancel hh job run (hfact.get run)
  | cancel handler pc run cancelled sound =>
    exact hs.cancel (getHandler_mem handler) pc run cancelled sound
  | cancelOver handler pc run ended =>
    exact hs.cancelOver (getHandler_mem handler) pc run ended
  | readStop handler pc job run =>
    refine hs.goto (getHandler_mem handler) ?_
    unfold afterStopRead
    split
    · exact returned_of_stop job
    · rename_i ref href
      rw [(hs.db.run run).refs _ _ href, getRun_id run]
      exact job
  | failed handler | raise handler => exact hs.goto (getHandler_mem handler) trivial
  | raiseStarted handler pc =>
    have hh := getHandler_mem handler
    have hsound := hs.handlers _ hh
    rw [pc] at hsound
    exact (hs.startContainer hsound.2).goto ((startContainer_frame _ s).2 ▸ hh) trivial
  | crash | giveUp => exact hs.drop
  | complete | requeue =>
    refine Sound.drop ?_
    exact hs.update fun _ => rfl
  | die handler pc dead job run turn sound =>
    exact (hs.bury.turn run turn sound).drop
  | keepLease => exact hs.update fun _ => rfl
  | tick tick turns => exact Sound.turns turns hs.reap
  | reap => exact hs.reap
  | removed => exact hs.removeContainer

end

theorem init : Sound System.init where
  db := by
    refine ⟨⟨⟨?_, ?_⟩, ?_⟩, ?_, ?_, ?_, ?_⟩ <;> simp [System.init, Db.empty]
  handlerIds := by simp [System.init]
  handlerBound := by simp [System.init]
  jobs := by simp [System.init]
  handlers := by simp [System.init]
  containers := by simp [System.init]
  created := by simp [System.init]
  recorded := by simp [System.init, Db.empty]

theorem step {a : Action} (hs : Sound s) (hstep : step G settings a s = some t) : Sound t :=
  hs.did (did_of_step hs hstep)

end Sound

theorem Did.evolves {a : Action} (hs : Sound s) (hdid : Did settings s a t) :
    s.db.Evolves t.db := by
  cases hdid with
  | refused => exact .refl
  | call run turn => exact .store run turn.moves.later
  | create new fresh => exact (hs.db.create new fresh).2.evolves
  | claim => exact .of_runs rfl
  | pass handler pc job run turn => exact .store run turn.moves.later
  | mint handler pc job run mint => exact .store run mint.moves.later
  | start => exact .of_runs (congrArg Db.runs (startContainer_frame _ s).1)
  | @record id catalog clk random h d u spec stop handler pc run record sound =>
    have hid : d.run.id = spec.runId := getRun_id run
    have href : spec.ref = ⟨d.run.id, spec.attempt⟩ := by
      rw [hid]
      rfl
    exact .store run (record.moves href).later
  | stop => exact .refl
  | readCancel => exact .refl
  | @cancel id catalog clk random h r read late d u handler pc run cancelled sound =>
    show s.db.Evolves ((s.withDb (s.db.store u)).stopLate late).db
    rw [(stopLate_frame late _).1]
    exact .store run cancelled.moves.later
  | cancelOver handler pc run => exact .store run .refl
  | readStop => exact .refl
  | failed => exact .refl
  | raise => exact .refl
  | raiseStarted => exact .of_runs (congrArg Db.runs (startContainer_frame _ s).1)
  | crash => exact .refl
  | giveUp => exact .refl
  | complete | requeue => exact .of_runs rfl
  | die handler pc dead job run turn =>
    have hstored : s.db.Evolves (s.db.store _) := .store run turn.moves.later
    exact hstored
  | keepLease => exact .of_runs rfl
  | tick tick turns => exact turns.evolves
  | reap => exact .of_runs rfl
  | removed => exact .refl

variable (G settings) (actions : List Action)

theorem sound_along : (system G settings).Along Sound actions init :=
  Machine.along_of_step (fun _ _ _ hs h => hs.step h) actions .init

/-- A run stays and moves forward, whatever happens from a reachable state on. -/
theorem runs_move_forward (later : List Action) : (system G settings).Along (fun s =>
    (system G settings).Along (fun t => s.db.Evolves t.db) later s) actions init := by
  refine (sound_along G settings actions).mono fun s hs => ?_
  refine (Machine.along_of_step (I := fun t => t.Sound ∧ s.db.Evolves t.db) (fun _ t _ ht h => ?_)
    later ⟨hs, .refl⟩).mono fun _ h => h.2
  exact ⟨ht.1.step h, ht.2.trans ((did_of_step ht.1 h).evolves ht.1)⟩

/-- Jobs, runs and attempts fit together; an attempt never has a second dispatch job. -/
theorem rows_fit_together : (system G settings).Along (fun s => DbSound s.db) actions init :=
  (sound_along G settings actions).mono fun _ hs => hs.db

/-- What a handler carries from one transaction to the next fits the rows; a container has the
token of its own run, attempt and installation; one on record was created. -/
theorem containers_hold_own_tokens : (system G settings).Along (fun s =>
    (∀ h ∈ s.handlers, HandlerSound s.db s.calls h.job h.pc)
    ∧ (∀ c ∈ s.containers, TokenSound s.db c.ref c.token ∧ .created c.ref ∈ s.calls)
    ∧ ∀ d ∈ s.db.runs, ∀ n x, d.refOf n = some x → .created x ∈ s.calls) actions init :=
  (sound_along G settings actions).mono fun _ hs => ⟨hs.handlers, hs.containers, hs.recorded⟩

end System

def go (id : ℕ) (now : Time) : Action := .advance id plainCatalog (fun _ => now) 0

def tickAt (now : Time) (locked : List RunId) : Action :=
  .tick ⟨now, now, fun _ _ => now, fun _ _ => now⟩ locked

end Crewquarters
