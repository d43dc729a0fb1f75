import Crewquarters.Proofs.Steps
import Crewquarters.Proofs.Log

/-!
# A stale attempt does not touch the run

An operation or a job that carries the number of an attempt finds that it is not the run's current
one and raises or returns. Two are let through to their own attempt's row, to note an exit code and
a container (`TouchesOnly`): `record_container_exit` and the second transaction of a dispatch.
-/

namespace Crewquarters

open Option Db Except

variable {G : Guards} {settings : Settings} {clk : Clock} {m : ℕ} {s t : Session}
  {catalog : Catalog}

/-- The attempt an operation of an agent, of a broker or of the exit watcher names. -/
def RunCall.carries : RunCall → Option ℕ
  | .handshake n _ => some n
  | .heartbeat n _ => some n
  | .setModelLoading n _ _ => some n
  | .recordAgentEvent n _ _ => some n
  | .recordAgentEventBatch _ n _ => some n
  | .finish n _ _ _ => some n
  | .recordContainerExit _ n _ _ _ _ => some n
  | .ask n _ _ _ _ _ _ => some n
  | .claimAction n _ _ => some n
  | .completeAction n _ _ => some n
  | _ => none

def WorkerCall.carries : WorkerCall → Option ℕ
  | .dispatchPrepare _ _ n => some n
  | .dispatchRecord _ n _ => some n
  | .onDeadJob _ payload => payload.attempt
  | _ => none

def DbOp.carries (id : RunId) : DbOp → Option ℕ
  | .client (.call r c) => if r = id then c.carries else none
  | .worker r c => if r = id then c.carries else none
  | _ => none

def Action.handler : Action → Option ℕ
  | .advance id _ _ _ => some id
  | .raise id _ => some id
  | .crash id => some id
  | .keepLease id _ => some id
  | _ => none

/-- An exit code, a container and a heartbeat are noted; a code or container that is there stays. -/
def RunAttempt.Noted (a b : RunAttempt) : Prop :=
  b = { a with
    exitCode := b.exitCode
    runtimeRef := b.runtimeRef
    heartbeatExpiresAt := b.heartbeatExpiresAt }
  ∧ (a.exitCode = none ∨ b.exitCode = a.exitCode)
  ∧ (a.runtimeRef = none ∨ b.runtimeRef = a.runtimeRef)

/-- Nothing of the run changed but what is noted in the row of attempt `m`. -/
structure TouchesOnly (m : ℕ) (d d' : RunData) : Prop where
  run : d'.run = d.run
  events : d'.events = d.events
  requests : d'.requests = d.requests
  actions : d'.actions = d.actions
  others : ∀ k, k ≠ m → d'.getAttempt k = d.getAttempt k
  row : Option.Rel RunAttempt.Noted (d.getAttempt m) (d'.getAttempt m)

namespace TouchesOnly

theorem refl {d : RunData} : TouchesOnly m d d := by
  refine ⟨rfl, rfl, rfl, rfl, fun _ _ => rfl, ?_⟩
  cases d.getAttempt m with
  | none => exact .none
  | some => exact .some ⟨rfl, .inr rfl, .inr rfl⟩

theorem put {a b : RunAttempt} (ha : s.getAttempt m = some a) (hb : b.attempt = a.attempt)
    (hnoted : a.Noted b) : TouchesOnly m s.toRunData (s.putAttempt b).toRunData := by
  refine ⟨rfl, rfl, rfl, rfl, fun k hk => ?_, ?_⟩
  · rw [getAttempt_putAttempt ha hb, if_neg hk]
  · rw [getAttempt_putAttempt ha hb, if_pos rfl, ha]
    exact .some hnoted

end TouchesOnly

theorem RunCall.touchesOnly {c : RunCall} (hm : c.carries = some m)
    (hstale : m ≠ s.run.currentAttempt) (hc : c.exec G clk s = .ok t) :
    TouchesOnly m s.toRunData t.toRunData := by
  cases c with
  | handshake =>
    obtain rfl := some.inj hm
    exact absurd (handshake_cases hc).1 hstale
  | heartbeat =>
    obtain rfl := some.inj hm
    obtain ⟨r, hc⟩ := dropResult_eq_ok.1 hc
    exact absurd (heartbeat_cases hc).1 hstale
  | setModelLoading =>
    obtain rfl := some.inj hm
    exact absurd (setModelLoading_cases hc).1 hstale
  | recordAgentEvent =>
    obtain rfl := some.inj hm
    exact absurd (recordAgentEvent_cases hc).2.1 hstale
  | recordAgentEventBatch =>
    obtain rfl := some.inj hm
    obtain ⟨r, hc⟩ := dropResult_eq_ok.1 hc
    exact absurd (recordAgentEventBatch_cases hc).1 hstale
  | finish =>
    obtain rfl := some.inj hm
    exact absurd (finish_cases hc).1 hstale
  | recordContainerExit =>
    obtain rfl := some.inj hm
    obtain ⟨r, hc⟩ := dropResult_eq_ok.1 hc
    obtain rfl | ⟨a, ha, -, rfl | ⟨hn, -⟩⟩ := recordContainerExit_cases hc
    · exact .refl
    · unfold noteExit
      split_ifs with hnote
      · exact .put ha rfl ⟨rfl, .inl hnote.1, .inr rfl⟩
      · exact .refl
    · exact absurd hn hstale
  | ask =>
    obtain rfl := some.inj hm
    obtain ⟨r, hc⟩ := dropResult_eq_ok.1 hc
    exact absurd (ask_cases hc).1 hstale
  | claimAction =>
    obtain rfl := some.inj hm
    obtain ⟨r, hc⟩ := dropResult_eq_ok.1 hc
    exact absurd (claimAction_cases hc).1 hstale
  | completeAction =>
    obtain rfl := some.inj hm
    obtain ⟨r, hc⟩ := dropResult_eq_ok.1 hc
    exact absurd (completeAction_cases hc).1 hstale
  | _ => cases hm

theorem dispatchPrepare_stale (hstale : m ≠ s.run.currentAttempt) :
    dispatchPrepare settings catalog clk m s = .ok (none, s) := by
  unfold dispatchPrepare
  rw [if_pos (.inl hstale.symm)]

theorem dispatchRecord_touchesOnly {ref : RuntimeRef} {stop : Bool}
    (h : dispatchRecord settings clk m ref s = .ok (stop, t)) :
    TouchesOnly m s.toRunData t.toRunData := by
  obtain ⟨a, ha, -, ⟨hnone, hb, rfl⟩ | ⟨-, rfl⟩⟩ := dispatchRecord_cases h
  · exact .put ha rfl ⟨rfl, .inr rfl, .inl hnone⟩
  · exact .refl

theorem onDeadJob_stale {type : JobType} {payload : JobPayload} (hm : payload.attempt = some m)
    (hstale : m ≠ s.run.currentAttempt) : onDeadJob clk type payload s = .ok s := by
  unfold onDeadJob
  rw [hm, getD_some, if_pos hstale.symm]

theorem WorkerCall.touchesOnly {c : WorkerCall} (hm : c.carries = some m)
    (hstale : m ≠ s.run.currentAttempt) (hc : c.exec clk s = .ok t) :
    TouchesOnly m s.toRunData t.toRunData := by
  cases c with
  | dispatchPrepare =>
    obtain rfl := some.inj hm
    obtain ⟨spec, hc⟩ := dropResult_eq_ok.1 hc
    rw [dispatchPrepare_stale hstale, ok.injEq, Prod.mk.injEq] at hc
    exact hc.2 ▸ .refl
  | dispatchRecord =>
    obtain rfl := some.inj hm
    obtain ⟨stop, hc⟩ := dropResult_eq_ok.1 hc
    exact dispatchRecord_touchesOnly hc
  | onDeadJob =>
    have hc := raising_eq_ok.1 hc
    rw [onDeadJob_stale hm hstale, ok.injEq] at hc
    exact hc ▸ .refl
  | _ => cases hm

namespace Db

variable {db : Db} {id : RunId} {d : RunData}

section

variable (hd : db.getRun id = some d)
include hd

theorem touched_self : db.Fact id (TouchesOnly m d) := ⟨d, hd, .refl⟩

theorem touched_store {u : Session} (hu : TouchesOnly m d u.toRunData) :
    (db.store u).Fact id (TouchesOnly m d) :=
  System.fact_store hd (by rw [hu.run]) hu

theorem touched_onRun {f : Session → Except JobError Session} {db' : Db}
    (hf : ∀ {t : Session}, f (db.session d) = .ok t → TouchesOnly m d t.toRunData)
    (h : db.onRun id f = .ok db') : db'.Fact id (TouchesOnly m d) := by
  obtain ⟨d₁, u, hd₁, hu, rfl⟩ := onRun_eq_ok h
  obtain rfl := some.inj (hd.symm.trans hd₁)
  exact touched_store hd (hf hu)

theorem commit_stale {op : DbOp} (hstale : m ≠ d.run.currentAttempt)
    (hop : op.carries id = some m) :
    (db.commit G clk op).Fact id (TouchesOnly m d) := by
  unfold commit
  split
  · rename_i db' hexec
    unfold DbOp.carries at hop
    split at hop
    · obtain ⟨rfl, hc⟩ := ite_none_right_eq_some.1 hop
      exact touched_onRun hd (fun ht => RunCall.touchesOnly hc hstale (raising_eq_ok.1 ht)) hexec
    · obtain ⟨rfl, hc⟩ := ite_none_right_eq_some.1 hop
      exact touched_onRun hd (fun ht => WorkerCall.touchesOnly hc hstale ht) hexec
    · cases hop
  · exact touched_self hd

theorem settle_stale {times : ℕ → Clock} {locked : List RunId} {job : Job} {db' : Db}
    (hstale : m ≠ d.run.currentAttempt)
    (hjob : job.payload.runId = some id ∧ job.payload.attempt = some m)
    (h : settleUnlocked times locked db job = .ok db') : db'.Fact id (TouchesOnly m d) := by
  unfold settleUnlocked at h
  split at h
  · exact ok.inj h ▸ touched_self hd
  · rename_i r hr
    rw [hjob.1, filter_eq_some_iff] at hr
    obtain rfl := some.inj hr.1
    rw [hd] at h
    obtain ⟨u, hu, h⟩ := bind_eq_ok.1 h
    have hu := raising_eq_ok.1 hu
    rw [onDeadJob_stale hjob.2 hstale, ok.injEq] at hu
    exact ok.inj h ▸ touched_store hd (hu ▸ .refl)

end

end Db

namespace System

variable {s s' : System} {h : Handler} {type : JobType} {id : RunId} {d : RunData}

theorem raise_stale {created : Bool} (hd : s.db.getRun id = some d) :
    (s.raise created h).db.Fact id (TouchesOnly m d) := by
  unfold raise
  split
  · rename_i spec _
    cases created
    · exact touched_self hd
    · refine touched_self ?_
      show (s.startContainer spec).db.getRun id = some d
      rw [(startContainer_frame spec s).1, hd]
  · exact touched_self hd
  · exact touched_self hd
  · exact touched_self hd

section Steps

variable (hjob : h.job.IsFor type id m) (hd : s.db.getRun id = some d)
  (hstale : m ≠ d.run.currentAttempt)

include hjob hd hstale

theorem failJob_stale {random : ℚ} {retryable : Bool} {db : Db}
    (hf : failJob clk random h retryable s.db = .ok db) : db.Fact id (TouchesOnly m d) := by
  unfold failJob at hf
  rw [hjob.2] at hf
  split at hf
  · rename_i jobs r _ hrun
    obtain rfl := some.inj hrun
    have hd' : Db.getRun id { s.db with jobs } = some d := hd
    refine touched_onRun hd' (fun ht => ?_) hf
    have ht := raising_eq_ok.1 ht
    rw [onDeadJob_stale rfl hstale, ok.injEq] at ht
    exact ht ▸ .refl
  · exact ok.inj hf ▸ ⟨d, hd, .refl⟩

variable (htype : type ≠ .runCancel)

include htype

theorem begin_stale : (s.begin settings catalog clk h).db.Fact id (TouchesOnly m d) := by
  unfold begin
  rw [hjob.2]
  split
  · rename_i hpayload
    simp only [JobPayload.ofRun, JobPayload.mk.injEq, some.injEq] at hpayload
    obtain ⟨rfl, rfl, -⟩ := hpayload
    have hprepare : s.db.withRun id (dispatchPrepare settings catalog clk m)
        = .ok (none, s.db.store (s.db.session d)) := by
      unfold Db.withRun
      rw [hd]
      simp only [dispatchPrepare_stale (s := s.db.session d) hstale]
      rfl
    unfold prepare
    rw [hprepare]
    exact touched_store hd .refl
  · exact absurd (hjob.1.symm.trans ‹_›) htype
  · unfold readStop
    split <;> exact touched_self hd
  · exact touched_self hd

theorem advance_stale {random : ℚ} (hpc : HandlerSound s.db s.calls h.job h.pc) :
    (s.advance settings catalog clk random h).db.Fact id (TouchesOnly m d) := by
  unfold advance
  split
  · exact begin_stale hjob hd hstale htype
  · rename_i spec _
    refine touched_self ?_
    show (s.startContainer spec).db.getRun id = some d
    rw [(startContainer_frame spec s).1, hd]
  · rename_i spec hspec
    rw [hspec] at hpc
    obtain ⟨-, rfl, rfl⟩ := hjob.unique hpc.1.1
    unfold record
    split
    · exact touched_self hd
    · rename_i stop db hrecord
      obtain ⟨d₁, u, hd₁, hu, rfl⟩ := withRun_eq_ok hrecord
      obtain rfl := some.inj (hd.symm.trans hd₁)
      exact touched_store hd (dispatchRecord_touchesOnly hu)
  · exact touched_self hd
  · exact touched_self hd
  · rename_i r ref hcancel
    rw [hcancel] at hpc
    obtain ⟨⟨n, hfor⟩, -⟩ := hpc
    exact absurd (hjob.unique hfor).1 htype
  · exact touched_self hd
  · exact ⟨d, hd, .refl⟩
  · split
    · exact failJob_stale hjob hd hstale ‹_›
    · exact touched_self hd

end Steps

theorem step_stale {a : Action} (hs : Sound s) (hh : h ∈ s.handlers)
    (hjob : h.job.IsFor type id m) (htype : type ≠ .runCancel) (hd : s.db.getRun id = some d)
    (hstale : m ≠ d.run.currentAttempt) (ha : a.handler = some h.id)
    (hstep : step G settings a s = some s') : s'.db.Fact id (TouchesOnly m d) := by
  have hget := hs.getHandler hh
  cases a with
  | advance =>
    obtain rfl := some.inj ha
    simp only [step, hget, map_some, some.injEq] at hstep
    exact hstep ▸ advance_stale hjob hd hstale htype (hs.handlers h hh)
  | raise =>
    obtain rfl := some.inj ha
    simp only [step, hget, map_some, some.injEq] at hstep
    exact hstep ▸ raise_stale hd
  | crash | keepLease =>
    obtain rfl := some.inj ha
    simp only [step, hget, map_some, some.injEq] at hstep
    exact hstep ▸ ⟨d, hd, .refl⟩
  | _ => cases ha

end System

/-- Whatever names an attempt that is not the run's current one, a transaction, a dead job of the
reconciler or a handler of its job, leaves the run as it was but for what it notes in the row of
that attempt. -/
theorem stale_touches_only (G : Guards) (settings : Settings) :
    (∀ (db : Db) id d m, db.getRun id = some d → m ≠ d.run.currentAttempt →
      (∀ clk op, op.carries id = some m → (db.commit G clk op).Fact id (TouchesOnly m d))
      ∧ ∀ times locked job db', job.payload.runId = some id ∧ job.payload.attempt = some m →
        settleUnlocked times locked db job = .ok db' → db'.Fact id (TouchesOnly m d))
    ∧ ∀ actions s, (system G settings).run actions System.init = some s →
      ∀ id d m, s.db.getRun id = some d → m ≠ d.run.currentAttempt →
      ∀ h ∈ s.handlers, ∀ type, h.job.IsFor type id m → type ≠ .runCancel →
      ∀ a s', a.handler = some h.id → (system G settings).step a s = some s' →
        s'.db.Fact id (TouchesOnly m d) := by
  refine ⟨fun db id d m hd hstale => ⟨fun clk op => commit_stale hd hstale, ?_⟩, ?_⟩
  · exact fun times locked job db' hjob => settle_stale hd hstale hjob
  · intro actions s hrun id d m hd hstale h hh type hjob htype a s' ha hstep
    have hs : System.Sound s :=
      Machine.run_keeps (fun a u t hu hstep => hu.step hstep) actions .init hrun
    exact System.step_stale hs hh hjob htype hd hstale ha hstep

/-- The container of a first attempt exits after the retry. -/
theorem lateExit_touches_only : ∃ db d,
    (dbMachine plainGuards).run retriedOps Db.empty = some db ∧ db.getRun 0 = some d
    ∧ d.run.currentAttempt = 2
    ∧ (db.commit plainGuards (fun _ => 5) (.client (.call 0
      (.recordContainerExit none 1 ⟨0, 1⟩ (some 137) false none)))).Fact 0 (TouchesOnly 1 d) := by
  obtain ⟨db, d, hrun, hd, hcur⟩ : ∃ db d, (dbMachine plainGuards).run retriedOps Db.empty = some db
      ∧ db.getRun 0 = some d ∧ d.run.currentAttempt = 2 := ⟨_, _, rfl, rfl, rfl⟩
  have hstale : 1 ≠ d.run.currentAttempt := by rw [hcur]; decide
  exact ⟨db, d, hrun, hd, hcur,
    ((stale_touches_only plainGuards plainSettings).1 db 0 d 1 hd hstale).1 _ _ rfl⟩

end Crewquarters
