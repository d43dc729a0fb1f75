import Crewquarters.Proofs.Models
import Crewquarters.Proofs.Queue

/-!
# What a step of the gateway does

`Gateway.Did` takes a step apart once: a transaction of a client or of the reaper, a claim, a
handler's move with or without a transaction, the end of a job, or the loss of a handler. The
invariants of the gateway are proved case by case over it.
-/

namespace Crewquarters

open Option GatewayDb

def GatewayPc.kind : GatewayPc → Option JobType
  | .start | .returned | .raised => none
  | .stopping | .stopped _ => some .modelUnload
  | _ => some .modelLoad

/-- The handler did its last transaction on the instance, or found nothing to do. -/
def GatewayPc.finished : GatewayPc → Bool
  | .returned => true
  | _ => false

namespace Gateway

def claimed (settings : GatewaySettings) (worker : WorkerId) (now : Time) (j : Job)
    (s : Gateway) : Gateway :=
  { s.setJobs (s.db.jobs.update (fun k => k.id = j.id)
      (JobTable.lease worker settings.jobLeaseSeconds now)) with
    handlers := s.handlers
      ++ [⟨s.nextHandler, worker, JobTable.lease worker settings.jobLeaseSeconds now j, .start⟩]
    nextHandler := s.nextHandler + 1 }

/-- The unload handler's last transaction would load the model again. -/
def reloads (report : Json) (modelId : ModelId) (db : GatewayDb) : Bool :=
  GatewayDb.containerRemoved report && !(db.activeLeases modelId).isEmpty
    && (Table.get Model.id modelId db.models).any fun m => m.inst.state = .draining

def residency (resident : Bool) (modelId : ModelId) (db : GatewayDb) : Bool :=
  (Table.get Model.id modelId db.models).any fun m => m.inst.state.resident = resident

def starts (settings : GatewaySettings) : GatewayAction → Gateway → List DedupeKey
  | .acquire capacity now due modelId holderType holderId label ttl, s =>
    if (s.db.acquire settings capacity now due modelId holderType holderId label ttl).isOk
      && residency false modelId s.db then [.load modelId] else []
  | .unload released due modelId force, s =>
    if (s.db.unload released due modelId force).isOk && residency true modelId s.db
    then [.unload modelId] else []
  | .drainIdle now _ locked, s =>
    ((s.db.models.map Model.id).filter fun modelId =>
      modelId ∉ locked && s.db.idleDue settings now modelId).map .unload
  | .advance id _ _ (.value _ _ _), s =>
    match s.getHandler id with
    | none => []
    | some h => match h.pc, h.job.payload.modelId with
      | .stopped report, some modelId =>
        if reloads report modelId s.db then [.load modelId] else []
      | _, _ => []
  | _, _ => []

/-- Every step is one of these. The jobs of loads and drains that begin have keys with `allowed`. -/
inductive Did (settings : GatewaySettings) (allowed : DedupeKey → Prop) (s : Gateway) :
    GatewayAction → Gateway → Prop where
  | commit {a db} (shifts : GatewayDb.Shifts settings allowed s.db db) :
      Did settings allowed s a (s.setDb db)
  | claim {worker locked now j} (idle : ∀ h ∈ s.handlers, h.worker ≠ worker)
      (row : j ∈ s.db.jobs.rows) (available : j.state = .available) :
      Did settings allowed s (.claim worker locked now) (s.claimed settings worker now j)
  /-- a handler goes on, and has more to do -/
  | work {a h pc db} (handler : h ∈ s.handlers) (next : pc.finished = false)
      (kind : pc.kind = none ∨ pc.kind = h.pc.kind
        ∨ (pc.kind = some .modelLoad ∧ h.job.type = .modelLoad))
      (shifts : GatewayDb.Shifts settings allowed s.db db) :
      Did settings allowed s a ((s.setDb db).goto h pc)
  /-- a load handler is done: the model is not loading any more -/
  | loaded {a h modelId db} (handler : h ∈ s.handlers)
      (payload : h.job.payload.modelId = some modelId)
      (type : h.pc.kind = some .modelLoad ∨ h.job.type = .modelLoad)
      (shifts : GatewayDb.Shifts settings allowed s.db db)
      (settled : ∀ m, Table.get Model.id modelId db.models = some m → m.inst.state ≠ .loading) :
      Did settings allowed s a ((s.setDb db).goto h .returned)
  | unloadBegin {a h modelId r db} (handler : h ∈ s.handlers)
      (payload : h.job.payload.modelId = some modelId) (type : h.job.type = .modelUnload)
      (start : h.pc = .start) (began : s.db.unloadBegin modelId = .ok (r, db)) :
      Did settings allowed s a ((s.setDb db).goto h (if r = none then .returned else .stopping))
  | unloadFinish {clk random reply h modelId report db} (handler : h ∈ s.handlers)
      (payload : h.job.payload.modelId = some modelId) (pc : h.pc = .stopped report)
      (finished : s.db.unloadFinish (clk 0) (clk 1) report modelId = .ok db)
      (allow : reloads report modelId s.db = true → allowed (.load modelId)) :
      Did settings allowed s (.advance h.id clk random reply) ((s.setDb db).goto h .returned)
  | complete {a h now} (handler : h ∈ s.handlers) (pc : h.pc = .returned) : Did settings allowed s a
        ((s.setJobs (s.db.jobs.update (JobTable.owned h.job.id h.worker)
          (JobTable.endAs .succeeded now))).drop h)
  | fail {clk random v healthy late h} (handler : h ∈ s.handlers) (pc : h.pc = .raised) :
      Did settings allowed s (.advance h.id clk random (.value v healthy late))
        ((s.setJobs (s.db.jobs.fail h.job.id h.worker true random (clk 0)).2).drop h)
  /-- the handler is gone, its job stays as it is -/
  | lost {a h} (handler : h ∈ s.handlers)
      (how : h.pc = .returned ∨ a = .crash h.id ∨ (h.pc = .raised
        ∧ ∃ clk random reply, a = .advance h.id clk random reply
          ∧ ∀ v healthy late, reply ≠ .value v healthy late)) : Did settings allowed s a (s.drop h)
  | keepLease {a h now} (handler : h ∈ s.handlers) :
      Did settings allowed s a (s.setJobs (s.db.jobs.update (JobTable.owned h.job.id h.worker)
        fun j => { j with leaseUntil := some (now + settings.jobLeaseSeconds) }))
  | reapJobs {now} : Did settings allowed s (.reapJobs now)
      (s.setJobs (s.db.jobs.update (JobTable.expired now) (JobTable.reaped now)))

variable {settings : GatewaySettings} {allowed : DedupeKey → Prop} {s t : Gateway}
  {a : GatewayAction} {h : GatewayHandler} {modelId : ModelId}
variable {pc : GatewayPc} {reply : Reply}

theorem did_goto (hh : h ∈ s.handlers) (hnext : pc.finished = false)
    (hkind : pc.kind = none ∨ pc.kind = h.pc.kind
      ∨ (pc.kind = some .modelLoad ∧ h.job.type = .modelLoad)) :
    Did settings allowed s a (s.goto h pc) :=
  .work hh hnext hkind .refl

theorem did_raise (hh : h ∈ s.handlers) : Did settings allowed s a (s.goto h .raised) :=
  did_goto hh rfl (.inl rfl)

theorem finished_of_kind {type : JobType} (h : pc.kind = some type) : pc.finished = false := by
  cases pc <;> first | rfl | exact absurd h (by simp [GatewayPc.kind])

theorem kind_caught (h : pc.kind = some .modelLoad) : (caught reply pc).kind = some .modelLoad := by
  cases reply
  · exact h
  all_goals rfl

theorem kind_polled (endpoint state : Json) (healthy late : Bool) :
    (polled endpoint state healthy late).kind = some .modelLoad := by
  unfold polled
  dsimp only
  split
  · rfl
  · rfl
  · rfl
  · split_ifs <;> rfl

section

variable (hh : h ∈ s.handlers)
include hh

theorem did_load (hpc : h.pc.kind = some .modelLoad) (hnext : pc.kind = some .modelLoad) :
    Did settings allowed s a (s.goto h pc) :=
  did_goto hh (finished_of_kind hnext) (.inr (.inl (hnext.trans hpc.symm)))

theorem did_stage {text : String} (hpc : h.pc.kind = some .modelLoad)
    (hnext : pc.kind = some .modelLoad) :
    Did settings allowed s a (s.stage text h modelId reply pc) := by
  cases reply with
  | value =>
    exact .work hh (finished_of_kind hnext) (.inr (.inl (hnext.trans hpc.symm)))
      (setStage_shifts text modelId)
  | error | exception => exact did_load hh hpc rfl

section Payload
variable (hpayload : h.job.payload.modelId = some modelId)
include hpayload

theorem did_loaded {x : Except PlatformError GatewayDb} (hpc : h.pc.kind = some .modelLoad)
    (hx : ∀ db, x = .ok db → GatewayDb.Shifts settings allowed s.db db ∧ ∀ m,
      Table.get Model.id modelId db.models = some m → m.inst.state ≠ .loading) :
    Did settings allowed s a (s.commitGoto h .returned x) := by
  cases x with
  | error => exact did_raise hh
  | ok db => exact .loaded hh hpayload (.inl hpc) (hx db rfl).1 (hx db rfl).2

theorem did_beginLoad (htype : h.job.type = .modelLoad) :
    Did settings allowed s a (s.beginLoad h modelId) := by
  unfold beginLoad
  split
  · exact did_raise hh
  · rename_i m hm
    split_ifs with hstate
    · refine .loaded hh hpayload (.inr htype) .refl fun k hk => ?_
      rw [rows_eq_ok.1 hm, some.injEq] at hk
      exact hk ▸ hstate
    · exact did_goto hh rfl (.inr (.inr ⟨rfl, htype⟩))

theorem did_beginUnload (htype : h.job.type = .modelUnload) (hpc : h.pc = .start) :
    Did settings allowed s a (s.beginUnload h modelId) := by
  unfold beginUnload
  split
  · exact did_raise hh
  · exact .unloadBegin hh hpayload htype hpc ‹_›
  · exact .unloadBegin hh hpayload htype hpc ‹_›

theorem did_handle {clk : ℕ → Time} {random : ℚ} (hget : s.getHandler h.id = some h)
    (hallow : ∀ key ∈ starts settings (.advance h.id clk random reply) s, allowed key) :
    Did settings allowed s (.advance h.id clk random reply) (s.handle clk reply h modelId) := by
  unfold handle
  split
  case h_1 hpc => exact did_stage hh (by rw [hpc]; rfl) rfl
  case h_2 hpc => exact did_load hh (by rw [hpc]; rfl) (kind_caught rfl)
  case h_3 hpc => exact did_stage hh (by rw [hpc]; rfl) rfl
  case h_4 hpc => exact did_load hh (by rw [hpc]; rfl) rfl
  case h_5 hpc _ => exact did_load hh (by rw [hpc]; rfl) (kind_caught rfl)
  case h_6 hpc => exact did_stage hh (by rw [hpc]; rfl) rfl
  case h_7 hpc => exact did_load hh (by rw [hpc]; rfl) (kind_polled ..)
  case h_8 hpc _ => exact did_load hh (by rw [hpc]; rfl) (kind_caught rfl)
  case h_9 hpc => exact did_stage hh (by rw [hpc]; rfl) rfl
  case h_10 hpc => exact did_raise hh
  case h_11 hpc _ => exact did_load hh (by rw [hpc]; rfl) rfl
  case h_12 hpc => exact did_goto hh rfl (.inr (.inl (by rw [hpc]; rfl)))
  case h_13 hpc =>
    exact did_loaded hh hpayload (by rw [hpc]; rfl) fun db hdb =>
      ⟨finishLoad_shifts hdb, finishLoad_settled hdb⟩
  case h_14 hpc =>
    exact did_loaded hh hpayload (by rw [hpc]; rfl) fun db hdb =>
      ⟨failLoad_shifts hdb, failLoad_settled hdb⟩
  case h_15 hpc =>
    unfold commitGoto
    split
    · refine .unloadFinish hh hpayload hpc ‹_› fun hreloads => hallow _ ?_
      simp [starts, hget, hpc, hpayload, hreloads]
    · exact did_raise hh
  case h_16 hpc =>
    split
    · exact did_beginLoad hh hpayload ‹_›
    · exact did_beginUnload hh hpayload ‹_› hpc
    · exact did_raise hh
  case h_17 => exact did_raise hh

end Payload

theorem did_advance {clk : ℕ → Time} {random : ℚ} (hget : s.getHandler h.id = some h)
    (hallow : ∀ key ∈ starts settings (.advance h.id clk random reply) s, allowed key) :
    Did settings allowed s (.advance h.id clk random reply) (s.advance clk random reply h) := by
  unfold advance
  split
  case h_1 hpc => exact .complete hh hpc
  case h_2 hpc => exact .fail hh hpc
  case h_3 hpc _ => exact .lost hh (.inl hpc)
  case h_4 hpc hreply =>
    exact .lost hh (.inr (.inr ⟨hpc, clk, random, _, rfl, hreply⟩))
  case h_5 =>
    split
    · exact did_raise hh
    · exact did_handle hh ‹_› hget hallow

end

theorem did_claim {worker : WorkerId} {locked : List ℕ} {now : Time}
    (hstep : s.claim settings worker locked now = some t) :
    Did settings allowed s (.claim worker locked now) t := by
  unfold claim at hstep
  split at hstep
  · simp at hstep
  · rename_i hbusy
    have hidle : ∀ h ∈ s.handlers, h.worker ≠ worker := by simpa using hbusy
    split at hstep
    · simp at hstep
    · rename_i hclaim
      obtain ⟨j, hj, havailable, rfl, rfl⟩ := JobTable.claim_cases hclaim
      rw [some.injEq] at hstep
      exact hstep ▸ .claim hidle hj havailable

theorem did_commit {x : Except PlatformError GatewayDb}
    (hx : ∀ db, x = .ok db → GatewayDb.Shifts settings allowed s.db db) :
    Did settings allowed s a (s.commit x) := by
  cases x with
  | error => exact .commit .refl
  | ok db => exact .commit (hx db rfl)

theorem getHandler_spec {id : ℕ} (h' : s.getHandler id = some h) : h ∈ s.handlers ∧ h.id = id :=
  ⟨Table.get_mem h', Table.get_key h'⟩

theorem any_get {p : Model → Bool} {m : Model}
    (hm : Table.get Model.id modelId s.db.models = some m) (hp : p m = true) :
    (Table.get Model.id modelId s.db.models).any p = true := by
  rw [hm]
  exact hp

theorem did_of_step (hn : (s.db.models.map Model.id).Nodup)
    (hallow : ∀ key ∈ starts settings a s, allowed key)
    (hstep : step settings a s = some t) : Did settings allowed s a t := by
  cases a with
  | acquire capacity now due modelId holderType holderId label ttl =>
    rw [← some.inj hstep]
    refine did_commit fun db hdb => ?_
    cases hacq : s.db.acquire settings capacity now due modelId holderType holderId label ttl with
    | error => simp [hacq, Except.map] at hdb
    | ok r =>
      obtain ⟨lease, db'⟩ := r
      obtain rfl : db' = db := by simpa [hacq, Except.map] using hdb
      refine acquire_shifts hacq fun m hm hres => hallow _ ?_
      have hresidency : residency false modelId s.db = true := any_get hm (by simp [hres])
      simp [starts, hacq, Except.isOk, Except.toBool, hresidency]
  | release | releaseHolder =>
    rw [← some.inj hstep]
    exact .commit (releaseAll_shifts ..)
  | unload released due modelId =>
    rw [← some.inj hstep]
    refine did_commit fun db hdb => unload_shifts hdb fun m hm hres => hallow _ ?_
    have hresidency : residency true modelId s.db = true := any_get hm (by simp [hres])
    simp [starts, hdb, Except.isOk, Except.toBool, hresidency]
  | refreshInstallation files modelId =>
    rw [← some.inj hstep]
    exact .commit (refreshInstallation_shifts files modelId)
  | claim => exact did_claim hstep
  | advance =>
    obtain ⟨h, hget, rfl⟩ := map_eq_some_iff.1 hstep
    obtain ⟨hmem, rfl⟩ := getHandler_spec hget
    exact did_advance hmem hget hallow
  | crash =>
    obtain ⟨h, hget, rfl⟩ := map_eq_some_iff.1 hstep
    obtain ⟨hmem, rfl⟩ := getHandler_spec hget
    exact .lost hmem (.inr (.inl rfl))
  | keepLease =>
    obtain ⟨h, hget, rfl⟩ := map_eq_some_iff.1 hstep
    exact .keepLease (getHandler_spec hget).1
  | reapJobs =>
    rw [← some.inj hstep, reapExpired_table]
    exact .reapJobs
  | expireLeases =>
    rw [← some.inj hstep]
    exact .commit (releaseAll_shifts ..)
  | drainIdle now due locked =>
    rw [← some.inj hstep]
    refine .commit (drainIdle_shifts due locked hn fun id hmem hlocked hdue =>
      hallow _ ?_)
    refine List.mem_map_of_mem (List.mem_filter.2 ⟨hmem, ?_⟩)
    simp [hlocked, hdue]
  | markCrashed =>
    rw [← some.inj hstep]
    exact did_commit fun db => markCrashed_shifts
  | adopt =>
    rw [← some.inj hstep]
    exact did_commit fun db => adopt_shifts
  | failStuck =>
    rw [← some.inj hstep]
    exact did_commit fun db => failLoad_shifts
  | requeueUnload due modelId =>
    rw [← some.inj hstep]
    exact .commit (.single (.requeue modelId))

/-- What a step does to models and leases: a sequence of changes, or the unload handler's last
transaction. -/
theorem Did.tables (hdid : Did settings allowed s a t) :
    (∃ db, GatewayDb.Shifts settings allowed s.db db ∧ t.db.models = db.models
      ∧ t.db.leases = db.leases)
    ∨ ∃ modelId now due report, s.db.unloadFinish now due report modelId = .ok t.db
      ∧ (reloads report modelId s.db = true → allowed (.load modelId)) := by
  cases hdid with
  | commit shifts | work _ _ _ shifts | loaded _ _ _ shifts => exact .inl ⟨_, shifts, rfl, rfl⟩
  | unloadBegin _ _ _ _ began => exact .inl ⟨_, unloadBegin_shifts began, rfl, rfl⟩
  | unloadFinish _ _ _ finished allow => exact .inr ⟨_, _, _, _, finished, allow⟩
  | claim | complete | fail | lost | keepLease | reapJobs => exact .inl ⟨s.db, .refl, rfl, rfl⟩

theorem tables_of_step (hn : (s.db.models.map Model.id).Nodup)
    (hstep : step settings a s = some t) :
    (∃ db, GatewayDb.Shifts settings (fun _ => True) s.db db ∧ t.db.models = db.models
      ∧ t.db.leases = db.leases)
    ∨ ∃ modelId now due report, s.db.unloadFinish now due report modelId = .ok t.db := by
  have hdid : Did settings (fun _ => True) s a t := did_of_step hn (fun _ _ => trivial) hstep
  rcases hdid.tables with hshifts | ⟨modelId, now, due, report, hfinish, -⟩
  · exact .inl hshifts
  · exact .inr ⟨modelId, now, due, report, hfinish⟩

end Gateway

end Crewquarters
