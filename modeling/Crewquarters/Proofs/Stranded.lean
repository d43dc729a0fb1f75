import Crewquarters.Proofs.Steps

/-!
# Runs and the jobs that move them on

A `QUEUED` run waits for its dispatch job and a `CANCELLING` run for its cancel job; neither state
is watched by the reconciler. A run that waits has a live job as long as nothing takes the job away
without settling the run: the model gateway's reaping does, and so does a tick that finds the run
locked.
-/

namespace Crewquarters

open Option

variable {db db' : Db} {s t : Session} {ex : Job → Prop} {type : JobType} {r : RunId} {n : ℕ}
  {d : RunData} {locked : List RunId}

def RunData.Waits (type : JobType) (d : RunData) : Prop :=
  (type = .runDispatch ∧ d.run.state = .queued) ∨ (type = .runCancel ∧ d.run.state = .cancelling)

instance (type : JobType) (d : RunData) : Decidable (d.Waits type) :=
  inferInstanceAs (Decidable (_ ∨ _))

instance (type : JobType) (r : RunId) (n : ℕ) (t : JobTable) : Decidable (t.LiveFor type r n) :=
  inferInstanceAs (Decidable (∃ j ∈ t.rows, _))

/-- Every run that waits for a job has a live one for its current attempt. -/
def Db.NoneStranded (db : Db) : Prop :=
  ∀ d ∈ db.runs,
    (d.run.state = .queued → db.jobs.LiveFor .runDispatch d.run.id d.run.currentAttempt)
    ∧ (d.run.state = .cancelling → db.jobs.LiveFor .runCancel d.run.id d.run.currentAttempt)

instance (db : Db) : Decidable db.NoneStranded := inferInstanceAs (Decidable (∀ d ∈ db.runs, _))

/-- Every run that waits has a live job, or one of those `ex` excuses. -/
def Db.Covered (ex : Job → Prop) (db : Db) : Prop :=
  ∀ d ∈ db.runs, ∀ type, d.Waits type →
    db.jobs.LiveFor type d.run.id d.run.currentAttempt
      ∨ ∃ j, ex j ∧ j.IsFor type d.run.id d.run.currentAttempt

theorem noneStranded_iff : db.NoneStranded ↔ db.Covered fun _ => False := by
  constructor
  · rintro h d hd type (⟨rfl, hs⟩ | ⟨rfl, hs⟩)
    · exact .inl ((h d hd).1 hs)
    · exact .inl ((h d hd).2 hs)
  · intro h d hd
    refine ⟨fun hs => ?_, fun hs => ?_⟩
    · exact (h d hd .runDispatch (.inl ⟨rfl, hs⟩)).resolve_right fun ⟨_, hf, _⟩ => hf
    · exact (h d hd .runCancel (.inr ⟨rfl, hs⟩)).resolve_right fun ⟨_, hf, _⟩ => hf

theorem RunData.Waits.handled (h : d.Waits type) : type ∈ System.handledTypes := by
  rcases h with ⟨rfl, -⟩ | ⟨rfl, -⟩ <;> decide

/-- A transaction leaves the other runs' jobs live, and its own run covered if it was. -/
structure Covers (s t : Session) : Prop where
  id : t.run.id = s.run.id
  others : ∀ {type r n}, r ≠ s.run.id → s.jobs.LiveFor type r n → t.jobs.LiveFor type r n
  own : ∀ {type}, t.Waits type → t.jobs.LiveFor type t.run.id t.run.currentAttempt
    ∨ (s.Waits type ∧ t.run.currentAttempt = s.run.currentAttempt ∧ t.jobs = s.jobs)

theorem Covers.of_jobs (hid : t.run.id = s.run.id) (hjobs : t.jobs = s.jobs)
    (hwaits : ∀ {type}, t.Waits type →
      s.Waits type ∧ t.run.currentAttempt = s.run.currentAttempt) : Covers s t where
  id := hid
  others _ h := hjobs ▸ h
  own h := .inr ⟨(hwaits h).1, (hwaits h).2, hjobs⟩

theorem liveFor_cancelByDedupe {t : JobTable} {r' : RunId} {n' : ℕ} {now : Time}
    (hj : JobsSound t) (hr : r ≠ r') (h : t.LiveFor type r n) :
    (t.cancelByDedupe (dispatchKey r' n') now).2.LiveFor type r n := by
  refine h.update (fun _ => rfl) fun j hmem _ hfor hp => ?_
  obtain ⟨type', ht, r'', n'', hfor', hkey⟩ := hj.shape j hmem
  obtain ⟨rfl, rfl, rfl⟩ := hfor.unique hfor'
  simp only [Bool.and_eq_true, decide_eq_true_eq] at hp
  have heq : runKey type r n = runKey .runDispatch r' n' :=
    some.inj (hkey.symm.trans hp.1)
  exact absurd (runKey_injective ht (by decide) heq).2.1 hr

theorem Turn.covers (h : Turn s t) (hj : JobsSound s.jobs) : Covers s t := by
  cases h with
  | silent kept attempt ends jobs move =>
    refine .of_jobs kept.id jobs fun hw => ⟨?_, attempt⟩
    rcases move with heq | ⟨-, htarget⟩ | ⟨-, htarget⟩
    · unfold RunData.Waits at hw ⊢
      rwa [heq] at hw
    · rcases hw with ⟨-, hs⟩ | ⟨-, hs⟩ <;> simp [hs] at htarget
    · rcases hw with ⟨-, hs⟩ | ⟨-, hs⟩ <;> simp [hs] at htarget
  | unqueue kept attempt ends jobs source target =>
    obtain ⟨now, jobs⟩ := jobs
    refine ⟨kept.id, fun hr hl => ?_, fun hw => ?_⟩
    · rw [jobs]
      exact liveFor_cancelByDedupe hj hr hl
    · rcases hw with ⟨-, hs⟩ | ⟨-, hs⟩ <;> simp [hs] at target
  | cancel kept attempt ends jobs source target =>
    obtain ⟨due, jobs⟩ := jobs
    refine ⟨kept.id, fun _ hl => jobs ▸ hl.withJob .., fun hw => .inl ?_⟩
    rcases hw with ⟨-, hs⟩ | ⟨rfl, -⟩
    · simp [hs] at target
    · rw [jobs, kept.id, attempt]
      exact hj.liveFor_withJob (by decide)
  | retry kept attempt ends jobs source target =>
    obtain ⟨due, jobs⟩ := jobs
    refine ⟨kept.id, fun _ hl => jobs ▸ hl.withJob .., fun hw => .inl ?_⟩
    rcases hw with ⟨rfl, -⟩ | ⟨-, hs⟩
    · rw [jobs, kept.id, attempt]
      exact hj.liveFor_withJob (by decide)
    · simp [hs] at target
  | fail kept attempt ends jobs source target =>
    obtain ⟨due, jobs⟩ := jobs
    refine ⟨kept.id, fun _ hl => ?_, fun hw => ?_⟩
    · rw [jobs]
      split_ifs
      · exact hl.withJob ..
      · exact hl
    · rcases hw with ⟨-, hs⟩ | ⟨-, hs⟩ <;> simp [hs] at target

theorem Mint.covers {spec : RunSpec} (h : Mint s t spec) : Covers s t := by
  refine .of_jobs h.id h.jobs fun hw => ?_
  rcases hw with ⟨-, hs⟩ | ⟨-, hs⟩ <;> rw [h.target] at hs <;> cases hs

theorem Record.covers {ref : RuntimeRef} {stop : Bool} (h : Record s t n ref stop) :
    Covers s t := by
  refine .of_jobs (by rw [h.run]) h.jobs fun hw => ?_
  unfold RunData.Waits at hw
  rw [h.run] at hw ⊢
  exact ⟨hw, rfl⟩

theorem Cancelled.covers {read late : Option RuntimeRef} (h : Cancelled s t read late) :
    Covers s t := by
  refine .of_jobs h.kept.id h.jobs fun hw => ?_
  rcases hw with ⟨-, hs⟩ | ⟨-, hs⟩ <;> rw [h.target] at hs <;> cases hs

namespace Db.Covered

theorem mono {ex' : Job → Prop} (h : db.Covered ex)
    (hex : ∀ d ∈ db.runs, ∀ type, d.Waits type → ∀ j, ex j →
      j.IsFor type d.run.id d.run.currentAttempt → ex' j) : db.Covered ex' :=
  fun d hd type hw => (h d hd type hw).imp_right fun ⟨j, hj, hfor⟩ =>
    ⟨j, hex d hd type hw j hj hfor, hfor⟩

theorem store {u : Session} (h : db.Covered ex) (hd : db.getRun r = some d)
    (hc : Covers (db.session d) u) : (db.store u).Covered ex := by
  intro e he type hw
  have hid : u.run.id = d.run.id := hc.id
  rcases Table.mem_put he with rfl | ⟨he, hne⟩
  · rcases hc.own hw with hl | ⟨hw', hcur, hjobs⟩
    · exact .inl hl
    · have hold := h d (Table.get_mem hd) type hw'
      rw [hid, hcur]
      refine hold.imp_left fun hl => ?_
      show u.jobs.LiveFor type d.run.id d.run.currentAttempt
      rw [hjobs]
      exact hl
  · have hne' : e.run.id ≠ d.run.id := hid ▸ hne
    exact (h e he type hw).imp_left (hc.others hne')

theorem update {p : Job → Bool} {f : Job → Job} (h : db.Covered ex)
    (hf : ∀ j, (f j).core = j.core)
    (hp : ∀ d ∈ db.runs, ∀ type, d.Waits type → ∀ j ∈ db.jobs.rows,
      j.IsFor type d.run.id d.run.currentAttempt → p j = true → (f j).live = true
        ∨ ∃ k, ex k ∧ k.IsFor type d.run.id d.run.currentAttempt) :
    Covered ex { db with jobs := db.jobs.update p f } := by
  intro d hd type hw
  by_cases hex : ∃ k, ex k ∧ k.IsFor type d.run.id d.run.currentAttempt
  · exact .inr hex
  · refine .inl (((h d hd type hw).resolve_right hex).update hf fun j hj _ hfor hpj => ?_)
    exact (hp d hd type hw j hj hfor hpj).resolve_right hex

theorem update_live {p : Job → Bool} {f : Job → Job} (h : db.Covered ex)
    (hf : ∀ j, (f j).core = j.core) (hl : ∀ j, p j = true → j.live = true → (f j).live = true) :
    Covered ex { db with jobs := db.jobs.update p f } :=
  fun d hd type hw => (h d hd type hw).imp_left fun h => h.update hf fun j _ hj _ hp => hl j hp hj

end Db.Covered

def RunData.WaitsFor (j : Job) (d : RunData) : Prop :=
  ∃ type ∈ System.handledTypes, d.Waits type ∧ j.IsFor type d.run.id d.run.currentAttempt

instance (j : Job) (d : RunData) : Decidable (d.WaitsFor j) :=
  inferInstanceAs (Decidable (∃ type ∈ System.handledTypes, _))

theorem RunData.Waits.waitsFor {j : Job} (h : d.Waits type)
    (hfor : j.IsFor type d.run.id d.run.currentAttempt) : d.WaitsFor j := ⟨type, h.handled, h, hfor⟩

namespace Db.Covered

theorem reap {now : Time} (h : db.Covered ex)
    (hex : ∀ d ∈ db.runs, ∀ j ∈ db.jobs.rows, j.spent now = true → d.WaitsFor j → ex j) :
    Covered ex { db with jobs := (db.jobs.reapExpired now).2.2 } := by
  rw [reapExpired_table]
  refine h.update (reaped_core now) fun d hd type hw j hj hfor _ => ?_
  by_cases hs : j.spent now = true
  · exact .inr ⟨j, hex d hd j hj hs (hw.waitsFor hfor), hfor⟩
  · left
    simp only [JobTable.reaped, hs]
    rfl

/-- The dead jobs a tick has yet to settle, where it finds their runs unlocked. -/
def Unsettled (locked : List RunId) (dead : List Job) (j : Job) : Prop :=
  (∃ k ∈ dead, k.core = j.core) ∧ ∀ r, j.payload.runId = some r → r ∉ locked

theorem settled {job : Job} {dead : List Job} (h : db.Covered (Unsettled locked (job :: dead)))
    (hoff : ∀ d ∈ db.runs, ∀ type, d.Waits type → d.run.id ∉ locked →
      ¬ job.IsFor type d.run.id d.run.currentAttempt) : db.Covered (Unsettled locked dead) := by
  refine h.mono fun d hd type hw j hj hfor => ?_
  obtain ⟨⟨k, hk, hcore⟩, hlocked⟩ := hj
  refine ⟨?_, hlocked⟩
  rcases List.mem_cons.1 hk with rfl | hk
  · have hunlocked : d.run.id ∉ locked := hlocked _ (by rw [hfor.2]; rfl)
    exact absurd (hfor.of_core hcore) (hoff d hd type hw hunlocked)
  · exact ⟨k, hk, hcore⟩

theorem settleUnlocked {clk : ℕ → Clock} {job : Job} {dead : List Job} (hs : DbSound db)
    (h : db.Covered (Unsettled locked (job :: dead)))
    (hdb : settleUnlocked clk locked db job = .ok db') :
    DbSound db' ∧ db'.Covered (Unsettled locked dead) := by
  unfold Crewquarters.settleUnlocked at hdb
  split at hdb
  · rename_i hnone
    rw [Except.ok.injEq] at hdb
    subst hdb
    refine ⟨hs, h.settled fun d _ type _ hunlocked hfor => ?_⟩
    rw [hfor.2] at hnone
    simp [JobPayload.ofRun, hunlocked] at hnone
  · rename_i r hr
    have hpayload : job.payload.runId = some r := (filter_eq_some_iff.1 hr).1
    split at hdb
    · rename_i hnone
      rw [Except.ok.injEq] at hdb
      subst hdb
      refine ⟨hs, h.settled fun d hd type _ _ hfor => ?_⟩
      rw [hfor.2] at hpayload
      rw [← some.inj hpayload, hs.getRun hd] at hnone
      cases hnone
    · rename_i d hd
      obtain ⟨u, hu, hdb⟩ := bind_eq_ok.1 hdb
      rw [Except.ok.injEq] at hdb
      subst hdb
      have ha := (hs.run hd).attempts
      obtain ⟨hturn, hoff⟩ := onDeadJob_turn ha (raising_eq_ok.1 hu)
      have hu' := AttemptsSound.worker (c := .onDeadJob _ _) hu ha
      refine ⟨(hs.moves hd hturn.moves hu').1,
        (h.store hd (hturn.covers hs.jobs)).settled fun e he type hw _ hfor => ?_⟩
      rw [hfor.2] at hpayload hoff
      rcases Table.mem_put he with rfl | ⟨-, hne⟩
      · have := hoff rfl
        rcases hw with ⟨rfl, hq⟩ | ⟨rfl, hc⟩
        · exact this.1 ⟨hfor.1, hq⟩
        · exact this.2 ⟨hfor.1, hc⟩
      · refine hne ?_
        have hu : u.run.id = r := hturn.kept.id.trans (Db.getRun_id hd)
        exact (some.inj hpayload).trans hu.symm

theorem turns (hc : db.Covered ex) (h : Db.Turns db db') (hs : DbSound db) : db'.Covered ex := by
  induction h with
  | refl => exact hc
  | turn run turn sound _ ih =>
    exact ih (hc.store run (turn.covers hs.jobs)) (hs.moves run turn.moves sound).1

theorem tick (G : Guards) {clk : TickClock} (hs : DbSound db) (h : db.Covered fun _ => False)
    (hok : ∀ d ∈ db.runs, ∀ j ∈ db.jobs.rows, j.spent clk.reap = true → d.WaitsFor j →
      d.run.id ∉ locked) (ht : Crewquarters.tick clk locked db = .ok db') :
    db'.Covered fun _ => False := by
  obtain ⟨v, hv, ht⟩ := bind_eq_ok.1 ht
  have hreaped : DbSound { db with jobs := (db.jobs.reapExpired clk.reap).2.2 } := by
    rw [reapExpired_table]
    exact hs.update (reaped_core _)
  have hcovered : Covered (Unsettled locked (db.jobs.reapExpired clk.reap).2.1)
      { db with jobs := (db.jobs.reapExpired clk.reap).2.2 } := by
    refine (h.mono fun _ _ _ _ _ hf _ => hf.elim).reap fun d hd j hj hspent hw => ?_
    refine ⟨⟨_, mem_reapExpired_dead.2 ⟨j, hj, hspent, rfl⟩, rfl⟩, fun r hr => ?_⟩
    have hunlocked := hok d hd j hj hspent hw
    obtain ⟨type, -, -, hfor⟩ := hw
    rw [hfor.2] at hr
    exact some.inj hr ▸ hunlocked
  obtain ⟨hsv, hcv⟩ := foldlM_consumes
    (P := fun dead b => DbSound b ∧ b.Covered (Unsettled locked dead))
    (fun hb hjob => settleUnlocked hb.1 hb.2 hjob) ⟨hreaped, hcovered⟩ hv
  have hnone : v.Covered fun _ => False :=
    hcv.mono fun _ _ _ _ _ hj _ => by simpa using hj.1
  refine (foldlM_keeps (P := fun b => DbSound b ∧ b.Covered fun _ => False) ?_ ⟨hsv, hnone⟩ ht).2
  rintro b r b' ⟨hb, hc⟩ hr
  have hturns := Db.Turns.watchRun G (fun d hd => (hb.runs d hd).1.attempts) hr
  exact ⟨hturns.sound hb, hc.turns hturns hb⟩

theorem create {due : Time} (h : db.Covered ex) (hs : DbSound db) (hd : NewRun d) :
    (db.withNew d due).Covered ex := by
  intro e he type hw
  rcases List.mem_append.1 he with he | he
  · exact (h e he type hw).imp_left fun hl => hl.withJob ..
  · obtain rfl := List.mem_singleton.1 he
    rcases hw with ⟨rfl, -⟩ | ⟨-, hc⟩
    · rw [hd.currentAttempt]
      exact .inl (hs.jobs.liveFor_withJob (by decide))
    · rw [hd.state] at hc
      cases hc

end Db.Covered

namespace System

variable {s t : System} {h : Handler} {a : Action}

theorem Sound.not_waits (hs : Sound s) (hh : h ∈ s.handlers) (hpc : h.pc = .returned)
    (hd : d ∈ s.db.runs) {j : Job} (hj : j ∈ s.db.jobs.rows) (hid : j.id = h.job.id)
    (hfor : j.IsFor type d.run.id d.run.currentAttempt) : ¬ d.Waits type := by
  have hsound := hs.handlers h hh
  rw [hpc] at hsound
  have hd' := hs.db.getRun hd
  obtain ⟨k, hk, hcore⟩ := hs.jobs h hh
  have hkid : k.id = h.job.id := congrArg Prod.fst hcore
  obtain rfl := hs.db.jobs.eq_of_id hj hk (hid.trans hkid.symm)
  have hjob := hfor.of_core hcore.symm
  rintro (⟨rfl, hq⟩ | ⟨rfl, hc⟩)
  · have := ((hsound.1 hjob).get hd').phase_le
    rw [hq] at this
    exact absurd this (by decide)
  · have := ((hsound.2 hjob).get hd').phase_le
    rw [hc] at this
    exact absurd this (by decide)

/-- The jobs it reaps are jobs no run waits for, or a tick finds those runs unlocked. -/
def Settles : Action → System → Prop
  | .gatewayReap now, s => ∀ d ∈ s.db.runs, ∀ j ∈ s.db.jobs.rows, j.spent now = true →
    ¬ d.WaitsFor j
  | .tick clk locked, s => ∀ d ∈ s.db.runs, ∀ j ∈ s.db.jobs.rows, j.spent clk.reap = true →
    d.WaitsFor j → d.run.id ∉ locked
  | _, _ => True

instance : ∀ a s, Decidable (Settles a s)
  | .gatewayReap _, _ => inferInstanceAs (Decidable (∀ d ∈ _, _))
  | .tick _ _, _ => inferInstanceAs (Decidable (∀ d ∈ _, _))
  | .client _ _, _ | .claim _ _ _, _ | .advance _ _ _ _, _ | .raise _ _, _ | .crash _, _
  | .keepLease _ _, _ | .removed _, _ => isTrue trivial

theorem Sound.covered_die {r : RunId} {n : ℕ} {u : Session} {now : Time} (hs : Sound s)
    (hh : h ∈ s.handlers) (hc : s.db.Covered fun _ => False) (hjob : h.job.IsFor type r n)
    (hd : s.db.getRun r = some d) (hturn : Turn ((s.buried now h.job).db.session d) u)
    (hoff : u.run.currentAttempt = n → ¬ (type = .runDispatch ∧ u.run.state = .queued)
      ∧ ¬ (type = .runCancel ∧ u.run.state = .cancelling)) :
    ((s.buried now h.job).db.store u).Covered fun _ => False := by
  have hburied : (s.buried now h.job).db.Covered (· = h.job) := by
    have hexcused : s.db.Covered (· = h.job) := hc.mono fun _ _ _ _ _ hf _ => hf.elim
    refine hexcused.update (fun _ => rfl) fun e _ type' _ j hj hfor hid => .inr ⟨h.job, rfl, ?_⟩
    obtain ⟨k, hk, hcore⟩ := hs.jobs h hh
    have hkid : k.id = h.job.id := congrArg Prod.fst hcore
    obtain rfl := hs.db.jobs.eq_of_id hj hk ((of_decide_eq_true hid).trans hkid.symm)
    exact hfor.of_core hcore.symm
  refine (hburied.store hd (hturn.covers hs.bury.db.jobs)).mono fun e he type' hw j hj hfor => ?_
  subst hj
  obtain ⟨rfl, rfl, rfl⟩ := hjob.unique hfor
  rcases Table.mem_put he with rfl | ⟨-, hne⟩
  · have := hoff rfl
    rcases hw with ⟨rfl, hq⟩ | ⟨rfl, hc⟩
    · exact this.1 ⟨rfl, hq⟩
    · exact this.2 ⟨rfl, hc⟩
  · exact hne ((hturn.kept.id.trans (Db.getRun_id hd)).symm)

theorem covered_did (G : Guards) {settings : Settings} (hs : Sound s)
    (hc : s.db.Covered fun _ => False)
    (hok : Settles a s) (hdid : Did settings s a t) : t.db.Covered fun _ => False := by
  cases hdid with
  | refused => exact hc
  | call run turn => exact hc.store run (turn.covers hs.db.jobs)
  | create new => exact hc.create hs.db new
  | claim => exact hc.update_live (fun _ => rfl) fun _ _ _ => rfl
  | pass handler pc job run turn =>
    exact hc.store run (turn.covers hs.db.jobs)
  | mint handler pc job run mint => exact hc.store run mint.covers
  | start =>
    show (s.startContainer _).db.Covered _
    rw [(startContainer_frame _ s).1]
    exact hc
  | record handler pc run record => exact hc.store run record.covers
  | stop => exact hc
  | readCancel => exact hc
  | @cancel id catalog clk random h r read late d u handler pc run cancelled sound =>
    show ((s.withDb (s.db.store u)).stopLate late).db.Covered _
    rw [(stopLate_frame late _).1]
    exact hc.store run cancelled.covers
  | cancelOver handler pc run => exact hc.store run (Turn.refl.covers hs.db.jobs)
  | readStop => exact hc
  | failed => exact hc
  | raise => exact hc
  | raiseStarted =>
    show (s.startContainer _).db.Covered _
    rw [(startContainer_frame _ s).1]
    exact hc
  | crash => exact hc
  | giveUp => exact hc
  | complete handler pc =>
    refine hc.update (fun _ => rfl) fun d hd type hw j hj hfor hp => ?_
    simp only [JobTable.owned, Bool.and_eq_true, decide_eq_true_eq] at hp
    exact absurd hw (hs.not_waits (getHandler_mem handler) pc hd hj hp.1.1 hfor)
  | requeue => exact hc.update_live (fun _ => rfl) fun _ _ _ => rfl
  | die handler pc dead job run turn sound off =>
    exact hs.covered_die (getHandler_mem handler) hc job run turn off
  | keepLease => exact hc.update_live (fun _ => rfl) fun _ _ hl => hl
  | tick tick => exact hc.tick G hs.db hok tick
  | reap => exact hc.reap fun d hd j hj hspent hw => hok d hd j hj hspent hw
  | removed => exact hc

end System

/-- In every run of the system whose reapings settle the runs they take jobs from, no run is ever
stranded. -/
theorem none_stranded (G : Guards) (settings : Settings) (actions : List Action)
    (h : (system G settings).Meets System.Settles actions System.init) :
    (system G settings).Along (fun s => s.db.NoneStranded) actions System.init := by
  have halong : (system G settings).Along
      (fun s => s.Sound ∧ s.db.Covered fun _ => False) actions System.init := by
    refine Machine.along_of_meets (fun a s t hs hok hstep => ?_) actions
      ⟨.init, fun d hd => ?_⟩ h
    · have hdid := System.did_of_step hs.1 hstep
      exact ⟨hs.1.did hdid, System.covered_did G hs.1 hs.2 hok hdid⟩
    · simp [System.init, Db.empty] at hd
  exact halong.mono fun s hs => noneStranded_iff.2 hs.2

/-- A new run whose dispatch job is claimed five times, each time by a worker that dies. -/
def lostDispatch : List Action :=
  .client (fun _ => 0) createPlain :: (List.range 4).flatMap (fun i =>
    [.claim "w" [] (100 * i), .crash i, .gatewayReap (100 * i + 50)])
    ++ [.claim "w" [] 400, .crash 4]

theorem none_stranded_lostDispatch :
    (system plainGuards plainSettings).Meets System.Settles (lostDispatch ++ [tickAt 450 []])
      System.init
    ∧ (system plainGuards plainSettings).Along (fun s => s.db.NoneStranded)
      (lostDispatch ++ [tickAt 450 []]) System.init := by
  have h : (system plainGuards plainSettings).Meets System.Settles
      (lostDispatch ++ [tickAt 450 []]) System.init := by decide +kernel
  exact ⟨h, none_stranded _ _ _ h⟩

/-- The last lease is taken back by the model gateway, or by a tick while the run is locked: the
run stays `QUEUED` and no job is left for it. -/
theorem stranded_lostDispatch :
    ¬ (system plainGuards plainSettings).Along (fun s => s.db.NoneStranded)
      (lostDispatch ++ [.gatewayReap 450]) System.init
    ∧ ¬ (system plainGuards plainSettings).Along (fun s => s.db.NoneStranded)
      (lostDispatch ++ [tickAt 450 [0]]) System.init := by
  decide +kernel

end Crewquarters
