import Crewquarters.Uninstall
import Crewquarters.Proofs.Chronicle
import Crewquarters.Lib.Tasks

/-!
# An uninstall excludes active runs, unless a dispatch reads in its window

Once an uninstall has looked at the runs, only a dispatch that reads the installation as still there
can make a run of it active (`Barring.quiet`): every other transaction leaves a run that is not
active so (`Performs.quiet`), and a dispatch that read before the look holds a run the look sees.
-/

namespace Crewquarters

open List Option Table Tasks Except
open RunState (watchedStates)

variable {G : Guards} {settings : Settings} {versions : VersionId → Option AgentVersion}
  {clk : Clock} {op : DbOp} {u v : Session} {d : RunData} {db db' : Db} {r : RunId}
  {id : InstallationId}

def Quiet (id : InstallationId) (d : RunData) : Prop :=
  d.run.installationId = id → d.run.state ∉ watchedStates

def DbOp.wakes : DbOp → Bool
  | .worker _ (.beginAttempt _) => true
  | .worker _ (.dispatchPrepare ..) => true
  | _ => false

theorem Turn.asleep (h : Turn u v) (hu : u.run.state ∉ watchedStates) :
    v.run.state ∉ watchedStates := by
  cases h with
  | silent kept attempt ends jobs move =>
    rcases move with hsame | ⟨hw, -⟩ | ⟨-, htarget⟩
    · rwa [hsame]
    · exact absurd hw hu
    · rw [htarget]
      decide
  | unqueue kept attempt ends jobs source target =>
    rw [target]
    decide
  | cancel kept attempt ends jobs source => exact absurd source hu
  | retry kept attempt ends jobs source target =>
    rw [target]
    decide
  | fail kept attempt ends jobs source target =>
    rcases target with htarget | htarget <;> rw [htarget] <;> decide

theorem WorkerCall.asleep {c : WorkerCall} (hc : DbOp.wakes (.worker r c) = false)
    (h : c.exec clk u = .ok v) (ha : AttemptsSound u.toRunData)
    (hu : u.run.state ∉ watchedStates) : v.run.state ∉ watchedStates := by
  cases c with
  | beginAttempt => cases hc
  | dispatchPrepare => cases hc
  | dispatchRecord =>
    obtain ⟨stop, h⟩ := dropResult_eq_ok.1 h
    obtain ⟨a, -, -, ⟨-, hb, rfl⟩ | ⟨-, rfl⟩⟩ := dispatchRecord_cases h <;> exact hu
  | cancelFinish =>
    obtain ⟨late, h⟩ := dropResult_eq_ok.1 h
    obtain ⟨-, -, rfl⟩ | ⟨-, -, -, rfl⟩ | ⟨-, a, -, -, rfl⟩ := cancelFinish_cases h
    · exact hu
    · rw [moved_state]
      decide
    · rw [moved_state]
      decide
  | onDeadJob => exact (onDeadJob_turn ha (raising_eq_ok.1 h)).1.asleep hu

theorem watch_asleep {now : Time} (h : watch clk now u = .ok v) (ha : AttemptsSound u.toRunData)
    (hu : u.run.state ∉ watchedStates) : v.run.state ∉ watchedStates := by
  rcases watch_cases h with rfl | ⟨k, code, message, retryable, interrupted, hf⟩ | ⟨n, he⟩
  · exact hu
  · exact (turn_fail ha hf).asleep hu
  · have hcall : (RunCall.expireInputs now).exec plainGuards clk u = .ok v :=
      dropResult_eq_ok.2 ⟨n, he⟩
    exact (RunCall.turn hcall ha).asleep hu

theorem Performs.installationId (h : Performs G clk op r u v) :
    v.run.installationId = u.run.installationId :=
  congrArg RunOrigin.installationId (Steady.of_edits h.edits).1

theorem Performs.quiet (h : Performs G clk op r u v) (hop : op.wakes = false)
    (ha : AttemptsSound u.toRunData) (hu : Quiet id u.toRunData) : Quiet id v.toRunData := by
  intro hv
  have hasleep := hu (h.installationId.symm.trans hv)
  cases h with
  | call exec | answer exec => exact (RunCall.turn exec ha).asleep hasleep
  | worker exec => exact WorkerCall.asleep hop exec ha hasleep
  | dead exec => exact (onDeadJob_turn ha exec).1.asleep hasleep
  | watch exec => exact watch_asleep exec ha hasleep

/-- A dispatch that read the installation as removed or disabled asks for no container and leaves no
active run. -/
theorem dispatchPrepare_unready {catalog : Catalog} {n : ℕ} {spec : Option RunSpec}
    (h : dispatchPrepare settings catalog clk n u = .ok (spec, v))
    (hi : ∀ i, catalog.installations u.run.installationId = some i → i.unready = true)
    (hu : u.run.state ∉ watchedStates) :
    spec = none ∧ v.run.state ∉ watchedStates := by
  simp only [dispatchPrepare] at h
  split_ifs at h with hstale
  · simp only [ok.injEq, Prod.mk.injEq] at h
    obtain ⟨rfl, rfl⟩ := h
    exact ⟨rfl, hu⟩
  · split at h
    · rename_i i version hinst hver
      obtain ⟨⟨a, w⟩, hbegin, h⟩ := bind_eq_ok.1 h
      simp only [hi i hinst, ↓reduceIte] at h
      have hw : w.run.state ∈ watchedStates := by
        rw [beginAttempt_run (raising_eq_ok.1 hbegin)]
        refine prepared_watched ?_
        by_contra hn
        exact hstale (.inr (not_or.1 hn))
      rw [failRun_of_watched hw] at h
      obtain ⟨x, hx, h⟩ := bind_eq_ok.1 h
      obtain rfl := ok.inj (raising_eq_ok.1 hx)
      simp only [ok.injEq, Prod.mk.injEq] at h
      obtain ⟨rfl, rfl⟩ := h
      exact ⟨rfl, by simp [failedRun, watchedStates]⟩
    · cases h

theorem getRun_onRun_of_ne {f : Session → Except JobError Session}
    (hf : ∀ {u v : Session}, f u = .ok v → v.run.id = u.run.id) {k : RunId} (hk : k ≠ r)
    (h : db.onRun k f = .ok db') : db'.getRun r = db.getRun r := by
  obtain ⟨d, w, hd, hw, rfl⟩ := Db.onRun_eq_ok h
  have hid : w.run.id = k := (hf hw).trans (Db.getRun_id hd)
  exact Db.getRun_store_of_ne (hid ▸ hk)

theorem tick_spares {times : TickClock} {locked : List RunId} (hr : r ∈ locked)
    (h : tick times locked db = .ok db') : db'.getRun r = db.getRun r := by
  obtain ⟨w, hw, h⟩ := bind_eq_ok.1 h
  have hsettled : w.getRun r = db.getRun r := by
    refine foldlM_keeps (P := fun b => b.getRun r = db.getRun r) (fun hb hjob => ?_) rfl hw
    rename_i b job b'
    unfold settleUnlocked at hjob
    split at hjob
    · exact ok.inj hjob ▸ hb
    · rename_i k hk
      have hkr : k ≠ r := by
        rintro rfl
        simpa [hr] using (filter_eq_some_iff.1 hk).2
      split at hjob
      · exact ok.inj hjob ▸ hb
      · rename_i d hd
        obtain ⟨x, hx, hjob⟩ := bind_eq_ok.1 hjob
        have hp : Performs plainGuards (times.dead job.id) (.tick times locked) k (b.session d) x :=
          .dead (raising_eq_ok.1 hx)
        have hid : x.run.id = k := hp.id_eq.trans (Db.getRun_id hd)
        rw [← ok.inj hjob, Db.getRun_store_of_ne (hid ▸ hkr), hb]
  refine (foldlM_consumes (P := fun runs b => (∀ k ∈ runs, k ≠ r) ∧ b.getRun r = w.getRun r)
    (fun hb hrun => ?_) ⟨fun k hk => ?_, rfl⟩ h).2.trans hsettled
  · rename_i k runs b b'
    refine ⟨fun j hj => hb.1 j (mem_cons_of_mem _ hj), (?_ : _ = b.getRun r).trans hb.2⟩
    refine getRun_onRun_of_ne (fun {x y} hs => ?_) (hb.1 k (by simp)) hrun
    have hp : Performs plainGuards (times.watch k) (.tick times locked) k x y :=
      .watch (raising_eq_ok.1 hs)
    exact hp.id_eq
  · rintro rfl
    obtain ⟨d, hd, rfl⟩ := mem_map.1 hk
    have hmem := (mem_insertionSort _).1 (mem_of_mem_take hd)
    simp [hr] at hmem

theorem Db.commit_spares (hop : op.spares r db = true) (hd : db.getRun r = some d) :
    (db.commit G clk op).getRun r = some d := by
  unfold Db.commit
  split
  · rename_i db' h
    cases op with
    | client op =>
      cases op with
      | createRun =>
        obtain rfl := exec_createRun (G := G) h
        unfold insertRun
        split
        · exact hd
        · refine (get_append ..).trans ?_
          rw [show Table.get RunData.id r db.runs = some d from hd]
          rfl
      | call k c =>
        refine (getRun_onRun_of_ne (fun {x y} hs => ?_) (of_decide_eq_true hop) h).trans hd
        have hp : Performs G clk (.client (.call k c)) k x y := .call (raising_eq_ok.1 hs)
        exact hp.id_eq
      | answer requestId version value user =>
        simp only [DbOp.exec, ClientOp.exec] at h
        split at h
        · cases h
        · rename_i d' hd'
          have hne : d'.id ≠ r := by simpa [DbOp.spares, hd'] using hop
          refine (getRun_onRun_of_ne (fun {x y} hs => ?_) hne h).trans hd
          have hp : Performs G clk (.client (.answer requestId version value user)) r x y :=
            .answer (raising_eq_ok.1 hs)
          exact hp.id_eq
    | worker k c =>
      refine (getRun_onRun_of_ne (fun {x y} hs => ?_) (of_decide_eq_true hop) h).trans hd
      have hp : Performs G clk (.worker k c) k x y := .worker hs
      exact hp.id_eq
    | tick => exact (tick_spares (of_decide_eq_true hop) h).trans hd
  · exact hd

def RunData.Prepares (d : RunData) : Prop := d.run.state = .queued ∨ d.run.state = .preparing

namespace Uninstalling

variable {s t : Uninstalling} {a : UninstallAction} {n k : ℕ} {task task' : UninstallTask}
  {i : AgentInstallation} {ready : Bool}

def Barred (id : InstallationId) (s : Uninstalling) : Prop :=
  .deleteChecked id ∈ s.tasks ∨ (s.deletedAt id).isSome

def Plain : UninstallTask → Prop
  | .deleteChecked _ | .dispatchLocked .. | .dispatchRead .. => False
  | _ => True

/-- Every way a step can go. -/
inductive Did (G : Guards) (settings : Settings) (versions : VersionId → Option AgentVersion)
    (s : Uninstalling) : UninstallAction → Uninstalling → Prop where
  | spawn {task : UninstallTask} (new : task.isNew = true) :
      Did G settings versions s (.spawn task) { s with tasks := s.tasks ++ [task] }
  | goto {a : UninstallAction} {n : ℕ} {task task' : UninstallTask} (here : s.tasks[n]? = some task)
      (plain : Plain task')
      (locks : ∀ r, task'.locksRun r = true → task.locksRun r = true ∨ s.runTaken r = false) :
      Did G settings versions s a (s.goto n task')
  | check {n : ℕ} {clk : Clock} {ready : Bool} {id : InstallationId}
      (here : s.tasks[n]? = some (.deleteLocked id)) (idle : s.inUse id = false) :
      Did G settings versions s (.step n clk ready) (s.goto n (.deleteChecked id))
  | delete {n : ℕ} {clk : Clock} {ready : Bool} {id : InstallationId} {i : AgentInstallation}
      (here : s.tasks[n]? = some (.deleteChecked id)) (row : s.getInstallation id = some i) :
      Did G settings versions s (.step n clk ready) ((s.setInstallation
        { i with deletedAt := some (clk 0), enabled := false }).goto n .done)
  | commit {n : ℕ} {clk : Clock} {ready : Bool} {task : UninstallTask} {op : DbOp}
      (here : s.tasks[n]? = some task) (sleeps : op.wakes = false)
      (spares : ∀ r db, task.locksRun r = false → op.spares r db = true) :
      Did G settings versions s (.step n clk ready) ((s.goto n .done).commit G clk op)
  | lock {n : ℕ} {clk : Clock} {ready : Bool} {r : RunId} {k : ℕ} {d : RunData}
      (here : s.tasks[n]? = some (.dispatch r k)) (free : s.runTaken r = false)
      (run : s.db.getRun r = some d) (prepares : d.Prepares) :
      Did G settings versions s (.step n clk ready) (s.goto n (.dispatchLocked r k))
  | read {n : ℕ} {clk : Clock} {ready : Bool} {r : RunId} {k : ℕ} {d : RunData}
      {i : AgentInstallation} (here : s.tasks[n]? = some (.dispatchLocked r k))
      (run : s.db.getRun r = some d) (row : s.getInstallation d.run.installationId = some i) :
      Did G settings versions s (.step n clk ready) (s.goto n (.dispatchRead r k i))
  | dispatch {n : ℕ} {clk : Clock} {ready : Bool} {r : RunId} {k : ℕ} {i : AgentInstallation}
      (here : s.tasks[n]? = some (.dispatchRead r k i)) :
      Did G settings versions s (.step n clk ready)
        (({ s.goto n .done with asked := s.asked ++
            (container settings versions clk r k i s.db).toList.map fun spec =>
              (spec, s.deletedAt i.id) } : Uninstalling).commit G clk
          (.worker r (.dispatchPrepare settings (catalog versions i) k)))
  | other {clk : Clock} {op : DbOp} (other : op.isOther = true) (spared : s.spared op = true) :
      Did G settings versions s (.other clk op) (s.commit G clk op)
  | update {i : AgentInstallation} (fresh : i.deletedAt = none) :
      Did G settings versions s (.update i) (s.setInstallation i)

theorem advance_did (hn : s.tasks[n]? = some task)
    (h : s.advance G settings versions n clk ready task = some t) :
    Did G settings versions s (.step n clk ready) t := by
  cases task with
  | delete =>
    simp only [advance] at h
    split_ifs at h with htaken
    split at h
    · obtain rfl := some.inj h
      refine .goto hn ?_ ?_
      · split_ifs <;> trivial
      · split_ifs <;> exact fun r hr => by cases hr
    · obtain rfl := some.inj h
      exact .goto hn trivial fun r hr => by cases hr
  | deleteLocked =>
    obtain rfl := some.inj h
    split_ifs with huse
    · exact .goto hn trivial fun r hr => by cases hr
    · exact .check hn (by simpa using huse)
  | deleteChecked =>
    obtain ⟨i, hi, rfl⟩ := map_eq_some_iff.1 h
    exact .delete hn hi
  | create =>
    simp only [advance] at h
    split at h
    · obtain rfl := some.inj h
      refine .goto hn ?_ ?_
      · split_ifs <;> trivial
      · split_ifs <;> exact fun r hr => by cases hr
    · obtain rfl := some.inj h
      exact .goto hn trivial fun r hr => by cases hr
  | createRead =>
    simp only [advance] at h
    split_ifs at h
    obtain rfl := some.inj h
    exact .goto hn trivial fun r hr => by cases hr
  | createInserted i c =>
    obtain rfl := some.inj h
    exact @Did.commit G settings versions s n clk ready _ (c.op i) hn rfl fun _ _ _ => rfl
  | retry r =>
    simp only [advance] at h
    split at h
    · obtain rfl := some.inj h
      refine .goto hn ?_ ?_
      · split_ifs <;> trivial
      · split_ifs <;> exact fun r hr => by cases hr
    · obtain rfl := some.inj h
      exact .goto hn trivial fun r hr => by cases hr
  | retryRead r =>
    simp only [advance] at h
    split_ifs at h with htaken
    obtain rfl := some.inj h
    refine .goto hn trivial fun k hk => .inr ?_
    obtain rfl : r = k := of_decide_eq_true hk
    simpa using htaken
  | retryLocked r =>
    obtain rfl := some.inj h
    refine @Did.commit G settings versions s n clk ready _ (.client (.call r .retry)) hn rfl
      fun k _ hk => ?_
    simpa [UninstallTask.locksRun, DbOp.spares] using hk
  | dispatch r k =>
    simp only [advance] at h
    split_ifs at h with htaken
    split at h
    · rename_i d hd
      obtain rfl := some.inj h
      split_ifs with hstale
      · exact .goto hn trivial fun r hr => by cases hr
      · refine .lock hn (by simpa using htaken) hd ?_
        by_contra hnot
        exact hstale (.inr (not_or.1 hnot))
    · obtain rfl := some.inj h
      exact .goto hn trivial fun r hr => by cases hr
  | dispatchLocked r k =>
    simp only [advance] at h
    split at h
    · rename_i i hi
      obtain rfl := some.inj h
      obtain ⟨d, hd, hrow⟩ := bind_eq_some_iff.1 hi
      exact .read hn hd hrow
    · obtain rfl := some.inj h
      exact .goto hn trivial fun r hr => by cases hr
  | dispatchRead =>
    obtain rfl := some.inj h
    exact .dispatch hn
  | done => cases h

theorem step_did (h : (machine G settings versions).step a s = some t) :
    Did G settings versions s a t := by
  cases a with
  | spawn =>
    simp only [machine, step] at h
    split_ifs at h with hnew
    exact some.inj h ▸ .spawn hnew
  | step =>
    obtain ⟨task, hn, h⟩ := bind_eq_some_iff.1 h
    exact advance_did hn h
  | abort =>
    obtain ⟨task, hn, rfl⟩ := map_eq_some_iff.1 h
    exact .goto hn trivial fun r hr => by cases hr
  | other =>
    simp only [machine, step] at h
    split_ifs at h with hop
    obtain ⟨hother, hspared⟩ := Bool.and_eq_true_iff.1 hop
    exact some.inj h ▸ .other hother hspared
  | update i =>
    simp only [machine, step] at h
    split_ifs at h with hi
    have hnone : i.deletedAt = none := by simpa using (Bool.and_eq_true_iff.1 hi).2
    exact some.inj h ▸ .update hnone

/-- No dispatch is ahead of an uninstall that has looked at the runs. -/
structure Barring (s : Uninstalling) : Prop where
  numbered : s.db.Numbered
  attempts : s.db.All AttemptsSound
  locks : Tasks.Exclusive (fun task r => task.locksRun r = true) s.tasks
  locked : ∀ {r k}, .dispatchLocked r k ∈ s.tasks → s.db.Fact r RunData.Prepares
  read : ∀ {r k i}, .dispatchRead r k i ∈ s.tasks →
    s.db.Fact r fun d => d.Prepares ∧ d.run.installationId = i.id
  unready : ∀ {r k i}, .dispatchRead r k i ∈ s.tasks → s.Barred i.id → i.unready = true
  quiet : ∀ {id}, s.Barred id → s.db.All (Quiet id)
  asked : ∀ x ∈ s.asked, x.2 = none

theorem runTaken_eq_false (h : s.runTaken r = false) :
    Tasks.Free (fun task r => UninstallTask.locksRun r task = true) r s.tasks := by
  intro task htask hlocks
  rw [runTaken, List.any_eq_false] at h
  exact h task htask hlocks

theorem deletedAt_setInstallation (hi : i.deletedAt.isSome → s.Barred i.id)
    (h : ((s.setInstallation i).deletedAt id).isSome) : s.Barred id := by
  by_cases hid : i.id = id
  · subst hid
    cases hrow : s.getInstallation i.id with
    | none =>
      have hnone : (s.setInstallation i).getInstallation i.id = none := by
        rw [getInstallation, Table.get_eq_none] at hrow ⊢
        intro j hj
        rcases mem_put hj with rfl | ⟨hj, -⟩
        · obtain ⟨b, hb, heq⟩ := mem_map.1 hj
          split_ifs at heq with hk
          · exact absurd hk (hrow b hb)
          · exact heq ▸ hrow b hb
        · exact hrow j hj
      simp [deletedAt, hnone] at h
    | some =>
      have hself : (s.setInstallation i).getInstallation i.id = some i := get_put_self hrow
      exact hi (by simpa [deletedAt, hself] using h)
  · have hother : (s.setInstallation i).getInstallation id = s.getInstallation id :=
      get_put_of_ne hid
    rw [deletedAt, hother] at h
    exact .inr h

namespace Barring

theorem init (installations : List AgentInstallation) : Barring (init installations) where
  numbered := Db.numbered_empty
  attempts d hd := by cases hd
  locks := .nil
  locked h := by cases h
  read h := by cases h
  unready h := by cases h
  quiet := by
    rintro id (h | h) d hd
    · cases h
    · cases hd
  asked x hx := by cases hx

theorem goto (h : Barring s) (hn : s.tasks[n]? = some task)
    (hlocks : ∀ r, task'.locksRun r = true → task.locksRun r = true ∨ s.runTaken r = false)
    (hchecked : ∀ id, task' = .deleteChecked id → s.db.All (Quiet id)
      ∧ ∀ r k i, .dispatchRead r k i ∈ s.tasks → i.id ≠ id)
    (hlocked : ∀ r k, task' = .dispatchLocked r k → s.db.Fact r RunData.Prepares)
    (hread : ∀ r k i, task' = .dispatchRead r k i → (s.Barred i.id → i.unready = true)
      ∧ s.db.Fact r fun d => d.Prepares ∧ d.run.installationId = i.id) :
    Barring (s.goto n task') := by
  have hbarred : ∀ {id}, (s.goto n task').Barred id → task' = .deleteChecked id ∨ s.Barred id := by
    rintro id (hmem | hrow)
    · exact (mem_of_mem_set hmem).imp Eq.symm .inl
    · exact .inr (.inr hrow)
  refine { h with locks := ?_, locked := ?_, read := ?_, unready := ?_, quiet := ?_ }
  · exact h.locks.set hn fun r hr => (hlocks r hr).imp_right runTaken_eq_false
  · intro r k hmem
    exact (mem_of_mem_set hmem).elim (fun heq => hlocked r k heq.symm) h.locked
  · intro r k i hmem
    exact (mem_of_mem_set hmem).elim (fun heq => (hread r k i heq.symm).2) h.read
  · intro r k i hmem hb
    rcases mem_of_mem_set hmem with heq | hmem
    · refine (hread r k i heq.symm).1 ((hbarred hb).resolve_left ?_)
      rw [← heq]
      simp
    · rcases hbarred hb with hc | hb
      · exact absurd rfl ((hchecked _ hc).2 r k i hmem)
      · exact h.unready hmem hb
  · intro id hb
    exact (hbarred hb).elim (fun hc => (hchecked id hc).1) h.quiet

/-- A transaction is committed that touches no locked run and wakes no run of an installation an
uninstall has looked at. -/
theorem commit (h : Barring s)
    (hspares : ∀ task ∈ s.tasks, ∀ r, task.locksRun r = true → (s.db.getRun r).isSome →
      op.spares r s.db = true)
    (hquiet : ∀ ⦃id r u v⦄, s.Barred id → Performs G clk op r u v → AttemptsSound u.toRunData →
      Quiet id u.toRunData → Quiet id v.toRunData) : Barring (s.commit G clk op) := by
  have hfact : ∀ {task r P}, task ∈ s.tasks → task.locksRun r = true → s.db.Fact r P →
      (s.commit G clk op).db.Fact r P := by
    rintro task r P hmem hlocks ⟨d, hd, hP⟩
    exact ⟨d, Db.commit_spares (hspares task hmem r hlocks (by rw [hd]; rfl)) hd, hP⟩
  have hI := attemptsSound_invariant G
  refine { h with numbered := ?_, attempts := ?_, locked := ?_, read := ?_, quiet := ?_ }
  · exact Db.commit_numbered h.numbered
  · exact hI.commit h.attempts
  · intro r k hmem
    exact hfact hmem (by simp [UninstallTask.locksRun]) (h.locked hmem)
  · intro r k i hmem
    exact hfact hmem (by simp [UninstallTask.locksRun]) (h.read hmem)
  · intro id hb
    have hnew : ∀ d : RunData, d.run.state = .queued → Quiet id d := by
      intro d hd _
      rw [hd]
      decide
    have hstep : ∀ ⦃c o r u v⦄, (c = clk ∧ o = op) → Performs G c o r u v →
        AttemptsSound u.toRunData → Quiet id u.toRunData → Quiet id v.toRunData := by
      rintro c o r u v ⟨rfl, rfl⟩ hp ha hu
      exact hquiet hb hp ha hu
    exact Db.commit_all hI hnew hstep h.numbered ⟨rfl, rfl⟩ h.attempts (h.quiet hb)

theorem setInstallation (h : Barring s) (hi : i.deletedAt.isSome → s.Barred i.id) :
    Barring (s.setInstallation i) := by
  have hbarred : ∀ {id}, (s.setInstallation i).Barred id → s.Barred id := by
    rintro id (hmem | hrow)
    · exact .inl hmem
    · exact deletedAt_setInstallation hi hrow
  exact { h with
    unready := fun hmem hb => h.unready hmem (hbarred hb)
    quiet := fun hb => h.quiet (hbarred hb) }

theorem finish (h : Barring s) (hn : s.tasks[n]? = some task) : Barring (s.goto n .done) :=
  h.goto hn (fun r hr => by cases hr) (fun _ hc => by cases hc) (fun _ _ hc => by cases hc)
    fun _ _ _ hc => by cases hc

theorem others (h : Barring s) (hn : s.tasks[n]? = some task) {other : UninstallTask}
    (hmem : other ∈ (s.goto n .done).tasks) (hlocks : other.locksRun r = true) :
    task.locksRun r = false := by
  rcases mem_set hmem with rfl | ⟨m, hmn, hm⟩
  · cases hlocks
  · by_contra htask
    exact h.locks.not_holds hn (by simpa using htask) hmn hm hlocks

theorem barred_finish (hb : (s.goto n .done).Barred id) : s.Barred id := by
  rcases hb with hmem | hrow
  · exact .inl ((mem_of_mem_set hmem).resolve_left (by simp))
  · exact .inr hrow

theorem not_idle (hidle : s.inUse id = false) (hd : d ∈ s.db.runs)
    (hid : d.run.installationId = id) :
    d.run.state ∈ RunState.finalStates ++ [.failed, .interrupted] := by
  rw [inUse, List.any_eq_false] at hidle
  by_contra hn
  exact hidle d hd (Bool.and_eq_true_iff.2 ⟨decide_eq_true hid, decide_eq_true hn⟩)

theorem check (h : Barring s) (hn : s.tasks[n]? = some (.deleteLocked id))
    (hidle : s.inUse id = false) : Barring (s.goto n (.deleteChecked id)) := by
  refine h.goto hn (fun r hr => by cases hr) ?_ (fun _ _ hc => by cases hc)
    fun _ _ _ hc => by cases hc
  rintro j hj
  obtain rfl : id = j := by simpa using hj
  constructor
  · intro d hd hid
    have hstate := not_idle hidle hd hid
    revert hstate
    cases d.run.state <;> decide
  · rintro r k i hmem rfl
    -- the dispatch holds a run that the look at the runs would have found
    obtain ⟨d, hd, hprepares, hid⟩ := h.read hmem
    have hstate := not_idle hidle (get_mem hd) hid
    rcases hprepares with hs | hs <;> rw [hs] at hstate <;> revert hstate <;> decide

theorem read_row (h : Barring s) (hn : s.tasks[n]? = some (.dispatchLocked r k))
    (hearly : s.readsEarly (.step n clk ready) = false) (hd : s.db.getRun r = some d)
    (hi : s.getInstallation d.run.installationId = some i) :
    Barring (s.goto n (.dispatchRead r k i)) := by
  refine h.goto hn (fun q hq => .inl hq) (fun _ hc => by cases hc) (fun _ _ hc => by cases hc) ?_
  intro r' k' i' heq
  obtain ⟨rfl, rfl, rfl⟩ : r = r' ∧ k = k' ∧ i = i' := by simpa using heq
  have hid : i.id = d.run.installationId := get_key hi
  refine ⟨?_, d, hd, (h.locked (mem_of_getElem? hn)).get hd, hid.symm⟩
  rintro (hmem | hrow)
  · simp only [readsEarly, hn, hd, any_some, List.any_eq_false] at hearly
    exact absurd (by simp [UninstallTask.hasChecked, hid]) (hearly _ hmem)
  · rw [hid, deletedAt, hi] at hrow
    have hdeleted : i.deletedAt.isSome = true := hrow
    simp [AgentInstallation.unready, hdeleted]

theorem container_deletedAt (h : Barring s) (hn : s.tasks[n]? = some (.dispatchRead r k i))
    {spec : RunSpec} (hspec : container settings versions clk r k i s.db = some spec) :
    s.deletedAt i.id = none := by
  have hmem := mem_of_getElem? hn
  by_contra hdeleted
  have hb : s.Barred i.id := .inr (by simpa [isSome_iff_ne_none] using hdeleted)
  obtain ⟨d, hd, hmatch⟩ := bind_eq_some_iff.1 hspec
  have hquiet := h.quiet hb d (get_mem hd) ((h.read hmem).get hd).2
  split at hmatch
  · rename_i sp v hprepare
    subst hmatch
    refine absurd (dispatchPrepare_unready hprepare (fun j hj => ?_) hquiet).1 (by simp)
    simp only [catalog] at hj
    split_ifs at hj
    exact some.inj hj ▸ h.unready hmem hb
  · cases hmatch

theorem dispatch (h : Barring s) (hn : s.tasks[n]? = some (.dispatchRead r k i)) :
    Barring (({ s.goto n .done with asked := s.asked ++
        (container settings versions clk r k i s.db).toList.map fun spec =>
          (spec, s.deletedAt i.id) } : Uninstalling).commit G clk
      (.worker r (.dispatchPrepare settings (catalog versions i) k))) := by
  have hasked : ∀ x ∈ s.asked ++ (container settings versions clk r k i s.db).toList.map
      (fun spec => (spec, s.deletedAt i.id)), x.2 = none := by
    intro x hx
    rcases mem_append.1 hx with hx | hx
    · exact h.asked x hx
    · obtain ⟨spec, hspec, rfl⟩ := mem_map.1 hx
      exact h.container_deletedAt hn (mem_toList.1 hspec)
  refine commit (h := { h.finish hn with asked := hasked }) ?_ ?_
  · intro other hmem q hlocks _
    simpa [UninstallTask.locksRun, DbOp.spares] using h.others hn hmem hlocks
  · intro id q u v hb hp _ hu hv
    have hinst := hp.installationId.symm.trans hv
    obtain ⟨exec⟩ : ∃ _ : WorkerCall.exec clk (.dispatchPrepare settings (catalog versions i) k) u
        = .ok v, True := by
      cases hp with
      | worker exec => exact ⟨exec, trivial⟩
    obtain ⟨spec, exec⟩ := dropResult_eq_ok.1 exec
    refine (dispatchPrepare_unready exec (fun j hj => ?_) (hu hinst)).2
    simp only [catalog] at hj
    split_ifs at hj with hij
    obtain rfl := some.inj hj
    refine h.unready (mem_of_getElem? hn) (hij ▸ hinst ▸ barred_finish hb)

theorem did (h : Barring s) (hearly : s.readsEarly a = false) (hd : Did G settings versions s a t) :
    Barring t := by
  cases hd with
  | @spawn task new =>
    have hmem : ∀ {task'}, task' ∈ s.tasks ++ [task] → task' ≠ task → task' ∈ s.tasks := by
      intro task' h hne
      exact (mem_append.1 h).resolve_right (by simpa using hne)
    have hbarred : ∀ {id}, Barred id { s with tasks := s.tasks ++ [task] } → s.Barred id := by
      rintro id (h | h)
      · exact .inl (hmem h (by rintro rfl; cases new))
      · exact .inr h
    exact { h with
      locks := h.locks.append fun r hr => by cases task <;> first | cases hr | cases new
      locked := fun h' => h.locked (hmem h' (by rintro rfl; cases new))
      read := fun h' => h.read (hmem h' (by rintro rfl; cases new))
      unready := fun h' hb => h.unready (hmem h' (by rintro rfl; cases new)) (hbarred hb)
      quiet := fun hb => h.quiet (hbarred hb) }
  | goto here plain locks =>
    exact h.goto here locks (fun _ hc => by subst hc; exact plain.elim)
      (fun _ _ hc => by subst hc; exact plain.elim) fun _ _ _ hc => by subst hc; exact plain.elim
  | check here idle => exact h.check here idle
  | delete here row =>
    refine (h.setInstallation fun _ => .inl ?_).finish here
    have hid := get_key row
    exact hid ▸ mem_of_getElem? here
  | commit here sleeps spares =>
    refine (h.finish here).commit (fun other hmem r hlocks _ => ?_) fun id r u v _ hp ha hu => ?_
    · exact spares r _ (h.others here hmem hlocks)
    · exact hp.quiet sleeps ha hu
  | lock here free run prepares =>
    refine h.goto here (fun q hq => .inr ?_) (fun _ hc => by cases hc) ?_
      fun _ _ _ hc => by cases hc
    · obtain rfl := of_decide_eq_true hq
      exact free
    · intro r' k' heq
      obtain ⟨rfl, rfl⟩ := by simpa using heq
      exact ⟨_, run, prepares⟩
  | read here run row => exact h.read_row here hearly run row
  | dispatch here => exact h.dispatch here
  | @other clk op other spared =>
    refine h.commit (fun task hmem r hlocks hrun => ?_) fun id r u v _ hp ha hu => ?_
    · obtain ⟨d, hd⟩ := isSome_iff_exists.1 hrun
      have hd' := all_eq_true.1 spared d (get_mem hd)
      have htaken : s.runTaken d.id = true :=
        any_eq_true.2 ⟨task, hmem, by rw [show d.id = r from get_key hd]; exact hlocks⟩
      rw [htaken, show d.id = r from get_key hd] at hd'
      simpa using hd'
    · refine hp.quiet ?_ ha hu
      unfold DbOp.isOther at other
      unfold DbOp.wakes
      split <;> simp_all
  | update fresh => exact h.setInstallation fun hs => by simp [fresh] at hs

end Barring

/-- If no dispatch reads an installation between an uninstall's look at its runs and its commit,
then no run of an uninstalled agent is active, and no dispatch asked for a container after the
uninstall of its agent. -/
theorem uninstalled_has_no_active_run (installations : List AgentInstallation)
    (actions : List UninstallAction) (s : Uninstalling)
    (hmeets : (machine G settings versions).Meets (fun a s => s.readsEarly a = false) actions
      (init installations))
    (hrun : (machine G settings versions).run actions (init installations) = some s) :
    (∀ id, (s.deletedAt id).isSome → ∀ d ∈ s.db.runs, d.run.installationId = id →
        d.run.state ∉ [RunState.preparing, .loadingModel, .running, .waitingInput])
      ∧ ∀ x ∈ s.asked, x.2 = none := by
  have hstep : ∀ a s t, Barring s → s.readsEarly a = false →
      (machine G settings versions).step a s = some t → Barring t :=
    fun a s t h hearly ht => h.did hearly (step_did ht)
  have hlast : Barring s := (Machine.along_of_meets hstep actions (.init _) hmeets).last hrun
  exact ⟨fun id hid d hd => hlast.quiet (.inr hid) d hd, hlast.asked⟩

def plainCreation : Creation := ⟨plainVersion, .manual, none, none, none, none, none, none⟩

/-- Task `n` takes its next steps, at time zero and with everything ready. -/
def steps (n count : ℕ) : List UninstallAction := List.replicate count (.step n (fun _ => 0) true)

/-- A run whose first attempt was interrupted; then the uninstall looks at the runs, and the owner's
retry is committed. -/
def retriedInWindow : List UninstallAction :=
  [.spawn (.create 0 plainCreation)] ++ steps 0 3
    ++ [.spawn (.dispatch 0 1)] ++ steps 1 3
    ++ [.other (fun _ => 0)
      (.client (.call 0 (.failRun "HEARTBEAT_LOST" heartbeatLost true true [])))]
    ++ [.spawn (.delete 0), .spawn (.retry 0)] ++ steps 2 2 ++ steps 3 3 ++ [.spawn (.dispatch 0 2)]

def plainPlatform : Machine Uninstalling UninstallAction :=
  machine plainGuards plainSettings plainCatalog.versions

/-- The dispatch reads the installation after the uninstall's commit. -/
theorem uninstalled_has_no_active_run_late :
    ∃ s, plainPlatform.run (retriedInWindow ++ steps 2 1 ++ steps 4 3) (init [plainInstallation])
        = some s
      ∧ (∀ id, (s.deletedAt id).isSome → ∀ d ∈ s.db.runs, d.run.installationId = id →
        d.run.state ∉ [RunState.preparing, .loadingModel, .running, .waitingInput])
      ∧ ∀ x ∈ s.asked, x.2 = none := by
  have hsome : (plainPlatform.run (retriedInWindow ++ steps 2 1 ++ steps 4 3)
      (init [plainInstallation])).isSome = true := by decide
  obtain ⟨s, hs⟩ := isSome_iff_exists.1 hsome
  exact ⟨s, hs, uninstalled_has_no_active_run _ _ s (by decide) hs⟩

/-- The dispatch reads the installation, and is committed, before the uninstall is. -/
theorem uninstalled_while_preparing :
    ∃ actions s, plainPlatform.run actions (init [plainInstallation]) = some s
      ∧ ∃ d ∈ s.db.runs, (s.deletedAt d.run.installationId).isSome = true
        ∧ d.run.state = .preparing ∧ d.run.currentAttempt = 2
        ∧ s.asked.any (fun x => x.1.runId = d.id && x.1.attempt = 2) = true := by
  have hany : (plainPlatform.run (retriedInWindow ++ steps 4 3 ++ steps 2 1)
      (init [plainInstallation])).any (fun s => s.db.runs.any fun d =>
        decide ((s.deletedAt d.run.installationId).isSome = true ∧ d.run.state = .preparing
          ∧ d.run.currentAttempt = 2
          ∧ s.asked.any (fun x => x.1.runId = d.id && x.1.attempt = 2) = true)) = true := by
    decide
  obtain ⟨s, hs, hruns⟩ := (any_eq_true _ _).mp hany
  obtain ⟨d, hd, hstate⟩ := any_eq_true.mp hruns
  exact ⟨_, s, hs, d, hd, of_decide_eq_true hstate⟩

end Uninstalling

end Crewquarters
