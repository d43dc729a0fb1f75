import Crewquarters.Proofs.Moves

/-!
# What holds in every state of the system

The rows of the database fit together (`DbSound`), and what a handler carries from one of its steps
to the next, what is in a container's environment and what the runtime's log says fit the rows
(`System.Sound`).
-/

namespace Crewquarters

open List Table JobTable

variable {db db' : Db} {r : RunId} {n : ℕ}
variable {j : Job} {t : JobTable} {p : Job → Bool} {f : Job → Job}

namespace Db

variable {P : RunData → Prop} {d : RunData} {u : Session} {d : RunData} {ref : RuntimeRef}

/-- The run is there and has `P`. -/
def Fact (r : RunId) (P : RunData → Prop) (db : Db) : Prop := ∃ d, db.getRun r = some d ∧ P d

/-- Every run is still there, and has not gone back. -/
def Evolves (db db' : Db) : Prop :=
  ∀ r d, db.getRun r = some d → ∃ d', db'.getRun r = some d' ∧ Later d d'

theorem Evolves.refl : db.Evolves db := fun _ d hd => ⟨d, hd, .refl⟩

theorem Evolves.trans {db'' : Db} (h : db.Evolves db') (h' : db'.Evolves db'') :
    db.Evolves db'' := by
  intro r d hd
  obtain ⟨d', hd', hl⟩ := h r d hd
  obtain ⟨d'', hd'', hl'⟩ := h' r d' hd'
  exact ⟨d'', hd'', hl.trans hl'⟩

theorem Evolves.of_runs (h : db'.runs = db.runs) : db.Evolves db' := by
  intro r d hd
  refine ⟨d, ?_, .refl⟩
  unfold getRun at hd ⊢
  rwa [h]

theorem Fact.evolves (h : db.Fact r P) (he : db.Evolves db')
    (hP : ∀ {d d'}, Later d d' → P d → P d') : db'.Fact r P := by
  obtain ⟨d, hd, hp⟩ := h
  obtain ⟨d', hd', hl⟩ := he r d hd
  exact ⟨d', hd', hP hl hp⟩

theorem Fact.mono {Q : RunData → Prop} (h : db.Fact r P) (hPQ : ∀ d, P d → Q d) : db.Fact r Q :=
  h.imp fun d ⟨hd, hp⟩ => ⟨hd, hPQ d hp⟩

theorem Fact.get (h : db.Fact r P) (hd : db.getRun r = some d) : P d := by
  obtain ⟨d', hd', hp⟩ := h
  exact Option.some.inj (hd'.symm.trans hd) ▸ hp

theorem getRun_id (h : db.getRun r = some d) : d.run.id = r := by
  have hid : RunData.id d = r := get_key h
  exact hid

theorem getRun_store (hd : db.getRun u.run.id = some d) :
    (db.store u).getRun u.run.id = some u.toRunData := by
  have hput : Table.get RunData.id u.toRunData.id (Table.put RunData.id u.toRunData db.runs)
      = some u.toRunData := get_put_self hd
  exact hput

theorem getRun_store_of_ne (h : u.run.id ≠ r) : (db.store u).getRun r = db.getRun r := by
  have hput : Table.get RunData.id r (Table.put RunData.id u.toRunData db.runs)
      = Table.get RunData.id r db.runs := get_put_of_ne h
  exact hput

theorem Evolves.store (hd : db.getRun r = some d) (hl : Later d u.toRunData) :
    db.Evolves (db.store u) := by
  have hr : u.run.id = r := hl.id.trans (getRun_id hd)
  intro r' d' hd'
  by_cases h : u.run.id = r'
  · subst h
    rw [hr] at hd'
    obtain rfl := Option.some.inj (hd.symm.trans hd')
    exact ⟨u.toRunData, getRun_store (hr ▸ hd), hl⟩
  · exact ⟨d', (getRun_store_of_ne h).trans hd', .refl⟩

end Db

theorem Job.IsFor.of_core {type : JobType} {k : Job} (h : j.IsFor type r n) (hc : k.core = j.core) :
    k.IsFor type r n := by
  simp only [Job.core, Prod.mk.injEq] at hc
  exact ⟨hc.2.1.trans h.1, hc.2.2.1.trans h.2⟩

theorem Job.IsFor.unique {type type' : JobType} {r' : RunId} {n' : ℕ} (h : j.IsFor type r n)
    (h' : j.IsFor type' r' n') : type = type' ∧ r = r' ∧ n = n' :=
  ⟨h.1.symm.trans h'.1, ofRun_injective (h.2.symm.trans h'.2)⟩

/-- Every job is about a run that has come to its attempt; one dispatch an attempt. -/
structure DbSound (db : Db) : Prop where
  jobs : JobsSound db.jobs
  runIds : (db.runs.map RunData.id).Nodup
  runs : ∀ d ∈ db.runs, RunSound d ∧ d.run.id < db.nextUuid
  jobRuns : ∀ j ∈ db.jobs.rows, ∀ {type r n}, j.IsFor type r n → db.Fact r (JobFact type n)
  dispatch : ∀ j ∈ db.jobs.rows, ∀ k ∈ db.jobs.rows, ∀ {r n}, j.IsFor .runDispatch r n →
    k.IsFor .runDispatch r n → j.id = k.id

def JobTable.Grows (t t' : JobTable) : Prop := ∀ j ∈ t.rows, ∃ k ∈ t'.rows, k.core = j.core

theorem JobTable.Grows.refl : t.Grows t := fun j hj => ⟨j, hj, rfl⟩

theorem JobTable.grows_update (hf : ∀ j, (f j).core = j.core) : t.Grows (t.update p f) := by
  intro j hj
  refine ⟨if p j then f j else j, mem_update.2 ⟨j, hj, rfl⟩, ?_⟩
  split_ifs
  · exact hf j
  · rfl

theorem JobTable.core_of_update (hf : ∀ j, (f j).core = j.core) (hj : j ∈ (t.update p f).rows) :
    ∃ k ∈ t.rows, k.core = j.core := by
  obtain ⟨k, hk, rfl⟩ := mem_update.1 hj
  refine ⟨k, hk, ?_⟩
  split_ifs
  · exact (hf k).symm
  · rfl

namespace DbSound

variable {d : RunData}

theorem getRun (h : DbSound db) (hd : d ∈ db.runs) : db.getRun d.run.id = some d :=
  get_of_mem h.runIds hd

theorem run (h : DbSound db) (hd : db.getRun r = some d) : RunSound d :=
  (h.runs d (get_mem hd)).1

theorem update {p : Job → Bool} {f : Job → Job} (h : DbSound db)
    (hf : ∀ j, (f j).core = j.core) :
    DbSound { db with jobs := db.jobs.update p f } where
  jobs := h.jobs.update hf
  runIds := h.runIds
  runs := h.runs
  jobRuns j hj type r n hfor := by
    obtain ⟨k, hk, hc⟩ := core_of_update hf hj
    exact h.jobRuns k hk (hfor.of_core hc)
  dispatch j hj k hk r n hjfor hkfor := by
    obtain ⟨j', hj', hcj⟩ := core_of_update hf hj
    obtain ⟨k', hk', hck⟩ := core_of_update hf hk
    have := h.dispatch j' hj' k' hk' (hjfor.of_core hcj) (hkfor.of_core hck)
    simp only [Job.core, Prod.mk.injEq] at hcj hck
    rw [← hcj.1, ← hck.1, this]

theorem enqueue {type : JobType} {due : Time} (h : DbSound db) (ht : type ∈ System.handledTypes)
    (hfact : db.Fact r (JobFact type n))
    (hfirst : type = .runDispatch → ∀ j ∈ db.jobs.rows, ¬ j.IsFor .runDispatch r n) :
    DbSound { db with jobs := db.jobs.withJob type r n due } where
  jobs := h.jobs.withJob ht
  runIds := h.runIds
  runs := h.runs
  jobRuns j hj type' r' n' hfor := by
    rcases mem_withJob hj with hj | ⟨-, rfl⟩
    · exact h.jobRuns j hj hfor
    · obtain ⟨rfl, rfl, rfl⟩ := hfor.unique ⟨rfl, rfl⟩
      exact hfact
  dispatch j hj k hk r' n' hjfor hkfor := by
    rcases mem_withJob hj with hj' | ⟨-, rfl⟩ <;> rcases mem_withJob hk with hk' | ⟨-, rfl⟩
    · exact h.dispatch j hj' k hk' hjfor hkfor
    · obtain ⟨ht, rfl, rfl⟩ := hkfor.unique ⟨rfl, rfl⟩
      exact absurd hjfor (hfirst ht.symm j hj')
    · obtain ⟨ht, rfl, rfl⟩ := hjfor.unique ⟨rfl, rfl⟩
      exact absurd hkfor (hfirst ht.symm k hk')
    · rfl

theorem writeRun {u : Session} (h : DbSound db) (hd : db.getRun r = some d)
    (hl : Later d u.toRunData) (hu : RunSound u.toRunData) (hid : db.nextUuid ≤ u.nextUuid) :
    DbSound ⟨Table.put RunData.id u.toRunData db.runs, db.jobs, u.nextUuid⟩ where
  jobs := h.jobs
  runIds := by
    show ((Table.put RunData.id u.toRunData db.runs).map RunData.id).Nodup
    rw [map_key_put]
    exact h.runIds
  runs e he := by
    rcases mem_put he with rfl | ⟨he, -⟩
    · refine ⟨hu, ?_⟩
      rw [hl.id]
      exact (h.runs d (get_mem hd)).2.trans_le hid
    · exact ⟨(h.runs e he).1, (h.runs e he).2.trans_le hid⟩
  jobRuns j hj type r' n hfor :=
    (h.jobRuns j hj hfor).evolves (Db.Evolves.store hd hl) .later
  dispatch := h.dispatch

end DbSound

/-- Nothing in the database goes back. -/
structure Db.Onward (db db' : Db) : Prop where
  evolves : db.Evolves db'
  nextUuid : db.nextUuid ≤ db'.nextUuid
  jobs : db.jobs.Grows db'.jobs

theorem Db.Onward.refl : db.Onward db := ⟨.refl, le_rfl, .refl⟩

theorem Db.onward_update (hf : ∀ j, (f j).core = j.core) :
    db.Onward { db with jobs := db.jobs.update p f } :=
  ⟨.of_runs rfl, le_rfl, grows_update hf⟩

theorem cancelByDedupe_core (now : Time) (j : Job) :
    ({ j with state := .cancelled, finishedAt := some now } : Job).core = j.core := rfl

theorem DbSound.moves {u : Session} (h : DbSound db) (hd : db.getRun r = some d)
    (hm : Moves (db.session d) u) (ha : AttemptsSound u.toRunData) :
    DbSound (db.store u) ∧ db.Onward (db.store u) := by
  have hl : Later d u.toRunData := hm.later
  have hr : u.run.id = d.run.id := hl.id
  have hw := h.writeRun hd hl (hm.sound (h.run hd) ha) hm.nextUuid
  have hev := Db.Evolves.store hd hl
  rcases hm.jobs with hjobs | ⟨ht, hjobs, hfact, hfirst⟩ | hjobs
  · have hstore : db.store u = ⟨Table.put RunData.id u.toRunData db.runs, db.jobs, u.nextUuid⟩ := by
      unfold Db.store
      rw [hjobs]
      rfl
    refine ⟨hstore ▸ hw, hev, hm.nextUuid, ?_⟩
    rw [hstore]
    exact .refl
  · rename_i type n due
    have hstore : db.store u = ⟨Table.put RunData.id u.toRunData db.runs,
        db.jobs.withJob type d.run.id n due, u.nextUuid⟩ := by
      unfold Db.store
      rw [hjobs]
      rfl
    refine ⟨?_, hev, hm.nextUuid, ?_⟩
    · rw [hstore]
      refine hw.enqueue ht ⟨u.toRunData, ?_, hfact⟩ fun hdisp j hj hfor => ?_
      · rw [← hr]
        exact Db.getRun_store (by rw [hr, Db.getRun_id hd]; exact hd)
      · have hle : Reached n 0 d := (h.jobRuns j hj hfor).get (by rw [Db.getRun_id hd]; exact hd)
        exact absurd (hfirst hdisp) (not_lt.2 hle.le)
    · rw [hstore]
      exact fun j hj => ⟨j, mem_withJob_of_mem hj, rfl⟩
  · rename_i now
    have hstore : db.store u = ⟨Table.put RunData.id u.toRunData db.runs,
        (db.jobs.cancelByDedupe (dispatchKey d.run.id d.run.currentAttempt) now).2,
        u.nextUuid⟩ := by
      unfold Db.store
      rw [hjobs]
      rfl
    refine ⟨?_, hev, hm.nextUuid, ?_⟩
    · rw [hstore]
      exact hw.update (cancelByDedupe_core now)
    · rw [hstore]
      exact grows_update (cancelByDedupe_core now)

/-- A run that was just inserted. -/
structure NewRun (d : RunData) : Prop where
  attempts : d.attempts = []
  state : d.run.state = .queued
  currentAttempt : d.run.currentAttempt = 1
  ends : ∀ n, d.endedByPlatform n = false

def Db.withNew (d : RunData) (due : Time) (db : Db) : Db :=
  ⟨db.runs ++ [d], db.jobs.withJob .runDispatch d.run.id 1 due, db.nextUuid + 1⟩

theorem insertRun_cases {clk : Clock} {installation : AgentInstallation} {version : AgentVersion}
    {trigger : Trigger} {createdBy : Option UserId} {scheduleId : Option ScheduleId}
    {scheduledFor : Option Time} {parentRunId : Option RunId} {startKey : Option String}
    {triggerInput : Option Json}
    (h : (db.insertRun clk installation version trigger createdBy scheduleId scheduledFor
      parentRunId startKey triggerInput).2 = db') :
    db' = db ∨ ∃ d due, NewRun d ∧ d.run.id = db.nextUuid ∧ db' = db.withNew d due := by
  unfold Db.insertRun at h
  split at h
  · exact .inl h.symm
  · exact .inr ⟨_, clk 1, ⟨rfl, rfl, rfl, fun n => by simp [RunData.endedByPlatform,
      RunEvent.platformEnd, startRun, appendEvent, newRunData]⟩, rfl, h.symm⟩

namespace NewRun

variable {d : RunData}

theorem getAttempt (h : NewRun d) : d.getAttempt n = none := by
  unfold RunData.getAttempt
  rw [h.attempts]
  rfl

theorem refOf (h : NewRun d) : d.refOf n = none := by
  rw [RunData.refOf, h.getAttempt]
  rfl

theorem sound (h : NewRun d) : RunSound d where
  attempts := ⟨fun n a ha => (nomatch h.getAttempt.symm.trans ha), fun _ => h.getAttempt,
    fun a ha => (nomatch h.getAttempt.symm.trans ha)⟩
  refs n x hx := by
    rw [h.refOf] at hx
    cases hx
  ended n hn := by
    rw [h.ends] at hn
    cases hn

end NewRun

theorem DbSound.getRun_fresh (h : DbSound db) (hr : db.nextUuid ≤ r) : db.getRun r = none := by
  refine Table.get_eq_none.2 fun e he heq => ?_
  have hid : e.run.id = r := heq
  exact absurd ((h.runs e he).2.trans_le hr) (hid ▸ lt_irrefl _)

theorem DbSound.create {due : Time} (h : DbSound db) (hd : NewRun d)
    (hid : d.run.id = db.nextUuid) : DbSound (db.withNew d due) ∧ db.Onward (db.withNew d due) := by
  have hnone : db.getRun d.run.id = none := h.getRun_fresh hid.ge
  have hget : (Db.mk (db.runs ++ [d]) db.jobs (db.nextUuid + 1)).getRun d.run.id = some d :=
    get_append_self hnone
  have hev : db.Evolves ⟨db.runs ++ [d], db.jobs, db.nextUuid + 1⟩ := by
    intro r e he
    refine ⟨e, ?_, .refl⟩
    unfold Db.getRun at he ⊢
    rw [get_append, he]
    rfl
  have hbase : DbSound ⟨db.runs ++ [d], db.jobs, db.nextUuid + 1⟩ := by
    refine ⟨h.jobs, ?_, fun e he => ?_, fun j hj type r n hfor => ?_, h.dispatch⟩
    · rw [map_append, nodup_append]
      refine ⟨h.runIds, by simp, fun a ha b hb hab => ?_⟩
      simp only [map_cons, map_nil, mem_singleton] at hb
      obtain ⟨e, he, rfl⟩ := mem_map.1 ha
      exact Table.get_eq_none.1 hnone e he (hab.trans hb)
    · rcases mem_append.1 he with he | he
      · exact ⟨(h.runs e he).1, Nat.lt_succ_of_lt (h.runs e he).2⟩
      · rw [mem_singleton.1 he, hid]
        exact ⟨hd.sound, Nat.lt_succ_self _⟩
    · exact (h.jobRuns j hj hfor).evolves hev .later
  refine ⟨hbase.enqueue (by decide) ⟨d, hget, .inr ⟨hd.currentAttempt.symm, by simp⟩⟩
    fun _ j hj hfor => ?_, hev, Nat.le_succ _, fun j hj => ⟨j, mem_withJob_of_mem hj, rfl⟩⟩
  obtain ⟨e, he, -⟩ := h.jobRuns j hj hfor
  rw [hnone] at he
  cases he

/-- The token is one minted for the attempt of the container. -/
structure TokenSound (db : Db) (ref : RuntimeRef) (token : CapabilityClaims) : Prop where
  tokenId : token.tokenId < db.nextUuid
  runId : token.runId = ref.runId
  attempt : token.attempt = ref.attempt
  run : db.Fact ref.runId fun d => Reached ref.attempt 1 d
    ∧ token.installationId = d.run.installationId ∧ (d.getAttempt ref.attempt).isSome

/-- What a handler relies on at each of its steps. -/
def HandlerSound (db : Db) (calls : List RuntimeCall) (job : Job) : Pc → Prop
  | .start | .raised _ => True
  | .startRun spec => job.IsFor .runDispatch spec.runId spec.attempt
    ∧ TokenSound db spec.ref spec.token
  | .record spec => (job.IsFor .runDispatch spec.runId spec.attempt
    ∧ TokenSound db spec.ref spec.token) ∧ .created spec.ref ∈ calls
  | .stopNow ref => job.IsFor .runDispatch ref.runId ref.attempt
    ∧ db.Fact ref.runId fun d => Reached ref.attempt 1 d ∧ d.refOf ref.attempt = some ref
  | .cancelStop r ref => (∃ n, job.IsFor .runCancel r n)
    ∧ db.Fact r fun d => d.refOf ref.attempt = some ref
  | .cancelFinish r read => (∃ n, job.IsFor .runCancel r n)
    ∧ ∀ ref, read = some ref → db.Fact r fun d => d.refOf ref.attempt = some ref
  | .stopRun ref => job.IsFor .runStop ref.runId ref.attempt
  | .returned => (∀ {r n}, job.IsFor .runDispatch r n → db.Fact r (Reached n 1))
    ∧ ∀ {r n}, job.IsFor .runCancel r n → db.Fact r (Reached n 4)

theorem TokenSound.onward {token : CapabilityClaims} (h : TokenSound db ref token)
    (ho : db.Onward db') : TokenSound db' ref token where
  tokenId := h.tokenId.trans_le ho.nextUuid
  runId := h.runId
  attempt := h.attempt
  run := h.run.evolves ho.evolves fun hl ⟨hr, hi, hrow⟩ =>
    ⟨hl.reached hr, hi.trans hl.installationId.symm, hl.rows _ hrow⟩

theorem HandlerSound.onward {calls calls' : List RuntimeCall} {job : Job} {pc : Pc}
    (h : HandlerSound db calls job pc) (ho : db.Onward db')
    (hcalls : ∀ ref, .created ref ∈ calls → .created ref ∈ calls') :
    HandlerSound db' calls' job pc := by
  have he := ho.evolves
  cases pc with
  | start => trivial
  | raised => trivial
  | startRun => exact ⟨h.1, h.2.onward ho⟩
  | record => exact ⟨⟨h.1.1, h.1.2.onward ho⟩, hcalls _ h.2⟩
  | stopNow => exact ⟨h.1, h.2.evolves he fun hl hp => ⟨hl.reached hp.1, hl.refs _ _ hp.2⟩⟩
  | cancelStop => exact ⟨h.1, h.2.evolves he fun hl => hl.refs _ _⟩
  | cancelFinish =>
    exact ⟨h.1, fun ref href => (h.2 ref href).evolves he fun hl => hl.refs _ _⟩
  | stopRun => exact h
  | returned =>
    exact ⟨fun hfor => (h.1 hfor).evolves he fun hl => hl.reached,
      fun hfor => (h.2 hfor).evolves he fun hl => hl.reached⟩

namespace System

variable {s : System} {h : Handler} {pc : Pc}

/-- Handlers, containers and calls agree with the database. -/
structure Sound (s : System) : Prop where
  db : DbSound s.db
  handlerIds : (s.handlers.map Handler.id).Nodup
  handlerBound : ∀ h ∈ s.handlers, h.id < s.nextHandler
  jobs : ∀ h ∈ s.handlers, ∃ j ∈ s.db.jobs.rows, j.core = h.job.core
  handlers : ∀ h ∈ s.handlers, HandlerSound s.db s.calls h.job h.pc
  containers : ∀ c ∈ s.containers, TokenSound s.db c.ref c.token ∧ .created c.ref ∈ s.calls
  created : ∀ ref, .created ref ∈ s.calls → s.db.Fact ref.runId (Reached ref.attempt 1)
  recorded : ∀ d ∈ s.db.runs, ∀ n x, d.refOf n = some x → .created x ∈ s.calls

def withDb (db : Db) (s : System) : System := { s with db }

namespace Sound

section

variable (hs : Sound s)
include hs

theorem getHandler (hh : h ∈ s.handlers) : s.getHandler h.id = some h :=
  get_of_mem hs.handlerIds hh

theorem onward (hdb : DbSound db') (ho : s.db.Onward db')
    (hrec : ∀ d ∈ db'.runs, ∀ n x, d.refOf n = some x → .created x ∈ s.calls) :
    Sound (s.withDb db') where
  db := hdb
  handlerIds := hs.handlerIds
  handlerBound := hs.handlerBound
  jobs h hh := by
    obtain ⟨j, hj, hc⟩ := hs.jobs h hh
    obtain ⟨k, hk, hkj⟩ := ho.jobs j hj
    exact ⟨k, hk, hkj.trans hc⟩
  handlers h hh := (hs.handlers h hh).onward ho fun _ => id
  containers c hc := ⟨(hs.containers c hc).1.onward ho, (hs.containers c hc).2⟩
  created ref href := (hs.created ref href).evolves ho.evolves fun hl => hl.reached
  recorded := hrec

theorem store {u : Session} (hd : s.db.getRun r = some d) (hm : Moves (s.db.session d) u)
    (ha : AttemptsSound u.toRunData)
    (hrec : ∀ n x, u.refOf n = some x → d.refOf n = some x ∨ .created x ∈ s.calls) :
    Sound (s.withDb (s.db.store u)) := by
  obtain ⟨hdb, ho⟩ := hs.db.moves hd hm ha
  refine hs.onward hdb ho fun e he n x hx => ?_
  rcases mem_put he with rfl | ⟨he, -⟩
  · rcases hrec n x hx with hx | hx
    · exact hs.recorded d (get_mem hd) n x hx
    · exact hx
  · exact hs.recorded e he n x hx

theorem turn {u : Session} (hd : s.db.getRun r = some d) (ht : Turn (s.db.session d) u)
    (ha : AttemptsSound u.toRunData) : Sound (s.withDb (s.db.store u)) :=
  hs.store hd ht.moves ha fun n _ hx => .inl ((ht.refs n).symm.trans hx)

theorem update {p : Job → Bool} {f : Job → Job} (hf : ∀ j, (f j).core = j.core) :
    Sound (s.setJobs (s.db.jobs.update p f)) :=
  hs.onward (hs.db.update hf) (Db.onward_update hf) hs.recorded

theorem create {due : Time} (hd : NewRun d) (hid : d.run.id = s.db.nextUuid) :
    Sound (s.withDb (s.db.withNew d due)) := by
  obtain ⟨hdb, ho⟩ := hs.db.create hd hid
  refine hs.onward hdb ho fun e he n x hx => ?_
  rcases mem_append.1 he with he | he
  · exact hs.recorded e he n x hx
  · rw [mem_singleton.1 he, hd.refOf] at hx
    cases hx

theorem goto (hh : h ∈ s.handlers) (hpc : HandlerSound s.db s.calls h.job pc) :
    Sound (s.goto h pc) where
  db := hs.db
  handlerIds := by
    show ((Table.put Handler.id { h with pc } s.handlers).map Handler.id).Nodup
    rw [map_key_put]
    exact hs.handlerIds
  handlerBound k hk := by
    rcases mem_put hk with rfl | ⟨hk, -⟩
    · exact hs.handlerBound h hh
    · exact hs.handlerBound k hk
  jobs k hk := by
    rcases mem_put hk with rfl | ⟨hk, -⟩
    · exact hs.jobs h hh
    · exact hs.jobs k hk
  handlers k hk := by
    rcases mem_put hk with rfl | ⟨hk, -⟩
    · exact hpc
    · exact hs.handlers k hk
  containers := hs.containers
  created := hs.created
  recorded := hs.recorded

theorem drop : Sound (s.drop h) where
  db := hs.db
  handlerIds := hs.handlerIds.sublist (filter_sublist.map _)
  handlerBound k hk := hs.handlerBound k (mem_of_mem_filter hk)
  jobs k hk := hs.jobs k (mem_of_mem_filter hk)
  handlers k hk := hs.handlers k (mem_of_mem_filter hk)
  containers := hs.containers
  created := hs.created
  recorded := hs.recorded

theorem begin {worker : WorkerId} {job : Job} (hj : ∃ j ∈ s.db.jobs.rows, j.core = job.core) :
    Sound { s with
      handlers := s.handlers ++ [⟨s.nextHandler, worker, job, .start⟩]
      nextHandler := s.nextHandler + 1 } where
  db := hs.db
  handlerIds := by
    rw [map_append, nodup_append]
    refine ⟨hs.handlerIds, by simp, fun a ha b hb hab => ?_⟩
    simp only [map_cons, map_nil, mem_singleton] at hb
    obtain ⟨k, hk, rfl⟩ := mem_map.1 ha
    have := hs.handlerBound k hk
    omega
  handlerBound k hk := by
    rcases mem_append.1 hk with hk | hk
    · exact Nat.lt_succ_of_lt (hs.handlerBound k hk)
    · rw [mem_singleton.1 hk]
      exact Nat.lt_succ_self _
  jobs k hk := by
    rcases mem_append.1 hk with hk | hk
    · exact hs.jobs k hk
    · rw [mem_singleton.1 hk]
      exact hj
  handlers k hk := by
    rcases mem_append.1 hk with hk | hk
    · exact hs.handlers k hk
    · rw [mem_singleton.1 hk]
      trivial
  containers := hs.containers
  created := hs.created
  recorded := hs.recorded

theorem runtime {s' : System} (hdb : s'.db = s.db) (hhandlers : s'.handlers = s.handlers)
    (hnext : s'.nextHandler = s.nextHandler)
    (hcalls : ∀ ref, .created ref ∈ s.calls → .created ref ∈ s'.calls)
    (hcreated : ∀ ref, .created ref ∈ s'.calls → .created ref ∈ s.calls
      ∨ s.db.Fact ref.runId (Reached ref.attempt 1))
    (hcontainers : ∀ c ∈ s'.containers, c ∈ s.containers ∨ (TokenSound s.db c.ref c.token
      ∧ .created c.ref ∈ s'.calls)) :
    Sound s' where
  db := hdb ▸ hs.db
  handlerIds := hhandlers ▸ hs.handlerIds
  handlerBound := by
    rw [hhandlers, hnext]
    exact hs.handlerBound
  jobs := by
    rw [hhandlers, hdb]
    exact hs.jobs
  handlers h hh := by
    rw [hdb]
    exact (hs.handlers h (hhandlers ▸ hh)).onward .refl hcalls
  containers c hc := by
    rw [hdb]
    rcases hcontainers c hc with hc | hc
    · exact ⟨(hs.containers c hc).1, hcalls _ (hs.containers c hc).2⟩
    · exact hc
  created ref href := by
    rw [hdb]
    rcases hcreated ref href with href | href
    · exact hs.created ref href
    · exact href
  recorded d hd n x hx := hcalls x (hs.recorded d (hdb ▸ hd) n x hx)

theorem startContainer {spec : RunSpec} (ht : TokenSound s.db spec.ref spec.token) :
    Sound (s.startContainer spec) := by
  unfold System.startContainer
  split_ifs
  · exact hs
  · refine hs.runtime rfl rfl rfl (fun ref href => mem_append_left _ href)
      (fun ref href => ?_) fun c hc => ?_
    · rcases mem_append.1 href with href | href
      · exact .inl href
      · obtain rfl : ref = spec.ref := by simpa using href
        exact .inr (ht.run.mono fun _ => And.left)
    · rcases mem_append.1 hc with hc | hc
      · exact .inl hc
      · obtain rfl : c = ⟨spec.ref, spec.token⟩ := by simpa using hc
        exact .inr ⟨ht, by simp⟩

theorem removeContainer : Sound (s.removeContainer ref) :=
  hs.runtime rfl rfl rfl (fun _ => id) (fun _ => .inl) fun _ hc =>
    .inl (mem_of_mem_filter hc)

theorem stopContainer : Sound (s.stopContainer ref) :=
  hs.runtime rfl rfl rfl (fun _ href => mem_append_left _ href)
    (fun _ href => .inl (by simpa [System.stopContainer] using href))
    fun _ hc => .inl (mem_of_mem_filter hc)

end

end Sound

theorem created_startContainer (hs : Sound s) (spec : RunSpec) :
    .created spec.ref ∈ (s.startContainer spec).calls := by
  unfold startContainer
  split_ifs with hc
  · obtain ⟨c, hc, href⟩ : ∃ c ∈ s.containers, c.ref = spec.ref := by
      simpa [hasContainer] using hc
    exact href ▸ (hs.containers c hc).2
  · simp

end System

end Crewquarters
