import Crewquarters.Proofs.Database

/-!
# The writes an operation is made of

Every operation on a locked run is a sequence of small writes (`Edit`): moves of the run's row with
their event, other events, rows of attempts and requests. `RunCall.edits`, `WorkerCall.edits` and
`watch_edits` take the operations apart once, and what each write does to a run, every operation
does. Only `ask` opens questions, and only a batch stores events with ids of the agent's own.
-/

namespace Crewquarters

open List

open RunState (canTransition)

variable {now : Time}

def RunCall.asks : RunCall → Prop
  | .ask .. => True
  | _ => False

def RunCall.reports : RunCall → Prop
  | .recordAgentEventBatch .. => True
  | _ => False

def DbOp.asks : DbOp → Prop
  | .client (.call _ c) => c.asks
  | _ => False

def DbOp.reports : DbOp → Prop
  | .client (.call _ c) => c.reports
  | _ => False

/-- One write, by an operation that may ask questions or report events. -/
inductive Edit (G : Guards) (asks reports : Prop) : Session → Session → Prop where
  | move {s now target reason error retryable} (can : canTransition s.run.state target = true)
      (asked : target ≠ .waitingInput ∨ asks) :
      Edit G asks reports s (moved now target reason error retryable s)
  | mark {s now} : Edit G asks reports s (markCancel now s)
  | reset {s} (ended : s.run.state = .failed ∨ s.run.state = .interrupted) :
      Edit G asks reports s (resetForRetry s)
  | result {s result} : Edit G asks reports s (s.setResult result)
  | event {s type payload} (type_ne : type ≠ .stateChanged) :
      Edit G asks reports s (appendEvent type payload s)
  | batch {s events} (reported : reports) (types : ∀ e ∈ events, e.type ∈ agentEventTypes) :
      Edit G asks reports s { s with events := s.events ++ batchRows G events s }
  | addAttempt {s a} : Edit G asks reports s (s.addAttempt a)
  | putAttempt {s a} : Edit G asks reports s (s.putAttempt a)
  | jobs {s jobs} : Edit G asks reports s (s.setJobs jobs)
  | uuid {s} : Edit G asks reports s s.takeUuid
  | actions {s actions} : Edit G asks reports s { s with actions }
  /-- a pending request is closed; with one request an id, it is the row that is there -/
  | close {s r state} (pending : r.state = .pending) (closed : state ≠ .pending)
      (row : (s.requests.map InputRequest.id).Nodup → r ∈ s.requests) :
      Edit G asks reports s (s.putRequest { r with state, version := r.version + 1 })
  | answer {s r value user now} (pending : r.state = .pending) (row : r ∈ s.requests) :
      Edit G asks reports s (s.putRequest (r.answeredWith value user now))
  | reopen {s old n title prompt schema preview deadline} (asked : asks)
      (closed : old.state = .cancelled ∨ old.state = .expired) (row : old ∈ s.requests) :
      Edit G asks reports s (s.putRequest (openRequest G old.id n old.key title prompt schema
        preview deadline (old.version + 1) (some old)))
  | ask {s n key title prompt schema preview deadline} (asked : asks)
      (row : Table.get InputRequest.key key s.requests = none) :
      Edit G asks reports s (s.addRequest (openRequest G s.nextUuid n key title prompt schema
        preview deadline 1 none))

theorem Edit.mono {G : Guards} {asks reports asks' reports' : Prop} {s t : Session}
    (h : Edit G asks reports s t) (hasks : asks → asks') (hreports : reports → reports') :
    Edit G asks' reports' s t := by
  cases h with
  | move can asked => exact .move can (asked.imp_right hasks)
  | mark => exact .mark
  | reset ended => exact .reset ended
  | result => exact .result
  | event type_ne => exact .event type_ne
  | batch reported types => exact .batch (hreports reported) types
  | addAttempt => exact .addAttempt
  | putAttempt => exact .putAttempt
  | jobs => exact .jobs
  | uuid => exact .uuid
  | actions => exact .actions
  | close pending closed row => exact .close pending closed row
  | answer pending row => exact .answer pending row
  | reopen asked closed row => exact .reopen (hasks asked) closed row
  | ask asked row => exact .ask (hasks asked) row

def Edits (G : Guards) (asks reports : Prop) : Session → Session → Prop :=
  Relation.ReflTransGen (Edit G asks reports)

variable {G : Guards} {asks reports : Prop} {s t u : Session} {clk : Clock}

namespace Edits

theorem keeps {I : Session → Prop}
    (hstep : ∀ ⦃s t : Session⦄, Edit G asks reports s t → I s → I t)
    (h : Edits G asks reports s t) (hs : I s) : I t := by
  induction h with
  | refl => exact hs
  | tail _ hlast ih => exact hstep hlast ih

theorem relates {R : Session → Session → Prop} (hrefl : ∀ s, R s s)
    (htrans : ∀ ⦃s t u⦄, R s t → R t u → R s u)
    (hstep : ∀ ⦃s t : Session⦄, Edit G asks reports s t → R s t)
    (h : Edits G asks reports s t) : R s t := by
  induction h with
  | refl => exact hrefl s
  | tail _ hlast ih => exact htrans ih (hstep hlast)

theorem refl : Edits G asks reports s s := Relation.ReflTransGen.refl

theorem one (h : Edit G asks reports s t) : Edits G asks reports s t :=
  Relation.ReflTransGen.single h

theorem trans (h : Edits G asks reports s t) (h' : Edits G asks reports t u) :
    Edits G asks reports s u :=
  Relation.ReflTransGen.trans h h'

theorem mono {asks' reports' : Prop} (h : Edits G asks reports s t) (hasks : asks → asks')
    (hreports : reports → reports') : Edits G asks' reports' s t :=
  Relation.ReflTransGen.mono (fun _ _ h => Edit.mono h hasks hreports) _ _ h

theorem next (h : Edits G asks reports s t) (h' : Edit G asks reports t u) :
    Edits G asks reports s u :=
  Relation.ReflTransGen.tail h h'

/-- Closing requests that are pending rows. After each of them the others still are rows, since
they have other ids. -/
theorem closeRequests {state : RequestState} (hstate : state ≠ .pending) :
    ∀ (l : List InputRequest) {s : Session}, (∀ r ∈ l, r.state = .pending) →
      ((s.requests.map InputRequest.id).Nodup →
        (l.map InputRequest.id).Nodup ∧ ∀ r ∈ l, r ∈ s.requests) →
      Edits G asks reports s (l.foldl (closeRequest state) s)
  | [], _, _, _ => refl
  | r :: l, s, hpending, hrows => by
    let closed : Session := s.putRequest { r with state, version := r.version + 1 }
    have hclose : Edit G asks reports s closed :=
      .close (hpending r (by simp)) hstate fun hn => (hrows hn).2 r (by simp)
    have hevent : Edit G asks reports closed (closeRequest state s r) := .event (by decide)
    refine ((one hclose).next hevent).trans (closeRequests hstate l
      (fun x hx => hpending x (mem_cons_of_mem _ hx)) fun hn => ?_)
    have hids : (closeRequest state s r).requests.map InputRequest.id
        = s.requests.map InputRequest.id := Table.map_key_put ..
    rw [hids] at hn
    obtain ⟨hnodup, hmem⟩ := hrows hn
    rw [map_cons, nodup_cons] at hnodup
    refine ⟨hnodup.2, fun x hx => Table.mem_put_of_mem (hmem x (mem_cons_of_mem _ hx)) ?_⟩
    exact fun hid => hnodup.1 (mem_map.2 ⟨x, hx, hid⟩)

theorem closeInputs : Edits G asks reports s (closePendingInputs .cancelled s) := by
  refine closeRequests (by decide) _ (fun r hr => ?_) fun hn => ⟨?_, fun r hr => ?_⟩
  · simpa using (mem_filter.1 hr).2
  · exact hn.sublist (filter_sublist.map _)
  · exact (mem_filter.1 hr).1

theorem expireRequests : Edits G asks reports s
    (((pendingRequests s).filter fun r => r.deadline ≤ now).foldl (closeRequest .expired) s) := by
  have hsub : ((pendingRequests s).filter fun r => r.deadline ≤ now).Sublist (pendingRequests s) :=
    filter_sublist
  refine closeRequests (by decide) _ (fun r hr => ?_) fun hn => ⟨?_, fun r hr => ?_⟩
  · simpa using (mem_filter.1 (hsub.subset hr)).2
  · exact hn.sublist ((hsub.trans filter_sublist).map _)
  · exact (mem_filter.1 (hsub.subset hr)).1

theorem prepare : Edits G asks reports s (prepared now s) := by
  unfold prepared
  split_ifs with hq
  · exact one (.move (by rw [hq]; rfl) (.inl (by decide)))
  · exact refl

theorem wait {key : String} (h : asks) : Edits G asks reports s (waited now key s) := by
  unfold waited
  split_ifs with hr
  · exact one (.move (by rw [hr]; rfl) (.inr h))
  · exact refl

theorem resume : Edits G asks reports s (resumed now s) := by
  unfold resumed
  split_ifs with hw
  · exact one (.move (by rw [hw.1]; rfl) (.inl (by decide)))
  · exact refl

theorem finish : Edits G asks reports s (finishing now s) := by
  unfold finishing
  split_ifs with hs
  · exact one (.move (by rcases hs with hs | hs <;> rw [hs] <;> rfl) (.inl (by decide)))
  · exact refl

theorem exit {n : ℕ} : Edits G asks reports s (exitAttempt now n s) := by
  unfold exitAttempt
  split
  · exact refl
  · exact one .putAttempt

theorem noteExit {code : Option ℤ} {a : RunAttempt} :
    Edits G asks reports s (noteExit code a s) := by
  unfold Crewquarters.noteExit
  split_ifs
  · exact one .putAttempt
  · exact refl

theorem stop {interrupted : Bool} {error : Json} :
    Edits G asks reports s (stopAttempt clk interrupted error s) := by
  simp only [stopAttempt]
  split
  · exact refl
  · split
    · exact refl
    · split
      · exact (one .putAttempt).next .jobs
      · exact one .putAttempt

theorem failed {code message : String} {retryable interrupted : Bool}
    {details : List (String × Json)} (hw : s.run.state ∈ RunState.watchedStates) :
    Edits G asks reports s (failedRun clk code message retryable interrupted details s) := by
  refine (((one (.event (by decide))).next (.move (can_fail hw) ?_)).trans stop).trans closeInputs
  cases interrupted <;> exact .inl (by decide)

theorem fail {code message : String} {retryable interrupted : Bool}
    {details : List (String × Json)}
    (h : failRun clk code message retryable interrupted details s = .ok t) :
    Edits G asks reports s t := by
  rcases failRun_cases h with rfl | ⟨hw, rfl⟩
  · exact refl
  · exact failed hw

theorem expire {k : ℕ} (h : expireInputs clk now s = .ok (k, t)) : Edits G asks reports s t := by
  obtain ⟨rfl, -⟩ | ⟨-, -, rfl⟩ := expireInputs_cases h
  · exact refl
  · exact expireRequests.trans resume

theorem start {hb : ℕ} {a : RunAttempt} (h : beginAttempt clk hb s = .ok (a, t)) :
    Edits G asks reports s t := by
  obtain ⟨-, rfl⟩ | ⟨-, -, rfl⟩ := beginAttempt_cases h
  · exact prepare
  · exact prepare.next .addAttempt

theorem deadJob {type : JobType} {payload : JobPayload}
    (h : onDeadJob clk type payload s = .ok t) : Edits G asks reports s t := by
  obtain ⟨rfl, -⟩ | ⟨-, hs, rfl⟩ | ⟨-, hs, rfl⟩ := onDeadJob_cases h
  · exact refl
  · exact prepare.trans (failed (prepared_watched hs))
  · exact one (.move (by rw [hs]; rfl) (.inl (by decide)))

theorem asked {n : ℕ} {key title prompt : String} {schema : Json} {timeout : ℤ}
    {preview : Option Json} {r : InputRequest}
    (h : Asked G clk n key title prompt schema timeout preview s r t) (hasks : asks) :
    Edits G asks reports s t := by
  cases h with
  | closed => exact refl
  | waiting => exact wait hasks
  | reopened row closed checked request =>
    obtain rfl := Table.get_key row
    subst request
    exact ((one (.reopen hasks closed (Table.get_mem row))).next (.event (by decide))).trans
      (wait hasks)
  | new row checked request =>
    subst request
    exact ((one (.ask hasks row)).next (.event (by decide))).trans (wait hasks)

end Edits

theorem RunCall.edits {c : RunCall} (hc : c.exec G clk s = .ok t) :
    Edits G c.asks c.reports s t := by
  cases c with
  | requestCancel reason =>
    rcases requestCancel_cases hc with rfl | ⟨hq, rfl⟩ | ⟨hw, rfl⟩
    · exact .refl
    · refine (((Edits.one .mark).next .jobs).next (.move ?_ (.inl (by decide)))).trans .closeInputs
      exact congrArg (canTransition · _) hq
    · exact (((Edits.one .mark).next (.move (can_cancel hw) (.inl (by decide)))).next .jobs).trans
        .closeInputs
  | retry =>
    obtain ⟨hf, rfl⟩ := retry_cases hc
    refine ((Edits.one (.reset hf)).next (.move ?_ (.inl (by decide)))).next .jobs
    rcases hf with hf | hf <;> exact congrArg (canTransition · _) hf
  | handshake n hb =>
    obtain ⟨-, a, -, ⟨hp, rfl⟩ | ⟨-, rfl⟩⟩ := handshake_cases hc
    · exact (Edits.one (.move (by rw [hp]; rfl) (.inl (by decide)))).next .putAttempt
    · exact .one .putAttempt
  | heartbeat =>
    obtain ⟨r, hc⟩ := dropResult_eq_ok.1 hc
    obtain ⟨-, rfl | ⟨a, -, rfl⟩⟩ := heartbeat_cases hc
    · exact .refl
    · exact .one .putAttempt
  | setModelLoading =>
    obtain ⟨-, rfl | ⟨reason, ⟨hs, rfl⟩ | ⟨hs, rfl⟩⟩⟩ := setModelLoading_cases hc
    · exact .refl
    · exact .one (.move (by rw [hs]; rfl) (.inl (by decide)))
    · exact .one (.move (by rw [hs]; rfl) (.inl (by decide)))
  | recordAgentEvent =>
    obtain ⟨htype, -, -, rfl⟩ := recordAgentEvent_cases hc
    exact .one (.event (ne_of_agentEvent htype).1)
  | recordAgentEventBatch =>
    obtain ⟨r, hc⟩ := dropResult_eq_ok.1 hc
    obtain ⟨-, -, hevents, rfl⟩ := recordAgentEventBatch_cases hc
    exact .one (.batch trivial hevents)
  | finish n status result error =>
    obtain ⟨-, ⟨-, rfl⟩ | ⟨hs, rfl⟩ | ⟨-, target, st, err, r, hends, hcan, rfl⟩⟩ := finish_cases hc
    · exact .exit
    · refine (Edits.exit.next .result).next (.move ?_ (.inl (by decide)))
      rw [setResult_state, exitAttempt_run, hs]
      rfl
    · refine ((((Edits.exit.next .result).trans .finish).next (.event (by decide))).next
        (.move hcan ?_)).trans .closeInputs
      rcases hends.target with rfl | rfl <;> exact .inl (by decide)
  | failRun => exact .fail hc
  | recordContainerExit =>
    obtain ⟨r, hc⟩ := dropResult_eq_ok.1 hc
    obtain rfl | ⟨a, -, -, rfl | ⟨-, code, message, details, hf⟩⟩ := recordContainerExit_cases hc
    · exact .refl
    · exact .noteExit
    · exact Edits.noteExit.trans (.fail hf)
  | ask =>
    obtain ⟨r, hc⟩ := dropResult_eq_ok.1 hc
    exact .asked (ask_asked hc).2.2 trivial
  | answer id version value user =>
    obtain ⟨r, hc⟩ := dropResult_eq_ok.1 hc
    obtain ⟨old, hold, hp, -, -, -, rfl, rfl⟩ := answer_spec hc
    exact ((Edits.one (.answer hp (Table.get_mem hold))).next (.event (by decide))).trans .resume
  | expireInputs =>
    obtain ⟨k, hc⟩ := dropResult_eq_ok.1 hc
    exact .expire hc
  | claimAction =>
    obtain ⟨r, hc⟩ := dropResult_eq_ok.1 hc
    obtain ⟨actions, rfl⟩ := claimAction_frame hc
    exact .one .actions
  | completeAction =>
    obtain ⟨r, hc⟩ := dropResult_eq_ok.1 hc
    obtain ⟨actions, rfl⟩ := completeAction_frame hc
    exact .one .actions

theorem WorkerCall.edits {c : WorkerCall} (hc : c.exec clk s = .ok t) :
    Edits G asks reports s t := by
  cases c with
  | beginAttempt =>
    obtain ⟨a, hc⟩ := dropResult_eq_ok.1 (raising_eq_ok.1 hc)
    exact .start hc
  | dispatchPrepare settings catalog n =>
    obtain ⟨spec, hc⟩ := dropResult_eq_ok.1 hc
    obtain ⟨-, rfl, -⟩ | ⟨a, u, -, -, hu, ⟨-, hf⟩ | ⟨-, -, rfl⟩ | ⟨-, sp, -, -, rfl⟩⟩ :=
      dispatchPrepare_cases hc
    · exact .refl
    · exact (Edits.start hu).trans (.fail hf)
    · exact .start hu
    · exact ((Edits.start hu).next .putAttempt).next .uuid
  | dispatchRecord =>
    obtain ⟨stop, hc⟩ := dropResult_eq_ok.1 hc
    obtain ⟨a, -, -, ⟨-, hb, rfl⟩ | ⟨-, rfl⟩⟩ := dispatchRecord_cases hc
    · exact .one .putAttempt
    · exact .refl
  | cancelFinish ref =>
    obtain ⟨late, hc⟩ := dropResult_eq_ok.1 hc
    obtain ⟨-, -, rfl⟩ | ⟨hs, -, -, rfl⟩ | ⟨hs, a, -, -, rfl⟩ := cancelFinish_cases hc
    · exact .refl
    · exact .one (.move (by rw [hs]; rfl) (.inl (by decide)))
    · exact (Edits.one .putAttempt).next (.move (by simp [hs]; rfl) (.inl (by decide)))
  | onDeadJob => exact .deadJob (raising_eq_ok.1 hc)

theorem watch_edits (h : watch clk now s = .ok t) : Edits G asks reports s t := by
  rcases watch_cases h with rfl | ⟨k, code, message, retryable, interrupted, hf⟩ | ⟨k, he⟩
  · exact .refl
  · exact .fail hf
  · exact .expire he

theorem RunInvariant.of_edits {I : RunData → Prop}
    (hnew : ∀ (clk : Clock) (id : RunId) (installation : AgentInstallation)
      (version : AgentVersion) (trigger : Trigger) (createdBy : Option UserId)
      (scheduleId : Option ScheduleId) (scheduledFor : Option Time) (parentRunId : Option RunId)
      (startKey : Option String) (triggerInput : Option Json) (jobs : JobTable) (nextUuid : ℕ),
      I (startRun (clk 1) ⟨newRunData (clk 0) id installation version trigger createdBy scheduleId
        scheduledFor parentRunId startKey triggerInput, jobs, nextUuid⟩).toRunData)
    (hstep : ∀ ⦃s t : Session⦄, Edit G True True s t → I s.toRunData → I t.toRunData) :
    RunInvariant G I where
  new := hnew
  call hc := ((RunCall.edits hc).mono (fun _ => trivial) fun _ => trivial).keeps
    (I := fun s => I s.toRunData) hstep
  worker hc := (WorkerCall.edits hc).keeps (I := fun s => I s.toRunData) hstep

/-- A write of a transaction: the jobs, or the rows of a run whose row it holds. -/
inductive DbEdit (G : Guards) (asks reports : Prop) : Db → Db → Prop where
  | jobs {db jobs} : DbEdit G asks reports db { db with jobs }
  | store {db id d s} (row : db.getRun id = some d)
      (edits : Edits G asks reports (db.session d) s) : DbEdit G asks reports db (db.store s)

def DbEdits (G : Guards) (asks reports : Prop) : Db → Db → Prop :=
  Relation.ReflTransGen (DbEdit G asks reports)

namespace DbEdits

variable {db db' : Db} {id : RunId}

theorem keeps {P : Db → Prop} (hstep : ∀ ⦃db db' : Db⦄, DbEdit G asks reports db db' → P db → P db')
    (h : DbEdits G asks reports db db') (hP : P db) : P db' := by
  induction h with
  | refl => exact hP
  | tail _ hlast ih => exact hstep hlast ih

theorem onRun {f : Session → Except JobError Session}
    (hf : ∀ {s t : Session}, f s = .ok t → Edits G asks reports s t) (h : db.onRun id f = .ok db') :
    DbEdits G asks reports db db' := by
  obtain ⟨d, s, hd, hs, rfl⟩ := Db.onRun_eq_ok h
  exact .single (.store hd (hf hs))

theorem settle {times : ℕ → Clock} {locked : List RunId} {job : Job}
    (h : settleUnlocked times locked db job = .ok db') : DbEdits G asks reports db db' := by
  unfold settleUnlocked at h
  split at h
  · exact Except.ok.inj h ▸ .refl
  · split at h
    · exact Except.ok.inj h ▸ .refl
    · rename_i d hd
      obtain ⟨s, hs, h⟩ := bind_eq_ok.1 h
      exact Except.ok.inj h ▸ .single (.store hd (.deadJob (raising_eq_ok.1 hs)))

theorem watch {times : RunId → Clock} (h : watchRun times now db id = .ok db') :
    DbEdits G asks reports db db' :=
  onRun (f := fun s => raising (Crewquarters.watch (times id) now s))
    (fun hs => watch_edits (raising_eq_ok.1 hs)) h

theorem tick {times : TickClock} {locked : List RunId} (h : tick times locked db = .ok db') :
    DbEdits G asks reports db db' := by
  obtain ⟨u, hu, h⟩ := bind_eq_ok.1 h
  have hreaped : DbEdits G asks reports db
      { db with jobs := (db.jobs.reapExpired times.reap).2.2 } :=
    .single .jobs
  have hsettled : DbEdits G asks reports db u :=
    foldlM_keeps (P := DbEdits G asks reports db) (fun hb hjob => hb.trans (settle hjob)) hreaped hu
  exact foldlM_keeps (P := DbEdits G asks reports db)
    (fun hb hrun => hb.trans (watch hrun)) hsettled h

end DbEdits

theorem DbOp.edits {op : DbOp} {db db' : Db} (h : op.exec G clk db = .ok db') :
    DbEdits G op.asks op.reports db db'
    ∨ ∃ installation version trigger user schedule scheduledFor parent key input,
      op = .client (.createRun installation version trigger user schedule scheduledFor parent key
        input)
      ∧ db' = (db.insertRun clk installation version trigger user schedule scheduledFor parent key
        input).2 := by
  cases op with
  | client op =>
    cases op with
    | createRun installation version trigger user schedule scheduledFor parent key input =>
      exact .inr ⟨installation, version, trigger, user, schedule, scheduledFor, parent, key, input,
        rfl, Db.exec_createRun (G := G) h⟩
    | call => exact .inl (.onRun (fun hs => RunCall.edits (raising_eq_ok.1 hs)) h)
    | answer =>
      simp only [DbOp.exec, ClientOp.exec] at h
      split at h
      · cases h
      · exact .inl (.onRun (fun hs => RunCall.edits (raising_eq_ok.1 hs)) h)
  | worker => exact .inl (.onRun WorkerCall.edits h)
  | tick => exact .inl (.tick h)

end Crewquarters
