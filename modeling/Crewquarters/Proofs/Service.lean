import Crewquarters.Operations
import Crewquarters.Lib.Outcome

/-!
# What the run service's operations return

For each operation the sessions it can return, with what it found (`handshake_cases`,
`failRun_cases`, ..), and for each of the small writes they are made of, what it leaves alone.
Every invariant of a run is proved from these.
-/

namespace Crewquarters

open List Except

open RunState (canTransition watchedStates terminalStates)

variable {s t : Session}
variable {now : Time} {error : Option Json} {retryable : Option Bool} {hb n : ℕ} {a : RunAttempt}
  {clk : Clock} {r : InputRequest} {G : Guards} {key : String}

section Frame

variable (type : EventType) (payload : Payload) (now : Time) (target : RunState)
  (reason : Option String) (error : Option Json) (retryable : Option Bool) (run : AgentRun)

@[simp] theorem appendEvent_run : (appendEvent type payload s).run = s.run := rfl

@[simp] theorem appendEvent_attempts : (appendEvent type payload s).attempts = s.attempts := rfl

@[simp] theorem appendEvent_requests : (appendEvent type payload s).requests = s.requests := rfl

@[simp] theorem appendEvent_jobs : (appendEvent type payload s).jobs = s.jobs := rfl

theorem account_eq : ∃ a w, account now run =
    { run with activeSecondsUsed := a, inputWaitSecondsUsed := w } := by
  unfold account
  split_ifs
  · exact ⟨_, run.inputWaitSecondsUsed, rfl⟩
  · exact ⟨run.activeSecondsUsed, _, rfl⟩
  · exact ⟨run.activeSecondsUsed, run.inputWaitSecondsUsed, rfl⟩

@[simp] theorem enter_state : (enter now target error retryable run).state = target := rfl

@[simp] theorem enter_id : (enter now target error retryable run).id = run.id := by
  obtain ⟨a, w, h⟩ := account_eq now run
  simp [enter, h]

@[simp] theorem enter_currentAttempt :
    (enter now target error retryable run).currentAttempt = run.currentAttempt := by
  obtain ⟨a, w, h⟩ := account_eq now run
  simp [enter, h]

@[simp] theorem enter_installationId :
    (enter now target error retryable run).installationId = run.installationId := by
  obtain ⟨a, w, h⟩ := account_eq now run
  simp [enter, h]

@[simp] theorem moved_state : (moved now target reason error retryable s).run.state = target := rfl

@[simp] theorem moved_run_id :
    (moved now target reason error retryable s).run.id = s.run.id := enter_id ..

@[simp] theorem moved_currentAttempt :
    (moved now target reason error retryable s).run.currentAttempt = s.run.currentAttempt :=
  enter_currentAttempt ..

@[simp] theorem moved_installationId :
    (moved now target reason error retryable s).run.installationId = s.run.installationId :=
  enter_installationId ..

@[simp] theorem moved_attempts :
    (moved now target reason error retryable s).attempts = s.attempts := rfl

@[simp] theorem moved_requests :
    (moved now target reason error retryable s).requests = s.requests := rfl

@[simp] theorem moved_actions :
    (moved now target reason error retryable s).actions = s.actions := rfl

@[simp] theorem moved_jobs : (moved now target reason error retryable s).jobs = s.jobs := rfl

@[simp] theorem moved_nextUuid :
    (moved now target reason error retryable s).nextUuid = s.nextUuid := rfl

end Frame

@[simp] theorem putAttempt_run (a : RunAttempt) : (s.putAttempt a).run = s.run := rfl

@[simp] theorem putAttempt_requests (a : RunAttempt) : (s.putAttempt a).requests = s.requests := rfl

@[simp] theorem putRequest_run (r : InputRequest) : (s.putRequest r).run = s.run := rfl

@[simp] theorem setResult_state (result : Option Json) :
    (s.setResult result).run.state = s.run.state := rfl

@[simp] theorem enqueue_toRunData (type : JobType) (key : DedupeKey) (now : Time) :
    (s.enqueue type key now).toRunData = s.toRunData := rfl

theorem foldl_closeRequest_frame (state : RequestState) (l : List InputRequest) (s : Session) :
    (l.foldl (closeRequest state) s).run = s.run
      ∧ (l.foldl (closeRequest state) s).attempts = s.attempts
      ∧ (l.foldl (closeRequest state) s).actions = s.actions
      ∧ (l.foldl (closeRequest state) s).jobs = s.jobs
      ∧ (l.foldl (closeRequest state) s).nextUuid = s.nextUuid := by
  induction l generalizing s with
  | nil => exact ⟨rfl, rfl, rfl, rfl, rfl⟩
  | cons r l ih => exact ih (closeRequest state s r)

@[simp] theorem closePendingInputs_run (state : RequestState) :
    (closePendingInputs state s).run = s.run :=
  (foldl_closeRequest_frame state _ s).1

@[simp] theorem closePendingInputs_attempts (state : RequestState) :
    (closePendingInputs state s).attempts = s.attempts :=
  (foldl_closeRequest_frame state _ s).2.1

@[simp] theorem closePendingInputs_jobs (state : RequestState) :
    (closePendingInputs state s).jobs = s.jobs :=
  (foldl_closeRequest_frame state _ s).2.2.2.1

@[simp] theorem exitAttempt_run (now : Time) (n : ℕ) : (exitAttempt now n s).run = s.run := by
  unfold exitAttempt
  split <;> rfl

@[simp] theorem exitAttempt_requests (now : Time) (n : ℕ) :
    (exitAttempt now n s).requests = s.requests := by
  unfold exitAttempt
  split <;> rfl

@[simp] theorem stopAttempt_run (clk : Clock) (interrupted : Bool) (error : Json) :
    (stopAttempt clk interrupted error s).run = s.run := by
  simp only [stopAttempt]
  split
  · rfl
  · split
    · rfl
    · split <;> rfl

@[simp] theorem stopAttempt_attemptNos (clk : Clock) (interrupted : Bool) (error : Json) :
    (stopAttempt clk interrupted error s).attempts.map (·.attempt)
      = s.attempts.map (·.attempt) := by
  simp only [stopAttempt]
  split
  · rfl
  · split
    · rfl
    · split <;> exact Table.map_key_put ..

@[simp] theorem exitAttempt_attemptNos (now : Time) (n : ℕ) :
    (exitAttempt now n s).attempts.map (·.attempt) = s.attempts.map (·.attempt) := by
  unfold exitAttempt
  split
  · rfl
  · exact Table.map_key_put ..

@[simp] theorem noteExit_requests (exitCode : Option ℤ) (a : RunAttempt) :
    (noteExit exitCode a s).requests = s.requests := by
  unfold noteExit
  split_ifs <;> rfl

@[simp] theorem noteExit_run (exitCode : Option ℤ) (a : RunAttempt) :
    (noteExit exitCode a s).run = s.run := by
  unfold noteExit
  split_ifs <;> rfl

theorem transition_eq_ok {target : RunState} {reason : Option String} :
    transition now target reason error retryable s = .ok t ↔
      canTransition s.run.state target = true ∧ t = moved now target reason error retryable s := by
  by_cases h : canTransition s.run.state target = true
  · simp [transition, h, eq_comm]
  · simp [transition, h]

theorem requireAttempt_eq_ok {u : Unit} :
    requireAttempt n s = .ok u ↔ n = s.run.currentAttempt := by
  unfold requireAttempt
  split_ifs with h <;> simp_all

theorem startedAttempt_eq_ok :
    startedAttempt n s = .ok a ↔ s.getAttempt n = some a := by
  unfold startedAttempt
  split <;> simp_all

theorem raising_eq_ok {α : Type} {x : Except PlatformError α} {a : α} :
    raising x = .ok a ↔ x = .ok a := by
  cases x <;> simp [raising]

theorem dropResult_eq_ok {ε α : Type} {x : Except ε (α × Session)} :
    dropResult x = .ok t ↔ ∃ a, x = .ok (a, t) := by
  rcases x with e | ⟨a, u⟩
  · simp [dropResult, Except.map]
  · simp [dropResult, Except.map]

theorem transition_of_can {target : RunState} {reason : Option String}
    (h : canTransition s.run.state target = true) :
    transition now target reason error retryable s
      = .ok (moved now target reason error retryable s) :=
  transition_eq_ok.2 ⟨h, rfl⟩

/-- `QUEUED -> PREPARING`. -/
def prepared (now : Time) (s : Session) : Session :=
  if s.run.state = .queued then moved now .preparing none none none s else s

theorem prepare_eq (now : Time) (s : Session) : prepare now s = .ok (prepared now s) := by
  unfold prepare prepared
  split_ifs with h
  · exact transition_of_can (by rw [h]; rfl)
  · rfl

section Prepared

variable (now : Time) (s : Session)

@[simp] theorem prepared_run_id : (prepared now s).run.id = s.run.id := by
  unfold prepared
  split_ifs <;> simp

@[simp] theorem prepared_currentAttempt :
    (prepared now s).run.currentAttempt = s.run.currentAttempt := by
  unfold prepared
  split_ifs <;> simp

@[simp] theorem prepared_installationId :
    (prepared now s).run.installationId = s.run.installationId := by
  unfold prepared
  split_ifs <;> simp

@[simp] theorem prepared_attempts : (prepared now s).attempts = s.attempts := by
  unfold prepared
  split_ifs <;> simp

@[simp] theorem prepared_requests : (prepared now s).requests = s.requests := by
  unfold prepared
  split_ifs <;> simp

@[simp] theorem prepared_actions : (prepared now s).actions = s.actions := by
  unfold prepared
  split_ifs <;> simp

@[simp] theorem prepared_jobs : (prepared now s).jobs = s.jobs := by
  unfold prepared
  split_ifs <;> simp

@[simp] theorem prepared_nextUuid : (prepared now s).nextUuid = s.nextUuid := by
  unfold prepared
  split_ifs <;> simp

end Prepared

theorem prepared_not_queued (now : Time) (s : Session) :
    (prepared now s).run.state ≠ .queued := by
  unfold prepared
  split_ifs with h
  · simp
  · exact h

theorem prepared_watched (h : s.run.state = .queued ∨ s.run.state = .preparing) :
    (prepared now s).run.state ∈ watchedStates := by
  rcases h with h | h <;> simp [prepared, h, watchedStates]

/-- `RUNNING -> WAITING_INPUT`. -/
def waited (now : Time) (key : String) (s : Session) : Session :=
  if s.run.state = .running then
    moved now .waitingInput (some ("input:" ++ key)) none none s
  else s

theorem waitForInput_eq (now : Time) (key : String) (s : Session) :
    waitForInput now key s = .ok (waited now key s) := by
  unfold waitForInput waited
  split_ifs with h
  · exact transition_of_can (by rw [h]; rfl)
  · rfl

def resumed (now : Time) (s : Session) : Session :=
  if s.run.state = .waitingInput ∧ pendingRequests s = [] then
    moved now .running (some "input_closed") none none s
  else s

theorem resumed_requests : (resumed now s).requests = s.requests := by
  unfold resumed
  split_ifs <;> rfl

theorem resumeIfNoPending_eq (now : Time) (s : Session) :
    resumeIfNoPending now s = .ok (resumed now s) := by
  unfold resumeIfNoPending resumed
  by_cases hw : s.run.state = .waitingInput
  · by_cases hp : pendingRequests s = []
    · rw [if_neg (by simp [hw]), if_pos (by simp [hp]), if_pos ⟨hw, hp⟩]
      exact transition_of_can (by rw [hw]; rfl)
    · rw [if_neg (by simp [hw]), if_neg (by simp [hp]), if_neg (by simp [hp])]
  · rw [if_pos hw, if_neg (by simp [hw])]

/-- `LOADING_MODEL` or `WAITING_INPUT -> RUNNING`, before a result is recorded. -/
def finishing (now : Time) (s : Session) : Session :=
  if s.run.state = .loadingModel ∨ s.run.state = .waitingInput then
    moved now .running (some "finishing") none none s
  else s

theorem resumeToFinish_eq (now : Time) (s : Session) :
    resumeToFinish now s = .ok (finishing now s) := by
  unfold resumeToFinish finishing
  split_ifs with h
  · exact transition_of_can (by rcases h with h | h <;> rw [h] <;> rfl)
  · rfl

theorem finishing_state (now : Time) (s : Session) : (finishing now s).run.state =
    if s.run.state = .loadingModel ∨ s.run.state = .waitingInput then .running
    else s.run.state := by
  unfold finishing
  split_ifs <;> rfl

theorem finishing_attempts (now : Time) (s : Session) :
    (finishing now s).attempts = s.attempts := by
  unfold finishing
  split_ifs <;> rfl

theorem finishing_currentAttempt (now : Time) (s : Session) :
    (finishing now s).run.currentAttempt = s.run.currentAttempt := by
  unfold finishing
  split_ifs <;> simp

def failedRun (clk : Clock) (code message : String) (retryable interrupted : Bool)
    (details : List (String × Json)) (s : Session) : Session :=
  let error := failureJson code message retryable details
  closePendingInputs .cancelled (stopAttempt (fun i => clk (i + 1)) interrupted error
    (moved (clk 0) (if interrupted then .interrupted else .failed) none (some error)
      (some retryable) (appendEvent .error (.value error) s)))

section Fail

variable {clk : Clock} {code message : String} {retryable interrupted : Bool}
  {details : List (String × Json)}

theorem can_fail (h : s.run.state ∈ watchedStates) :
    canTransition s.run.state (if interrupted then .interrupted else .failed) = true := by
  simp only [watchedStates, mem_cons, not_mem_nil, or_false] at h
  rcases h with h | h | h | h <;> rw [h] <;> cases interrupted <;> rfl

theorem not_terminal (h : s.run.state ∈ watchedStates) :
    s.run.state ∉ terminalStates := by
  simp only [watchedStates, mem_cons, not_mem_nil, or_false] at h
  rcases h with h | h | h | h <;> rw [h] <;> decide

theorem can_cancel (h : s.run.state ∈ watchedStates) :
    canTransition s.run.state .cancelling = true := by
  simp only [watchedStates, mem_cons, not_mem_nil, or_false] at h
  rcases h with h | h | h | h <;> rw [h] <;> rfl

theorem failRun_of_watched (h : s.run.state ∈ watchedStates) :
    failRun clk code message retryable interrupted details s
      = .ok (failedRun clk code message retryable interrupted details s) := by
  have hcan : canTransition s.run.state (if interrupted then .interrupted else .failed) = true :=
    can_fail h
  have hterm := not_terminal h
  simp only [failRun]
  rw [if_neg (by simp [hterm, hcan]), transition_of_can (by simpa using hcan)]
  rfl

theorem failRun_of_not_watched (h : s.run.state ∉ watchedStates) :
    failRun clk code message retryable interrupted details s = .ok s := by
  simp only [failRun]
  refine if_pos ?_
  revert h
  cases s.run.state <;> cases interrupted <;> decide

theorem failRun_cases (h : failRun clk code message retryable interrupted details s = .ok t) :
    t = s ∨ (s.run.state ∈ watchedStates
      ∧ t = failedRun clk code message retryable interrupted details s) := by
  by_cases hw : s.run.state ∈ watchedStates
  · rw [failRun_of_watched hw, ok.injEq] at h
    exact .inr ⟨hw, h.symm⟩
  · rw [failRun_of_not_watched hw, ok.injEq] at h
    exact .inl h.symm

end Fail

theorem requestCancel_cases {reason : String} (h : requestCancel clk reason s = .ok t) :
    t = s
    ∨ (s.run.state = .queued ∧ t = closePendingInputs .cancelled
        (moved (clk 2) .cancelled (some reason) none none ((markCancel (clk 0) s).setJobs
          (s.jobs.cancelByDedupe (dispatchKey s.run.id s.run.currentAttempt) (clk 1)).2)))
    ∨ (s.run.state ∈ watchedStates ∧ t = closePendingInputs .cancelled
        ((moved (clk 1) .cancelling (some reason) none none (markCancel (clk 0) s)).enqueue
          .runCancel (.cancel s.run.id s.run.currentAttempt) (clk 2))) := by
  simp only [requestCancel] at h
  split_ifs at h with hc hq hdone
  · obtain ⟨u, hu, ht⟩ := bind_eq_ok.1 h
    obtain ⟨-, rfl⟩ := transition_eq_ok.1 hu
    simp only [ok.injEq] at ht
    exact .inr (.inl ⟨hq, ht.symm⟩)
  · obtain ⟨u, hu, ht⟩ := bind_eq_ok.1 h
    obtain ⟨-, rfl⟩ := transition_eq_ok.1 hu
    simp only [ok.injEq] at ht
    refine .inr (.inr ⟨?_, ?_⟩)
    · simp only [RunState.cancellableStates, watchedStates] at hc ⊢
      simp_all
    · rw [← ht]
      simp [markCancel]
  · simp only [ok.injEq] at h
    exact .inl h.symm

theorem retry_cases (h : retry clk s = .ok t) :
    (s.run.state = .failed ∨ s.run.state = .interrupted)
    ∧ t = (moved (clk 0) .queued (some "owner_retry") none none (resetForRetry s)).enqueue
        .runDispatch (dispatchKey s.run.id (s.run.currentAttempt + 1)) (clk 1) := by
  simp only [retry] at h
  split_ifs at h with hf hs
  obtain ⟨u, hu, ht⟩ := bind_eq_ok.1 h
  obtain ⟨-, rfl⟩ := transition_eq_ok.1 hu
  simp only [ok.injEq] at ht
  refine ⟨by tauto, ?_⟩
  rw [← ht]
  simp [resetForRetry]

theorem beginAttempt_cases (h : beginAttempt clk hb s = .ok (a, t)) :
    (s.getAttempt s.run.currentAttempt = some a ∧ t = prepared (clk 0) s)
    ∨ (s.getAttempt s.run.currentAttempt = none
      ∧ a = RunAttempt.starting s.run.currentAttempt (clk 1 + hb)
      ∧ t = (prepared (clk 0) s).addAttempt a) := by
  simp only [beginAttempt, prepare_eq] at h
  obtain ⟨u, hu, ht⟩ := bind_eq_ok.1 h
  simp only [ok.injEq] at hu
  subst hu
  split at ht
  · rename_i b hb
    simp only [ok.injEq, Prod.mk.injEq] at ht
    obtain ⟨rfl, rfl⟩ := ht
    exact .inl ⟨hb, rfl⟩
  · rename_i hb
    simp only [ok.injEq, Prod.mk.injEq] at ht
    obtain ⟨rfl, rfl⟩ := ht
    exact .inr ⟨hb, by simp, by simp⟩

theorem handshake_cases (h : handshake clk n hb s = .ok t) :
    n = s.run.currentAttempt ∧ ∃ a, s.getAttempt n = some a ∧
      ((s.run.state = .preparing ∧ t = (moved (clk 0) .running none none none s).putAttempt
          { a with state := .running, heartbeatExpiresAt := some (clk 1 + hb) })
      ∨ ((s.run.state = .running ∨ s.run.state = .cancelling) ∧ t = s.putAttempt
          { a with state := .running, heartbeatExpiresAt := some (clk 1 + hb) })) := by
  simp only [handshake] at h
  obtain ⟨_, hn, h⟩ := bind_eq_ok.1 h
  obtain ⟨a, ha, h⟩ := bind_eq_ok.1 h
  obtain ⟨u, hu, ht⟩ := bind_eq_ok.1 h
  simp only [ok.injEq] at ht
  refine ⟨requireAttempt_eq_ok.1 hn, a, startedAttempt_eq_ok.1 ha, ?_⟩
  simp only [enterRunning] at hu
  split_ifs at hu with hp hr
  · obtain ⟨-, rfl⟩ := transition_eq_ok.1 hu
    exact .inl ⟨hp, ht.symm⟩
  · simp only [ok.injEq] at hu
    exact .inr ⟨by tauto, by rw [← ht, hu]⟩

theorem heartbeat_cases {r : RunState × Bool} (h : heartbeat clk n hb s = .ok (r, t)) :
    n = s.run.currentAttempt ∧ (t = s ∨ ∃ a, s.getAttempt n = some a
      ∧ t = s.putAttempt { a with heartbeatExpiresAt := some (clk 0 + hb) }) := by
  simp only [heartbeat] at h
  obtain ⟨_, hn, h⟩ := bind_eq_ok.1 h
  obtain ⟨a, ha, h⟩ := bind_eq_ok.1 h
  refine ⟨requireAttempt_eq_ok.1 hn, ?_⟩
  split_ifs at h
  · simp only [ok.injEq, Prod.mk.injEq] at h
    exact .inl h.2.symm
  · simp only [ok.injEq, Prod.mk.injEq] at h
    exact .inr ⟨a, startedAttempt_eq_ok.1 ha, h.2.symm⟩

theorem setModelLoading_cases {loading : Bool} {model : Option String}
    (h : setModelLoading clk n loading model s = .ok t) :
    n = s.run.currentAttempt ∧ (t = s ∨ ∃ reason,
      (s.run.state = .running ∧ t = moved (clk 0) .loadingModel reason none none s)
      ∨ (s.run.state = .loadingModel ∧ t = moved (clk 0) .running reason none none s)) := by
  simp only [setModelLoading] at h
  obtain ⟨_, hn, h⟩ := bind_eq_ok.1 h
  refine ⟨requireAttempt_eq_ok.1 hn, ?_⟩
  split_ifs at h with hl hu
  · exact .inr ⟨_, .inl ⟨hl.2, (transition_eq_ok.1 h).2⟩⟩
  · exact .inr ⟨_, .inr ⟨hu.2, (transition_eq_ok.1 h).2⟩⟩
  · simp only [ok.injEq] at h
    exact .inl h.symm

theorem recordAgentEvent_cases {type : EventType} {payload : Json}
    (h : recordAgentEvent G n type payload s = .ok t) :
    type ∈ agentEventTypes ∧ n = s.run.currentAttempt ∧ s.run.state ∉ terminalStates
      ∧ t = appendEvent type (.value (G.redact payload)) s := by
  simp only [recordAgentEvent, ite_error_eq_ok, not_not] at h
  obtain ⟨htype, h⟩ := h
  obtain ⟨_, -, h⟩ := bind_eq_ok.1 h
  obtain ⟨_, hn, h⟩ := bind_eq_ok.1 h
  simp only [ite_error_eq_ok, ok.injEq] at h
  exact ⟨htype, requireAttempt_eq_ok.1 hn, h.1, h.2.symm⟩

/-- What the loop over a batch has added so far, numbered from `start`. -/
structure BatchRows (start attempt : ℕ) (b : Batch) : Prop where
  sequence : b.sequence = start + b.rows.length
  sequences : b.rows.map (·.sequence) = List.range' (start + 1) b.rows.length
  attempts : ∀ e ∈ b.rows, e.attempt = attempt
  types : ∀ e ∈ b.rows, e.type ∈ agentEventTypes

theorem batchStep_rows {start attempt : ℕ} {b : Batch} {e : AgentEventInput}
    (h : BatchRows start attempt b) (he : e.type ∈ agentEventTypes) :
    BatchRows start attempt (batchStep G attempt b e) := by
  unfold batchStep
  split_ifs
  · exact ⟨h.sequence, h.sequences, h.attempts, h.types⟩
  · refine ⟨?_, ?_, ?_, ?_⟩
    · simp [h.sequence]
      omega
    · simp [h.sequences, h.sequence, range'_1_concat]
      omega
    · intro x hx
      simp only [mem_append, mem_singleton] at hx
      rcases hx with hx | rfl
      · exact h.attempts x hx
      · rfl
    · intro x hx
      simp only [mem_append, mem_singleton] at hx
      rcases hx with hx | rfl
      · exact h.types x hx
      · exact he

theorem foldl_batchStep_rows {start attempt : ℕ} :
    ∀ {events : List AgentEventInput} {b : Batch}, BatchRows start attempt b →
      (∀ e ∈ events, e.type ∈ agentEventTypes) →
      BatchRows start attempt (events.foldl (batchStep G attempt) b)
  | [], _, h, _ => h
  | e :: events, b, h, he => by
    rw [foldl_cons]
    exact foldl_batchStep_rows (batchStep_rows h (he e (by simp)))
      fun x hx => he x (mem_cons_of_mem _ hx)

def batchRows (G : Guards) (events : List AgentEventInput) (s : Session) : List RunEvent :=
  (events.foldl (batchStep G s.run.currentAttempt)
    ⟨storedIds (events.map (·.clientEventId)) s, lastSequence s, 0, 0, []⟩).rows

theorem batchRows_spec {events : List AgentEventInput} {s : Session}
    (hevents : ∀ e ∈ events, e.type ∈ agentEventTypes) :
    (batchRows G events s).map (·.sequence)
        = List.range' (lastSequence s + 1) (batchRows G events s).length
      ∧ (∀ e ∈ batchRows G events s, e.attempt = s.run.currentAttempt)
      ∧ ∀ e ∈ batchRows G events s, e.type ∈ agentEventTypes := by
  obtain ⟨-, hseq, hatt, htypes⟩ : BatchRows (lastSequence s) s.run.currentAttempt _ :=
    foldl_batchStep_rows (G := G)
      (b := ⟨storedIds (events.map (·.clientEventId)) s, lastSequence s, 0, 0, []⟩)
      ⟨rfl, rfl, by simp, by simp⟩ hevents
  exact ⟨hseq, hatt, htypes⟩

theorem ne_of_agentEvent {type : EventType} (h : type ∈ agentEventTypes) :
    type ≠ .stateChanged ∧ type ≠ .error := by
  constructor <;> (rintro rfl; revert h; decide)

theorem agentEvent_of_not_rejected {validator : Option (RunId → ℕ → AgentEventInput → List String)}
    {run : AgentRun} {i : ℕ} {e : AgentEventInput} (h : eventRejection G validator run i e = none) :
    e.type ∈ agentEventTypes := by
  by_contra hn
  simp [eventRejection, hn] at h

theorem recordAgentEventBatch_cases {validator : Option (RunId → ℕ → AgentEventInput → List String)}
    {events : List AgentEventInput} {r : EventBatchResult}
    (h : recordAgentEventBatch G validator n events s = .ok (r, t)) :
    n = s.run.currentAttempt ∧ s.run.state ∉ terminalStates
      ∧ (∀ e ∈ events, e.type ∈ agentEventTypes)
      ∧ t = { s with events := s.events ++ batchRows G events s } := by
  simp only [recordAgentEventBatch] at h
  obtain ⟨_, hn, h⟩ := bind_eq_ok.1 h
  simp only [ite_error_eq_ok, not_not, ok.injEq, Prod.mk.injEq] at h
  obtain ⟨hterm, hrej, -, ht⟩ := h
  refine ⟨requireAttempt_eq_ok.1 hn, hterm, fun e he => ?_, ht.symm⟩
  obtain ⟨i, hi, rfl⟩ := mem_iff_getElem.1 he
  have hmem : (events[i], i) ∈ events.zipIdx := by
    simp [mk_mem_zipIdx_iff_getElem?, getElem?_eq_getElem hi]
  exact agentEvent_of_not_rejected (filterMap_eq_nil_iff.1 hrej _ hmem)

/-- How a posted result ends a run: only a failure has an error and says whether to retry. -/
inductive EndsWith : RunState → Option Json → Option Bool → Prop where
  | succeeded : EndsWith .succeeded none none
  | failed (error : Json) (retryable : Bool) : EndsWith .failed (some error) (some retryable)

theorem EndsWith.target {target : RunState} (h : EndsWith target error retryable) :
    target = .succeeded ∨ target = .failed := by
  cases h
  · exact .inl rfl
  · exact .inr rfl

theorem recordResult_cases {status : ResultStatus} (h : recordResult G now status error s = .ok t) :
    ∃ target st err retryable, EndsWith target err retryable
      ∧ canTransition s.run.state target = true
      ∧ t = moved now target none err retryable (appendEvent .result (resultPayload st) s) := by
  cases status with
  | succeeded =>
    obtain ⟨hcan, rfl⟩ := transition_eq_ok.1 h
    exact ⟨_, _, _, _, .succeeded, hcan, rfl⟩
  | failed =>
    obtain ⟨hcan, rfl⟩ := transition_eq_ok.1 h
    exact ⟨_, _, _, _, .failed _ _, hcan, rfl⟩

theorem finish_cases {status : ResultStatus} {result : Option Json}
    (h : finish G clk n status result error s = .ok t) :
    n = s.run.currentAttempt ∧
      ((s.run.state ∈ terminalStates ∧ t = exitAttempt (clk 0) n s)
      ∨ (s.run.state = .cancelling ∧ t = moved (clk 1) .cancelled
          (some "finished_during_cancel") none none
          ((exitAttempt (clk 0) n s).setResult result))
      ∨ (s.run.state ∈ watchedStates ∧ ∃ target st err retryable,
          EndsWith target err retryable
          ∧ canTransition (finishing (clk 1) ((exitAttempt (clk 0) n s).setResult
              result)).run.state target = true
          ∧ t = closePendingInputs .cancelled (moved (clk 2) target none err retryable
              (appendEvent .result (resultPayload st) (finishing (clk 1)
                ((exitAttempt (clk 0) n s).setResult result)))))) := by
  simp only [finish] at h
  obtain ⟨_, hn, h⟩ := bind_eq_ok.1 h
  refine ⟨requireAttempt_eq_ok.1 hn, ?_⟩
  simp only [ite_error_eq_ok, setResult_state, exitAttempt_run] at h
  obtain ⟨-, h⟩ := h
  split_ifs at h with hterm hc
  · simp only [ok.injEq] at h
    exact .inl ⟨hterm, h.symm⟩
  · exact .inr (.inl ⟨hc, (transition_eq_ok.1 h).2⟩)
  · rw [resumeToFinish_eq] at h
    obtain ⟨u, hu, h⟩ := bind_eq_ok.1 h
    obtain ⟨v, hv, ht⟩ := bind_eq_ok.1 h
    simp only [ok.injEq] at hu ht
    subst hu ht
    obtain ⟨target, st, err, retryable, htarget, hcan, rfl⟩ := recordResult_cases hv
    refine .inr (.inr ⟨?_, target, st, err, retryable, htarget, hcan, rfl⟩)
    rw [finishing_state, setResult_state, exitAttempt_run] at hcan
    -- `QUEUED` is the one state left, and no result moves a queued run
    rcases htarget.target with rfl | rfl <;> revert hterm hc hcan <;> cases s.run.state <;> decide

theorem recordContainerExit_cases {version : Option AgentVersion} {ref : RuntimeRef}
    {exitCode : Option ℤ} {oomKilled : Bool} {limit : Option ℕ} {r : Option String}
    (h : recordContainerExit clk version n ref exitCode oomKilled limit s = .ok (r, t)) :
    t = s ∨ ∃ a, s.getAttempt n = some a ∧ a.runtimeRef = some ref
      ∧ (t = noteExit exitCode a s ∨ (n = s.run.currentAttempt ∧ ∃ code message details,
          failRun clk code message true false details (noteExit exitCode a s) = .ok t)) := by
  simp only [recordContainerExit] at h
  split at h
  · simp only [ok.injEq, Prod.mk.injEq] at h
    exact .inl h.2.symm
  · rename_i a ha
    split_ifs at h with href hstale
    · simp only [ok.injEq, Prod.mk.injEq] at h
      exact .inl h.2.symm
    · simp only [ok.injEq, Prod.mk.injEq] at h
      exact .inr ⟨a, ha, not_not.1 href, .inl h.2.symm⟩
    · obtain ⟨u, hu, ht⟩ := bind_eq_ok.1 h
      simp only [ok.injEq, Prod.mk.injEq] at ht
      obtain ⟨-, rfl⟩ := ht
      simp only [noteExit_run, not_or, not_not] at hstale
      exact .inr ⟨a, ha, not_not.1 href, .inr ⟨hstale.1.symm, _, _, _, hu⟩⟩

/-- What `ask` comes to. -/
inductive Asked (G : Guards) (clk : Clock) (n : ℕ) (key title prompt : String) (schema : Json)
    (timeout : ℤ) (preview : Option Json) (s : Session) : InputRequest → Session → Prop where
  /-- a request that is closed for good, or closed in this attempt -/
  | closed {r : InputRequest} (row : Table.get InputRequest.key key s.requests = some r)
      (closed : r.state ≠ .pending) : Asked G clk n key title prompt schema timeout preview s r s
  | waiting {r : InputRequest} (row : Table.get InputRequest.key key s.requests = some r)
      (pending : r.state = .pending) :
      Asked G clk n key title prompt schema timeout preview s r (waited (clk 0) key s)
  | reopened {old r} (row : Table.get InputRequest.key key s.requests = some old)
      (closed : old.state = .cancelled ∨ old.state = .expired)
      (checked : checkAsk G (clk 0) schema timeout preview s = .ok ())
      (request : r = openRequest G old.id n key title prompt schema preview (clk 0 + timeout)
        (old.version + 1) (some old)) :
      Asked G clk n key title prompt schema timeout preview s r (waited (clk 1) key
        (appendEvent .inputRequested (askedPayload r.id key title) (s.putRequest r)))
  | new {r : InputRequest} (row : Table.get InputRequest.key key s.requests = none)
      (checked : checkAsk G (clk 0) schema timeout preview s = .ok ())
      (request : r = openRequest G s.nextUuid n key title prompt schema preview (clk 0 + timeout) 1
        none) :
      Asked G clk n key title prompt schema timeout preview s r (waited (clk 1) key
        (appendEvent .inputRequested (askedPayload r.id key title) (s.addRequest r)))

theorem ask_asked {title prompt : String} {schema : Json} {timeout : ℤ} {preview : Option Json}
    (h : ask G clk n key title prompt schema timeout preview s = .ok (r, t)) :
    n = s.run.currentAttempt ∧ (s.run.state = .running ∨ s.run.state = .waitingInput)
      ∧ Asked G clk n key title prompt schema timeout preview s r t := by
  simp only [ask, waitForInput_eq] at h
  obtain ⟨_, hn, h⟩ := bind_eq_ok.1 h
  simp only [ite_error_eq_ok] at h
  obtain ⟨-, hstate, h⟩ := h
  refine ⟨requireAttempt_eq_ok.1 hn, by tauto, ?_⟩
  split at h
  · rename_i old hold
    split_ifs at h with hre hp
    · obtain ⟨_, hchecked, h⟩ := bind_eq_ok.1 h
      simp only [bind_eq_ok, ok.injEq, Prod.mk.injEq] at h
      obtain ⟨u, rfl, rfl, rfl⟩ := h
      exact .reopened hold hre.1 hchecked rfl
    · simp only [bind_eq_ok, ok.injEq, Prod.mk.injEq] at h
      obtain ⟨u, rfl, rfl, rfl⟩ := h
      exact .waiting hold hp
    · simp only [ok.injEq, Prod.mk.injEq] at h
      obtain ⟨rfl, rfl⟩ := h
      exact .closed hold hp
  · rename_i hnone
    obtain ⟨_, hchecked, h⟩ := bind_eq_ok.1 h
    simp only [bind_eq_ok, ok.injEq, Prod.mk.injEq] at h
    obtain ⟨u, rfl, rfl, rfl⟩ := h
    exact .new hnone hchecked rfl

theorem ask_cases {title prompt : String} {schema : Json} {timeout : ℤ} {preview : Option Json}
    (h : ask G clk n key title prompt schema timeout preview s = .ok (r, t)) :
    n = s.run.currentAttempt ∧ (s.run.state = .running ∨ s.run.state = .waitingInput) ∧
      ((t = s ∧ r ∈ s.requests)
      ∨ (r ∈ s.requests ∧ r.state = .pending ∧ t = waited (clk 0) key s)
      ∨ (r.state = .pending ∧ (∃ old ∈ s.requests, old.id = r.id) ∧ t = waited (clk 1) key
          (appendEvent .inputRequested (askedPayload r.id key title) (s.putRequest r)))
      ∨ (r.state = .pending ∧ t = waited (clk 1) key
          (appendEvent .inputRequested (askedPayload r.id key title) (s.addRequest r)))) := by
  obtain ⟨hn, hstate, hasked⟩ := ask_asked h
  refine ⟨hn, hstate, ?_⟩
  cases hasked with
  | closed row => exact .inl ⟨rfl, Table.get_mem row⟩
  | waiting row pending => exact .inr (.inl ⟨Table.get_mem row, pending, rfl⟩)
  | reopened row closed checked request =>
    subst request
    exact .inr (.inr (.inl ⟨rfl, ⟨_, Table.get_mem row, rfl⟩, rfl⟩))
  | new row checked request =>
    subst request
    exact .inr (.inr (.inr ⟨rfl, rfl⟩))

def InputRequest.answeredWith (r : InputRequest) (value : Json) (user : UserId) (now : Time) :
    InputRequest :=
  { r with
    state := .answered
    answer := some value
    answeredBy := some user
    answeredAt := some now
    version := r.version + 1 }

theorem answer_spec {id version : ℕ} {value : Json} {user : UserId}
    (h : answer G clk id version value user s = .ok (r, t)) :
    ∃ old, Table.get InputRequest.id id s.requests = some old ∧ old.state = .pending
      ∧ old.version = version ∧ clk 0 < old.deadline ∧ G.valueErrors old.schema value = []
      ∧ r = old.answeredWith value user (clk 1) ∧ t = resumed (clk 2)
        (appendEvent .inputAnswered (requestPayload r.id r.key .answered) (s.putRequest r)) := by
  simp only [answer, resumeIfNoPending_eq] at h
  split at h
  · cases h
  · rename_i old hold
    simp only [ite_error_eq_ok, not_not, not_le] at h
    obtain ⟨hp, hversion, hdeadline, h⟩ := h
    obtain ⟨_, -, h⟩ := bind_eq_ok.1 h
    simp only [ite_error_eq_ok, not_not, bind_eq_ok, ok.injEq, Prod.mk.injEq] at h
    obtain ⟨hvalid, u, rfl, rfl, rfl⟩ := h
    refine ⟨old, hold, hp, hversion, hdeadline, ?_, rfl, rfl⟩
    simpa using hvalid

theorem answer_cases {id version : ℕ} {value : Json} {user : UserId}
    (h : answer G clk id version value user s = .ok (r, t)) :
    ∃ old, Table.get InputRequest.id id s.requests = some old ∧ old.state = .pending
      ∧ r.id = old.id ∧ r.state = .answered ∧ t = resumed (clk 2)
        (appendEvent .inputAnswered (requestPayload r.id r.key .answered) (s.putRequest r)) := by
  obtain ⟨old, hold, hp, -, -, -, rfl, rfl⟩ := answer_spec h
  exact ⟨old, hold, hp, rfl, rfl, rfl⟩

theorem expireInputs_cases {k : ℕ} (h : expireInputs clk now s = .ok (k, t)) :
    (t = s ∧ k = 0) ∨ (k ≠ 0 ∧ (∃ r ∈ s.requests, r.state = .pending) ∧ t
      = resumed (clk 0) (((pendingRequests s).filter fun r => r.deadline ≤ now).foldl
        (closeRequest .expired) s)) := by
  simp only [expireInputs, resumeIfNoPending_eq] at h
  split_ifs at h with he
  · simp only [ok.injEq, Prod.mk.injEq] at h
    exact .inl ⟨h.2.symm, h.1.symm⟩
  · simp only [bind_eq_ok, ok.injEq, Prod.mk.injEq] at h
    obtain ⟨u, rfl, rfl, rfl⟩ := h
    refine .inr ⟨by simpa using he, ?_, rfl⟩
    obtain ⟨r, hr, -⟩ : ∃ r ∈ pendingRequests s, r.deadline ≤ now := by simpa using he
    simp only [pendingRequests, mem_filter, decide_eq_true_eq] at hr
    exact ⟨r, hr⟩

theorem claimAction_cases {token : Option String} {r : ActionAnswer}
    (h : claimAction n key token s = .ok (r, t)) :
    n = s.run.currentAttempt
    ∧ ((Table.get IdempotencyAction.key key s.actions = none ∧ r = .claimed
        ∧ t = { s with actions := s.actions ++ [⟨key, .claimed, n, none, token, none⟩] })
      ∨ ∃ a, Table.get IdempotencyAction.key key s.actions = some a
        ∧ ((a.state = .completed ∧ r = .completed a.result ∧ t = s)
          ∨ (a.state ≠ .completed ∧ a.claimToken = token ∧ r = .claimed ∧ t = s)
          ∨ (a.state ≠ .completed ∧ r = .inDoubt
            ∧ t = s.putAction { a with state := .inDoubt, attempt := n }))) := by
  simp only [claimAction] at h
  obtain ⟨_, hn, h⟩ := bind_eq_ok.1 h
  refine ⟨requireAttempt_eq_ok.1 hn, ?_⟩
  split at h
  · simp only [ok.injEq, Prod.mk.injEq] at h
    exact .inl ⟨‹_›, h.1.symm, h.2.symm⟩
  · rename_i a ha
    refine .inr ⟨a, ha, ?_⟩
    split_ifs at h with hdone hmine <;> simp only [ok.injEq, Prod.mk.injEq] at h
    · exact .inl ⟨hdone, h.1.symm, h.2.symm⟩
    · exact .inr (.inl ⟨hdone, hmine.2.2.1, h.1.symm, h.2.symm⟩)
    · exact .inr (.inr ⟨hdone, h.1.symm, h.2.symm⟩)

theorem claimAction_frame {token : Option String} {r : ActionAnswer}
    (h : claimAction n key token s = .ok (r, t)) : ∃ actions, t = { s with actions } := by
  obtain ⟨-, ⟨-, -, rfl⟩ | ⟨a, -, ⟨-, -, rfl⟩ | ⟨-, -, -, rfl⟩ | ⟨-, -, rfl⟩⟩⟩ :=
    claimAction_cases h
  exacts [⟨_, rfl⟩, ⟨_, rfl⟩, ⟨_, rfl⟩, ⟨_, rfl⟩]

theorem completeAction_cases {result : Json} {r : ActionAnswer}
    (h : completeAction G clk n key result s = .ok (r, t)) :
    n = s.run.currentAttempt
    ∧ ∃ a, Table.get IdempotencyAction.key key s.actions = some a
      ∧ ((a.state = .completed ∧ r = .completed a.result ∧ t = s)
        ∨ (a.state ≠ .completed ∧ r = .completed (some (G.redact result))
          ∧ t = s.putAction { a with
              state := .completed
              result := some (G.redact result)
              completedAt := some (clk 0) })) := by
  simp only [completeAction] at h
  obtain ⟨_, hn, h⟩ := bind_eq_ok.1 h
  refine ⟨requireAttempt_eq_ok.1 hn, ?_⟩
  split at h
  · cases h
  · rename_i a ha
    refine ⟨a, ha, ?_⟩
    split_ifs at h with hdone <;> simp only [ok.injEq, Prod.mk.injEq] at h
    · exact .inl ⟨hdone, h.1.symm, h.2.symm⟩
    · exact .inr ⟨hdone, h.1.symm, h.2.symm⟩

theorem completeAction_frame {result : Json} {r : ActionAnswer}
    (h : completeAction G clk n key result s = .ok (r, t)) : ∃ actions, t = { s with actions } := by
  obtain ⟨-, a, -, ⟨-, -, rfl⟩ | ⟨-, -, rfl⟩⟩ := completeAction_cases h
  exacts [⟨_, rfl⟩, ⟨_, rfl⟩]

theorem beginAttempt_run (h : beginAttempt clk hb s = .ok (a, t)) :
    t.run = (prepared (clk 0) s).run := by
  obtain ⟨-, rfl⟩ | ⟨-, -, rfl⟩ := beginAttempt_cases h <;> rfl

/-- The container `dispatchPrepare` asks for, and the token it minted. -/
structure Minted (s : Session) (n : ℕ) (spec : RunSpec) : Prop where
  runId : spec.runId = s.run.id
  attempt : spec.attempt = n
  tokenId : spec.token.tokenId = s.nextUuid
  tokenRunId : spec.token.runId = s.run.id
  tokenAttempt : spec.token.attempt = n
  installationId : spec.token.installationId = s.run.installationId

theorem dispatchPrepare_cases {settings : Settings} {catalog : Catalog} {spec : Option RunSpec}
    (h : dispatchPrepare settings catalog clk n s = .ok (spec, t)) :
    (spec = none ∧ t = s
      ∧ (s.run.currentAttempt ≠ n ∨ (s.run.state ≠ .queued ∧ s.run.state ≠ .preparing)))
    ∨ ∃ a u, s.run.currentAttempt = n ∧ (s.run.state = .queued ∨ s.run.state = .preparing)
      ∧ beginAttempt clk settings.prepareTimeoutSeconds s = .ok (a, u)
      ∧ ((spec = none ∧ failRun (fun i => clk (i + 2)) "INSTALLATION_NOT_READY"
            installationNotReady false false [] u = .ok t)
        ∨ (spec = none ∧ a.runtimeRef ≠ none ∧ t = u)
        ∨ (a.runtimeRef = none ∧ ∃ sp, spec = some sp ∧ Minted u n sp
          ∧ t = (u.putAttempt { a with capabilityTokenId := some sp.token.tokenId }).takeUuid))
    := by
  simp only [dispatchPrepare] at h
  split_ifs at h with hstale
  · simp only [ok.injEq, Prod.mk.injEq] at h
    exact .inl ⟨h.1.symm, h.2.symm, hstale⟩
  · simp only [not_or, not_not, not_and_or] at hstale
    split at h
    · rename_i installation version hinst hver
      obtain ⟨⟨a, u⟩, hu, h⟩ := bind_eq_ok.1 h
      have hu := raising_eq_ok.1 hu
      refine .inr ⟨a, u, hstale.1, hstale.2, hu, ?_⟩
      simp only at h
      split_ifs at h with hready href
      · obtain ⟨v, hv, h⟩ := bind_eq_ok.1 h
        simp only [ok.injEq, Prod.mk.injEq] at h
        obtain ⟨rfl, rfl⟩ := h
        exact .inl ⟨rfl, raising_eq_ok.1 hv⟩
      · simp only [ok.injEq, Prod.mk.injEq] at h
        obtain ⟨rfl, rfl⟩ := h
        exact .inr (.inl ⟨rfl, Option.isSome_iff_ne_none.1 href, rfl⟩)
      · simp only [ok.injEq, Prod.mk.injEq] at h
        obtain ⟨rfl, rfl⟩ := h
        refine .inr (.inr ⟨by simpa using href, _, rfl, ⟨rfl, rfl, rfl, rfl, rfl, ?_⟩, rfl⟩)
        rw [beginAttempt_run hu, prepared_installationId]
        exact catalog.installation_id hinst
    · cases h

theorem dispatchRecord_cases {settings : Settings} {ref : RuntimeRef} {stop : Bool}
    (h : dispatchRecord settings clk n ref s = .ok (stop, t)) :
    ∃ a, s.getAttempt n = some a
      ∧ (stop = true ↔ s.run.currentAttempt ≠ n ∨ s.run.state = .cancelled
        ∨ s.run.state = .failed ∨ s.run.state = .interrupted)
      ∧ ((a.runtimeRef = none ∧ ∃ hb, t = s.putAttempt
            { a with runtimeRef := some ref, heartbeatExpiresAt := hb })
        ∨ (a.runtimeRef ≠ none ∧ t = s)) := by
  simp only [dispatchRecord] at h
  split at h
  · cases h
  · rename_i a ha
    refine ⟨a, ha, ?_⟩
    split_ifs at h with href hp
    all_goals
      simp only [ok.injEq, Prod.mk.injEq] at h
      obtain ⟨rfl, rfl⟩ := h
      refine ⟨by simp, ?_⟩
    · exact .inl ⟨href, _, rfl⟩
    · exact .inl ⟨href, _, rfl⟩
    · exact .inr ⟨href, rfl⟩

theorem cancelFinish_cases {ref late : Option RuntimeRef}
    (h : cancelFinish clk ref s = .ok (late, t)) :
    (s.run.state ≠ .cancelling ∧ late = none ∧ t = s)
    ∨ (s.run.state = .cancelling ∧ s.getAttempt s.run.currentAttempt = none ∧ late = none
        ∧ t = moved (clk 0) .cancelled (some "stopped") none none s)
    ∨ (s.run.state = .cancelling ∧ ∃ a, s.getAttempt s.run.currentAttempt = some a
        ∧ late = (if a.runtimeRef ≠ ref then a.runtimeRef else none)
        ∧ t = moved (clk 1) .cancelled (some "stopped") none none (s.putAttempt
            { a with state := .cancelled, endedAt := a.endedAt.or (some (clk 0)) })) := by
  simp only [cancelFinish] at h
  split_ifs at h with hc
  · simp only [ok.injEq, Prod.mk.injEq] at h
    exact .inl ⟨hc, h.1.symm, h.2.symm⟩
  · simp only [not_not] at hc
    split at h
    · rename_i hnone
      obtain ⟨u, hu, h⟩ := bind_eq_ok.1 h
      obtain ⟨-, rfl⟩ := transition_eq_ok.1 (raising_eq_ok.1 hu)
      simp only [ok.injEq, Prod.mk.injEq] at h
      exact .inr (.inl ⟨hc, hnone, h.1.symm, h.2.symm⟩)
    · rename_i a ha
      obtain ⟨u, hu, h⟩ := bind_eq_ok.1 h
      obtain ⟨-, rfl⟩ := transition_eq_ok.1 (raising_eq_ok.1 hu)
      simp only [ok.injEq, Prod.mk.injEq] at h
      exact .inr (.inr ⟨hc, a, ha, h.1.symm, h.2.symm⟩)

theorem onDeadJob_cases {type : JobType} {payload : JobPayload}
    (h : onDeadJob clk type payload s = .ok t) :
    (t = s ∧ (s.run.currentAttempt = payload.attempt.getD s.run.currentAttempt →
        ¬ (type = .runDispatch ∧ (s.run.state = .queued ∨ s.run.state = .preparing))
        ∧ ¬ (type = .runCancel ∧ s.run.state = .cancelling)))
    ∨ (type = .runDispatch ∧ (s.run.state = .queued ∨ s.run.state = .preparing)
        ∧ t = failedRun (fun i => clk (i + 1)) "DISPATCH_FAILED" "The run could not be started."
            true false [] (prepared (clk 0) s))
    ∨ (type = .runCancel ∧ s.run.state = .cancelling
        ∧ t = moved (clk 0) .cancelled (some "stop_failed") (some stopFailed) none s) := by
  simp only [onDeadJob] at h
  split_ifs at h with hstale hd hc
  · simp only [ok.injEq] at h
    exact .inl ⟨h.symm, fun he => absurd he hstale⟩
  · rw [prepare_eq] at h
    obtain ⟨u, hu, h⟩ := bind_eq_ok.1 h
    simp only [ok.injEq] at hu
    subst hu
    rw [failRun_of_watched (prepared_watched hd.2), ok.injEq] at h
    exact .inr (.inl ⟨hd.1, hd.2, h.symm⟩)
  · exact .inr (.inr ⟨hc.1, hc.2, (transition_eq_ok.1 h).2⟩)
  · simp only [ok.injEq] at h
    exact .inl ⟨h.symm, fun _ => ⟨hd, hc⟩⟩

theorem watchActive_cases (h : watchActive clk now s = .ok t) :
    t = s ∨ ∃ code message retryable interrupted,
      failRun clk code message retryable interrupted [] s = .ok t := by
  simp only [watchActive] at h
  split_ifs at h
  · exact .inr ⟨_, _, _, _, h⟩
  · exact .inr ⟨_, _, _, _, h⟩
  · simp only [ok.injEq] at h
    exact .inl h.symm

theorem watch_cases (h : watch clk now s = .ok t) :
    t = s
    ∨ (∃ k code message retryable interrupted,
        failRun (fun i => clk (i + k)) code message retryable interrupted [] s = .ok t)
    ∨ ∃ n, expireInputs clk now s = .ok (n, t) := by
  simp only [watch] at h
  split_ifs at h
  · rcases watchActive_cases h with rfl | ⟨code, message, r, i, h⟩
    · exact .inl rfl
    · exact .inr (.inl ⟨0, code, message, r, i, h⟩)
  · exact .inr (.inl ⟨0, _, _, _, _, h⟩)
  · obtain ⟨⟨k, u⟩, hu, hrest⟩ := bind_eq_ok.1 h
    simp only at hrest
    split_ifs at hrest with hk
    · simp only [ok.injEq] at hrest
      subst hrest
      exact .inr (.inr ⟨k, hu⟩)
    · obtain ⟨rfl, -⟩ | ⟨hne, -⟩ := expireInputs_cases hu
      · rcases watchActive_cases hrest with rfl | ⟨code, message, r, i, hfail⟩
        · exact .inl rfl
        · exact .inr (.inl ⟨1, code, message, r, i, hfail⟩)
      · exact absurd hne hk

end Crewquarters
