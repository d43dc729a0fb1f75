import Crewquarters.Proofs.Attempts
import Crewquarters.Proofs.Jobs

/-!
# What an operation does to a run, as the scheduler sees it

Of a run the scheduler's steps read the state, the current attempt, and of each attempt the recorded
reference and token. A `Turn` says how one operation changes these and the jobs: most are silent,
five are not.
-/

namespace Crewquarters

open Option

open RunState (canTransition watchedStates)

variable {s t u : Session}
variable {clk : Clock} {interrupted : Bool} {n : ℕ} {now : Time} {G : Guards}

/-- The event records that the platform, not the agent, ended the attempt: `fail_run`, or the
cancel handler's transaction. -/
def RunEvent.platformEnd (e : RunEvent) : Bool :=
  match e.type, e.payload with
  | .error, _ => true
  | .stateChanged, .stateChanged (some .cancelling) .cancelled (some reason) _ => reason = "stopped"
  | _, _ => false

def RunData.endedByPlatform (n : ℕ) (d : RunData) : Bool :=
  d.events.any fun e => e.attempt = n && e.platformEnd

def RunData.refOf (n : ℕ) (d : RunData) : Option RuntimeRef := (d.getAttempt n).bind (·.runtimeRef)

def RunData.tokenOf (n : ℕ) (d : RunData) : Option TokenId :=
  (d.getAttempt n).bind (·.capabilityTokenId)

def Silent (source target : RunState) : Prop :=
  target = source
    ∨ (source ∈ watchedStates
      ∧ target ∈ [RunState.running, .loadingModel, .waitingInput, .succeeded, .failed])
    ∨ (source = .cancelling ∧ target = .cancelled)

/-- An action stays with its claim token, and once it is completed it stays as it is. -/
def ActionsKept (as bs : List IdempotencyAction) : Prop :=
  ∀ key a, Table.get IdempotencyAction.key key as = some a →
    ∃ b, Table.get IdempotencyAction.key key bs = some b ∧ b.claimToken = a.claimToken
      ∧ (a.state = .completed → b = a)

/-- The attempts' references and tokens are as before, and no row is gone. -/
structure Kept (s t : Session) : Prop where
  id : t.run.id = s.run.id
  installationId : t.run.installationId = s.run.installationId
  refs : ∀ n, t.refOf n = s.refOf n
  tokens : ∀ n, t.tokenOf n = s.tokenOf n
  rows : ∀ n, (s.getAttempt n).isSome → (t.getAttempt n).isSome
  actions : ActionsKept s.actions t.actions
  nextUuid : s.nextUuid ≤ t.nextUuid

/-- What a call on a locked run can do to its containers and jobs. -/
inductive Turn (s t : Session) : Prop where
  | silent (kept : Kept s t) (attempt : t.run.currentAttempt = s.run.currentAttempt)
      (ends : ∀ n, t.endedByPlatform n = s.endedByPlatform n) (jobs : t.jobs = s.jobs)
      (move : Silent s.run.state t.run.state)
  | unqueue (kept : Kept s t) (attempt : t.run.currentAttempt = s.run.currentAttempt)
      (ends : ∀ n, t.endedByPlatform n = s.endedByPlatform n)
      (jobs : ∃ now, t.jobs = (s.jobs.cancelByDedupe (dispatchKey s.run.id
        s.run.currentAttempt) now).2)
      (source : s.run.state = .queued) (target : t.run.state = .cancelled)
  | cancel (kept : Kept s t) (attempt : t.run.currentAttempt = s.run.currentAttempt)
      (ends : ∀ n, t.endedByPlatform n = s.endedByPlatform n)
      (jobs : ∃ due, t.jobs = s.jobs.withJob .runCancel s.run.id s.run.currentAttempt due)
      (source : s.run.state ∈ watchedStates) (target : t.run.state = .cancelling)
  | retry (kept : Kept s t) (attempt : t.run.currentAttempt = s.run.currentAttempt + 1)
      (ends : ∀ n, t.endedByPlatform n = s.endedByPlatform n)
      (jobs : ∃ due, t.jobs = s.jobs.withJob .runDispatch s.run.id (s.run.currentAttempt + 1) due)
      (source : s.run.state = .failed ∨ s.run.state = .interrupted)
      (target : t.run.state = .queued)
  | fail (kept : Kept s t) (attempt : t.run.currentAttempt = s.run.currentAttempt)
      (ends : ∀ n, t.endedByPlatform n = (s.endedByPlatform n
        || decide (s.run.currentAttempt = n)))
      (jobs : ∃ due, t.jobs = if (s.refOf s.run.currentAttempt).isSome
        then s.jobs.withJob .runStop s.run.id s.run.currentAttempt due else s.jobs)
      (source : s.run.state = .queued ∨ s.run.state ∈ watchedStates)
      (target : t.run.state = .failed ∨ t.run.state = .interrupted)

section Ends

variable {n : ℕ}

theorem endedByPlatform_appendEvent (type : EventType) (payload : Payload) :
    (appendEvent type payload s).endedByPlatform n = (s.endedByPlatform n
      || (decide (s.run.currentAttempt = n)
        && RunEvent.platformEnd ⟨0, 0, type, payload, none, none⟩)) := by
  simp [RunData.endedByPlatform, appendEvent, RunEvent.platformEnd]

theorem endedByPlatform_value {type : EventType} {v : Json} (h : type ≠ .error) :
    (appendEvent type (.value v) s).endedByPlatform n = s.endedByPlatform n := by
  rw [endedByPlatform_appendEvent]
  cases type <;> simp_all [RunEvent.platformEnd]

theorem endedByPlatform_error {v : Json} :
    (appendEvent .error (.value v) s).endedByPlatform n = (s.endedByPlatform n
      || decide (s.run.currentAttempt = n)) := by
  rw [endedByPlatform_appendEvent]
  simp [RunEvent.platformEnd]

theorem platformEnd_change (source target : RunState) (reason : Option String)
    (error : Option Json) :
    RunEvent.platformEnd ⟨0, 0, .stateChanged, changePayload source target reason error, none, none⟩
      = decide (source = .cancelling ∧ target = .cancelled ∧ reason = some "stopped") := by
  rcases reason with _ | reason
  · cases source <;> cases target <;> rfl
  · by_cases hr : reason = ""
    · subst hr
      cases source <;> cases target <;> rfl
    · simp only [changePayload, filter_some, hr, ne_eq, not_false_eq_true, decide_true,
        ↓reduceIte]
      cases source <;> cases target <;> simp [RunEvent.platformEnd]

theorem endedByPlatform_moved (now : Time) (target : RunState) (reason : Option String)
    (error : Option Json) (retryable : Option Bool) :
    (moved now target reason error retryable s).endedByPlatform n = (s.endedByPlatform n
      || (decide (s.run.currentAttempt = n) && decide (s.run.state = .cancelling
        ∧ target = .cancelled ∧ reason = some "stopped"))) := by
  unfold moved
  rw [endedByPlatform_appendEvent, platformEnd_change, enter_currentAttempt]
  rfl

theorem endedByPlatform_closeRequests (state : RequestState) :
    ∀ (l : List InputRequest) (s : Session),
      (l.foldl (closeRequest state) s).endedByPlatform n = s.endedByPlatform n
  | [], _ => rfl
  | r :: l, s => by
    rw [List.foldl_cons, endedByPlatform_closeRequests state l]
    exact endedByPlatform_value (by decide)

theorem endedByPlatform_batch {events : List AgentEventInput}
    (hevents : ∀ e ∈ events, e.type ∈ agentEventTypes) :
    RunData.endedByPlatform n { s with events := s.events ++ batchRows G events s }.toRunData
      = s.endedByPlatform n := by
  have hnone : ((batchRows G events s).any fun e => e.attempt = n && e.platformEnd) = false := by
    rw [List.any_eq_false]
    intro e he
    obtain ⟨hchange, herror⟩ := ne_of_agentEvent ((batchRows_spec hevents).2.2 e he)
    simp only [Bool.and_eq_true, decide_eq_true_eq, not_and, Bool.not_eq_true]
    intro _
    unfold RunEvent.platformEnd
    split <;> simp_all
  simp only [RunData.endedByPlatform, List.any_append, hnone, Bool.or_false]

end Ends

namespace ActionsKept

variable {as bs cs : List IdempotencyAction}

theorem refl : ActionsKept as as := fun _ a ha => ⟨a, ha, rfl, fun _ => rfl⟩

theorem trans (h : ActionsKept as bs) (h' : ActionsKept bs cs) : ActionsKept as cs := by
  intro key a ha
  obtain ⟨b, hb, htoken, hdone⟩ := h key a ha
  obtain ⟨c, hc, htoken', hdone'⟩ := h' key b hb
  refine ⟨c, hc, htoken'.trans htoken, fun ha => ?_⟩
  rw [hdone' (by rw [hdone ha]; exact ha), hdone ha]

theorem append (bs : List IdempotencyAction) : ActionsKept as (as ++ bs) := by
  intro key a ha
  refine ⟨a, ?_, rfl, fun _ => rfl⟩
  rw [Table.get_append, ha]
  rfl

theorem put {a b : IdempotencyAction} (ha : Table.get IdempotencyAction.key b.key as = some a)
    (htoken : b.claimToken = a.claimToken) (hopen : a.state ≠ .completed) :
    ActionsKept as (Table.put IdempotencyAction.key b as) := by
  intro key c hc
  by_cases hkey : b.key = key
  · subst hkey
    obtain rfl := some.inj (ha.symm.trans hc)
    exact ⟨b, Table.get_put_self ha, htoken, fun h => absurd h hopen⟩
  · exact ⟨c, by rw [Table.get_put_of_ne hkey, hc], rfl, fun _ => rfl⟩

end ActionsKept

namespace Kept

theorem of_attempts (hid : t.run.id = s.run.id)
    (hinst : t.run.installationId = s.run.installationId) (hatt : t.attempts = s.attempts)
    (hactions : t.actions = s.actions) (huuid : s.nextUuid ≤ t.nextUuid) : Kept s t where
  id := hid
  installationId := hinst
  refs n := by
    unfold RunData.refOf
    rw [getAttempt_congr hatt]
  tokens n := by
    unfold RunData.tokenOf
    rw [getAttempt_congr hatt]
  rows n h := by
    rw [getAttempt_congr hatt]
    exact h
  actions := hactions ▸ .refl
  nextUuid := huuid

theorem refl : Kept s s := of_attempts rfl rfl rfl rfl le_rfl

theorem trans (h : Kept s t) (h' : Kept t u) : Kept s u where
  id := h'.id.trans h.id
  installationId := h'.installationId.trans h.installationId
  refs n := (h'.refs n).trans (h.refs n)
  tokens n := (h'.tokens n).trans (h.tokens n)
  rows n hn := h'.rows n (h.rows n hn)
  actions := h.actions.trans h'.actions
  nextUuid := h.nextUuid.trans h'.nextUuid

theorem put {m : ℕ} {a b : RunAttempt} (hb : s.getAttempt m = some b)
    (ha : a.attempt = b.attempt) (href : a.runtimeRef = b.runtimeRef)
    (htok : a.capabilityTokenId = b.capabilityTokenId) : Kept s (s.putAttempt a) where
  id := rfl
  installationId := rfl
  refs n := by
    unfold RunData.refOf
    rw [getAttempt_putAttempt hb ha]
    split_ifs with hn
    · rw [hn, hb]
      exact href
    · rfl
  tokens n := by
    unfold RunData.tokenOf
    rw [getAttempt_putAttempt hb ha]
    split_ifs with hn
    · rw [hn, hb]
      exact htok
    · rfl
  rows n hn := by
    rw [getAttempt_putAttempt hb ha]
    split_ifs
    · rfl
    · exact hn
  actions := .refl
  nextUuid := le_rfl

theorem move (now : Time) (target : RunState) (reason : Option String) (error : Option Json)
    (retryable : Option Bool) : Kept s (moved now target reason error retryable s) :=
  of_attempts (by simp) (by simp) rfl rfl le_rfl

theorem event (type : EventType) (payload : Payload) : Kept s (appendEvent type payload s) :=
  of_attempts rfl rfl rfl rfl le_rfl

theorem markCancel (now : Time) : Kept s (markCancel now s) := of_attempts rfl rfl rfl rfl le_rfl

theorem setJobs (jobs : JobTable) : Kept s (s.setJobs jobs) := of_attempts rfl rfl rfl rfl le_rfl

theorem enqueue (type : JobType) (key : DedupeKey) (now : Time) : Kept s (s.enqueue type key now) :=
  of_attempts rfl rfl rfl rfl le_rfl

theorem reset : Kept s (resetForRetry s) := of_attempts rfl rfl rfl rfl le_rfl

theorem setResult (result : Option Json) : Kept s (s.setResult result) :=
  of_attempts rfl rfl rfl rfl le_rfl

theorem finishing (now : Time) : Kept s (finishing now s) := by
  unfold Crewquarters.finishing
  split_ifs
  · exact move ..
  · exact refl

theorem closeRequests (state : RequestState) (l : List InputRequest) :
    Kept s (l.foldl (closeRequest state) s) := by
  obtain ⟨hrun, hatt, hactions, -, huuid⟩ := foldl_closeRequest_frame state l s
  exact of_attempts (by rw [hrun]) (by rw [hrun]) hatt hactions huuid.ge

theorem exit (now : Time) (n : ℕ) : Kept s (exitAttempt now n s) := by
  unfold exitAttempt
  split
  · exact refl
  · rename_i a ha
    exact put ha rfl rfl rfl

theorem noteExit {code : Option ℤ} {n : ℕ} {a : RunAttempt} (ha : s.getAttempt n = some a) :
    Kept s (noteExit code a s) := by
  unfold Crewquarters.noteExit
  split_ifs
  · exact put ha rfl rfl rfl
  · exact refl

theorem stop (clk : Clock) (interrupted : Bool) (error : Json) :
    Kept s (stopAttempt clk interrupted error s) := by
  simp only [stopAttempt]
  split
  · exact refl
  · rename_i a ha
    split
    · exact refl
    · have hput : Kept s (s.putAttempt { a with
          state := if interrupted then .interrupted else .exited
          endedAt := some (clk 0)
          error := some error }) := put ha rfl rfl rfl
      split
      · exact hput.trans (of_attempts rfl rfl rfl rfl le_rfl)
      · exact hput

end Kept

namespace Turn

theorem kept (h : Turn s t) : Kept s t := by
  cases h <;> assumption

theorem refs (h : Turn s t) (n : ℕ) : t.refOf n = s.refOf n := h.kept.refs n

theorem refl : Turn s s := .silent .refl rfl (fun _ => rfl) rfl (.inl rfl)

theorem after (hk : Kept s u) (hrun : u.run = s.run) (hjobs : u.jobs = s.jobs)
    (hends : ∀ n, u.endedByPlatform n = s.endedByPlatform n) (h : Turn u t) : Turn s t := by
  cases h with
  | silent kept attempt ends jobs move =>
    exact .silent (hk.trans kept) (by rw [attempt, hrun]) (fun n => (ends n).trans (hends n))
      (jobs.trans hjobs) (by rw [← hrun]; exact move)
  | unqueue kept attempt ends jobs source target =>
    rw [hrun] at source attempt
    rw [hrun, hjobs] at jobs
    exact .unqueue (hk.trans kept) attempt (fun n => (ends n).trans (hends n)) jobs source target
  | cancel kept attempt ends jobs source target =>
    rw [hrun] at source attempt
    rw [hrun, hjobs] at jobs
    exact .cancel (hk.trans kept) attempt (fun n => (ends n).trans (hends n)) jobs source target
  | retry kept attempt ends jobs source target =>
    rw [hrun] at source attempt
    rw [hrun, hjobs] at jobs
    exact .retry (hk.trans kept) attempt (fun n => (ends n).trans (hends n)) jobs source target
  | fail kept attempt ends jobs source target =>
    rw [hrun] at source attempt ends
    rw [hrun, hjobs, hk.refs] at jobs
    exact .fail (hk.trans kept) attempt (fun n => by rw [ends n, hends n]) jobs source target

end Turn

theorem stopAttempt_jobs {error : Json}
    (h : ∀ a, s.getAttempt s.run.currentAttempt = some a → a.endedAt = none) :
    (stopAttempt clk interrupted error s).jobs = if (s.refOf s.run.currentAttempt).isSome
      then s.jobs.withJob .runStop s.run.id s.run.currentAttempt (clk 1) else s.jobs := by
  simp only [stopAttempt]
  split
  · rename_i hnone
    simp [RunData.refOf, hnone]
  · rename_i a ha
    rw [if_neg (by rw [h a ha]; simp)]
    simp only [RunData.refOf, ha, bind_some]
    by_cases href : a.runtimeRef.isSome
    · rw [if_pos href, if_pos href]
      rfl
    · rw [if_neg href, if_neg href]
      rfl

theorem stopAttempt_endedByPlatform {error : Json} :
    (stopAttempt clk interrupted error s).endedByPlatform n = s.endedByPlatform n := by
  simp only [stopAttempt]
  split
  · rfl
  · split
    · rfl
    · split <;> rfl

theorem turn_failedRun {code message : String} {retryable : Bool} {details : List (String × Json)}
    (hk : Kept u s) (hcur : s.run.currentAttempt = u.run.currentAttempt) (hjobs : s.jobs = u.jobs)
    (hends : ∀ n, s.endedByPlatform n = u.endedByPlatform n)
    (hu : u.run.state = .queued ∨ u.run.state ∈ watchedStates)
    (h : AttemptsSound s.toRunData) (hw : s.run.state ∈ watchedStates) :
    Turn u (failedRun clk code message retryable interrupted details s) := by
  have hopen : ∀ a, s.getAttempt s.run.currentAttempt = some a → a.endedAt = none :=
    fun a ha => h.open_ ha (not_terminal hw)
  refine .fail ?_ (by simp [failedRun, hcur]) (fun n => ?_) ⟨clk 2, ?_⟩ hu ?_
  · exact hk.trans ((Kept.event ..).trans ((Kept.move ..).trans ((Kept.stop ..).trans
      (Kept.closeRequests ..))))
  · unfold failedRun closePendingInputs
    rw [endedByPlatform_closeRequests, stopAttempt_endedByPlatform, endedByPlatform_moved,
      endedByPlatform_error, hends, hcur]
    simp [watchedStates] at hw
    rcases hw with hw | hw | hw | hw <;> simp [hw]
  · simp only [failedRun, closePendingInputs_jobs]
    rw [stopAttempt_jobs]
    · simp only [moved_currentAttempt, moved_run_id, moved_jobs, appendEvent_run,
        appendEvent_jobs]
      rw [← hk.refs, ← hcur, ← hjobs, ← hk.id]
      rfl
    · intro a ha
      rw [moved_currentAttempt] at ha
      exact hopen a ha
  · cases interrupted <;> simp [failedRun]

theorem turn_fail {code message : String} {retryable : Bool} {details : List (String × Json)}
    (h : AttemptsSound s.toRunData)
    (hs : failRun clk code message retryable interrupted details s = .ok t) : Turn s t := by
  rcases failRun_cases hs with rfl | ⟨hw, rfl⟩
  · exact .refl
  · exact turn_failedRun .refl rfl rfl (fun _ => rfl) (.inr hw) h hw

theorem turn_move {target : RunState} {reason : Option String} {error : Option Json}
    {retryable : Option Bool} (hmove : Silent s.run.state target)
    (hstop : ¬ (s.run.state = .cancelling ∧ target = .cancelled ∧ reason = some "stopped")) :
    Turn s (moved now target reason error retryable s) := by
  refine .silent (.move ..) (by simp) (fun n => ?_) rfl (by simpa using hmove)
  rw [endedByPlatform_moved, decide_eq_false hstop]
  simp

theorem turn_put {m : ℕ} {a b : RunAttempt} (hb : s.getAttempt m = some b)
    (ha : a.attempt = b.attempt) (href : a.runtimeRef = b.runtimeRef)
    (htok : a.capabilityTokenId = b.capabilityTokenId) : Turn s (s.putAttempt a) :=
  .silent (.put hb ha href htok) rfl (fun _ => rfl) rfl (.inl rfl)

theorem turn_waited (now : Time) (key : String) : Turn s (waited now key s) := by
  unfold waited
  split_ifs with hr
  · exact turn_move (.inr (.inl (by simp [hr, watchedStates]))) (by simp [hr])
  · exact .refl

theorem turn_resumed (now : Time) : Turn s (resumed now s) := by
  unfold resumed
  split_ifs with hw
  · exact turn_move (.inr (.inl (by simp [hw.1, watchedStates]))) (by simp [hw.1])
  · exact .refl

theorem endedByPlatform_exitAttempt {m : ℕ} :
    (exitAttempt now m s).endedByPlatform n = s.endedByPlatform n := by
  unfold exitAttempt
  split <;> rfl

theorem endedByPlatform_finishing :
    (finishing now s).endedByPlatform n = s.endedByPlatform n := by
  unfold finishing
  split_ifs with hs
  · rw [endedByPlatform_moved]
    rcases hs with hs | hs <;> simp [hs]
  · rfl

theorem finishing_jobs : (finishing now s).jobs = s.jobs := by
  unfold finishing
  split_ifs <;> rfl

theorem exitAttempt_jobs : (exitAttempt now n s).jobs = s.jobs := by
  unfold exitAttempt
  split <;> rfl

theorem turn_finished {result : Option Json} {target : RunState} {st : String} {err : Option Json}
    {retryable : Option Bool} (hw : s.run.state ∈ watchedStates)
    (htarget : target = .succeeded ∨ target = .failed) :
    Turn s (closePendingInputs .cancelled (moved (clk 2) target none err retryable
      (appendEvent .result (resultPayload st) (finishing (clk 1)
        ((exitAttempt (clk 0) n s).setResult result))))) := by
  refine .silent ?_ ?_ (fun m => ?_) ?_ (.inr (.inl ⟨hw, ?_⟩))
  · exact ((Kept.exit ..).trans (Kept.setResult ..)).trans ((Kept.finishing ..).trans
      ((Kept.event ..).trans ((Kept.move ..).trans (Kept.closeRequests ..))))
  · simp [finishing_currentAttempt, Session.setResult]
  · unfold closePendingInputs resultPayload
    rw [endedByPlatform_closeRequests, endedByPlatform_moved, endedByPlatform_value (by decide),
      endedByPlatform_finishing]
    rw [show ((exitAttempt (clk 0) n s).setResult result).endedByPlatform m
      = (exitAttempt (clk 0) n s).endedByPlatform m from rfl, endedByPlatform_exitAttempt]
    simp
  · rw [closePendingInputs_jobs, moved_jobs, appendEvent_jobs, finishing_jobs]
    exact exitAttempt_jobs
  · rcases htarget with rfl | rfl <;> simp

theorem turn_actions {actions : List IdempotencyAction} (h : ActionsKept s.actions actions) :
    Turn s { s with actions } :=
  .silent ⟨rfl, rfl, fun _ => rfl, fun _ => rfl, fun _ h => h, h, le_rfl⟩ rfl (fun _ => rfl) rfl
    (.inl rfl)

theorem turn_claimAction {key : String} {token : Option String} {r : ActionAnswer}
    (h : claimAction n key token s = .ok (r, t)) : Turn s t := by
  obtain ⟨-, ⟨-, -, rfl⟩ | ⟨a, ha, ⟨-, -, rfl⟩ | ⟨-, -, -, rfl⟩ | ⟨hopen, -, rfl⟩⟩⟩ :=
    claimAction_cases h
  · exact turn_actions (.append _)
  · exact .refl
  · exact .refl
  · have hkey : a.key = key := Table.get_key ha
    exact turn_actions (.put (a := a) (by rw [hkey]; exact ha) rfl hopen)

theorem turn_completeAction {key : String} {result : Json} {r : ActionAnswer}
    (h : completeAction G clk n key result s = .ok (r, t)) : Turn s t := by
  obtain ⟨-, a, ha, ⟨-, -, rfl⟩ | ⟨hopen, -, rfl⟩⟩ := completeAction_cases h
  · exact .refl
  · have hkey : a.key = key := Table.get_key ha
    exact turn_actions (.put (a := a) (by rw [hkey]; exact ha) rfl hopen)

theorem turn_requestCancel {reason : String} (h : requestCancel clk reason s = .ok t) :
    Turn s t := by
  rcases requestCancel_cases h with rfl | ⟨hq, rfl⟩ | ⟨hw, rfl⟩
  · exact .refl
  · refine .unqueue ?_ (by simp [markCancel, Session.setJobs]) (fun n => ?_) ⟨clk 1, ?_⟩ hq
      (by simp)
    · exact ((Kept.markCancel ..).trans (Kept.setJobs ..)).trans
        ((Kept.move ..).trans (Kept.closeRequests ..))
    · unfold closePendingInputs
      rw [endedByPlatform_closeRequests, endedByPlatform_moved]
      simp [markCancel, Session.setJobs, hq]
      rfl
    · rw [closePendingInputs_jobs]
      rfl
  · refine .cancel ?_ (by simp [markCancel]) (fun n => ?_) ⟨clk 2, ?_⟩ hw (by simp)
    · exact (Kept.markCancel ..).trans ((Kept.move ..).trans
        ((Kept.enqueue ..).trans (Kept.closeRequests ..)))
    · unfold closePendingInputs
      rw [endedByPlatform_closeRequests, enqueue_toRunData, endedByPlatform_moved]
      simp
      rfl
    · rw [closePendingInputs_jobs]
      simp only [Session.enqueue, moved_run_id, moved_currentAttempt]
      rfl

theorem turn_retry (h : retry clk s = .ok t) : Turn s t := by
  obtain ⟨hf, rfl⟩ := retry_cases h
  refine .retry ?_ ?_ (fun n => ?_) ⟨clk 1, ?_⟩ hf (by simp)
  · exact Kept.reset.trans ((Kept.move ..).trans (Kept.enqueue ..))
  · simp [resetForRetry]
  · rw [enqueue_toRunData, endedByPlatform_moved]
    simp
    rfl
  · simp only [Session.enqueue, moved_run_id, moved_currentAttempt]
    rfl

theorem turn_handshake {hb : ℕ} (h : handshake clk n hb s = .ok t) : Turn s t := by
  obtain ⟨-, a, ha, ⟨hp, rfl⟩ | ⟨-, rfl⟩⟩ := handshake_cases h
  · have ha' : (moved (clk 0) .running none none none s).getAttempt n = some a := ha
    refine .silent ((Kept.move ..).trans (.put ha' rfl rfl rfl)) (by simp) (fun m => ?_) rfl
      (.inr (.inl (by simp [hp, watchedStates])))
    have hends : (moved (clk 0) .running none none none s).endedByPlatform m
        = s.endedByPlatform m := by
      rw [endedByPlatform_moved]
      simp
    exact hends
  · exact turn_put ha rfl rfl rfl

theorem turn_finish {status : ResultStatus} {result error : Option Json}
    (h : finish G clk n status result error s = .ok t) : Turn s t := by
  obtain ⟨-, ⟨hs, rfl⟩ | ⟨hs, rfl⟩ | ⟨hw, target, st, err, r, htarget, -, rfl⟩⟩ := finish_cases h
  · exact .silent (.exit ..) (by rw [exitAttempt_run])
      (fun m => endedByPlatform_exitAttempt) exitAttempt_jobs (.inl (by rw [exitAttempt_run]))
  · refine .silent ((Kept.exit ..).trans ((Kept.setResult ..).trans (Kept.move ..)))
      (by simp [Session.setResult]) (fun m => ?_) exitAttempt_jobs (.inr (.inr ⟨hs, rfl⟩))
    rw [endedByPlatform_moved]
    simp only [some.injEq, String.reduceEq, and_false, decide_false, Bool.and_false,
      Bool.or_false]
    exact endedByPlatform_exitAttempt
  · exact turn_finished hw htarget.target

/-- The exit is noted, and the run may fail for it. -/
theorem turn_recordContainerExit {version : Option AgentVersion} {ref : RuntimeRef}
    {exitCode : Option ℤ} {oomKilled : Bool} {limit : Option ℕ} {r : Option String}
    (h : recordContainerExit clk version n ref exitCode oomKilled limit s = .ok (r, t))
    (hs : AttemptsSound s.toRunData) : Turn s t := by
  obtain rfl | ⟨a, ha, -, hc⟩ := recordContainerExit_cases h
  · exact .refl
  have hn : AttemptsSound (noteExit exitCode a s).toRunData := by
    unfold noteExit
    split_ifs
    · exact hs.put ha rfl .inl
    · exact hs
  have hjobs : (noteExit exitCode a s).jobs = s.jobs := by
    unfold noteExit
    split_ifs <;> rfl
  have hends : ∀ m, (noteExit exitCode a s).endedByPlatform m = s.endedByPlatform m := by
    intro m
    unfold noteExit
    split_ifs <;> rfl
  obtain rfl | ⟨-, code, message, details, hf⟩ := hc
  · exact Turn.after (.noteExit ha) (noteExit_run ..) hjobs hends .refl
  · exact Turn.after (.noteExit ha) (noteExit_run ..) hjobs hends (turn_fail hn hf)

/-- A new request is added or put in the place of an old one, and the run waits for it. -/
theorem turn_ask {key title prompt : String} {schema : Json} {timeout : ℤ} {preview : Option Json}
    {r : InputRequest} (h : ask G clk n key title prompt schema timeout preview s = .ok (r, t)) :
    Turn s t := by
  obtain ⟨-, -, ⟨rfl, -⟩ | ⟨-, -, rfl⟩ | ⟨-, -, rfl⟩ | ⟨-, rfl⟩⟩ := ask_cases h
  · exact .refl
  · exact turn_waited ..
  · exact Turn.after (u := appendEvent .inputRequested (askedPayload r.id key title)
      (s.putRequest r)) (.of_attempts rfl rfl rfl rfl le_rfl) rfl rfl
      (fun m => endedByPlatform_value (by decide)) (turn_waited ..)
  · exact Turn.after (u := appendEvent .inputRequested (askedPayload r.id key title)
      (s.addRequest r)) (.of_attempts rfl rfl rfl rfl (Nat.le_succ _)) rfl rfl
      (fun m => endedByPlatform_value (by decide)) (turn_waited ..)

theorem RunCall.turn {c : RunCall} (hc : c.exec G clk s = .ok t) (h : AttemptsSound s.toRunData) :
    Turn s t := by
  cases c with
  | requestCancel => exact turn_requestCancel hc
  | retry => exact turn_retry hc
  | handshake => exact turn_handshake hc
  | heartbeat =>
    obtain ⟨r, hc⟩ := dropResult_eq_ok.1 hc
    obtain ⟨-, rfl | ⟨a, ha, rfl⟩⟩ := heartbeat_cases hc
    · exact .refl
    · exact turn_put ha rfl rfl rfl
  | setModelLoading =>
    obtain ⟨-, rfl | ⟨reason, ⟨hs, rfl⟩ | ⟨hs, rfl⟩⟩⟩ := setModelLoading_cases hc
    · exact .refl
    · exact turn_move (.inr (.inl (by simp [hs, watchedStates]))) (by simp)
    · exact turn_move (.inr (.inl (by simp [hs, watchedStates]))) (by simp)
  | recordAgentEvent =>
    obtain ⟨htype, -, -, rfl⟩ := recordAgentEvent_cases hc
    refine .silent (.event ..) rfl (fun m => endedByPlatform_value ?_) rfl (.inl rfl)
    exact (ne_of_agentEvent htype).2
  | recordAgentEventBatch =>
    obtain ⟨r, hc⟩ := dropResult_eq_ok.1 hc
    obtain ⟨-, -, hevents, rfl⟩ := recordAgentEventBatch_cases hc
    exact .silent (.of_attempts rfl rfl rfl rfl le_rfl) rfl
      (fun m => endedByPlatform_batch hevents) rfl (.inl rfl)
  | finish => exact turn_finish hc
  | failRun => exact turn_fail h hc
  | recordContainerExit =>
    obtain ⟨r, hc⟩ := dropResult_eq_ok.1 hc
    exact turn_recordContainerExit hc h
  | ask =>
    obtain ⟨r, hc⟩ := dropResult_eq_ok.1 hc
    exact turn_ask hc
  | answer id =>
    obtain ⟨r, hc⟩ := dropResult_eq_ok.1 hc
    obtain ⟨old, -, -, -, -, rfl⟩ := answer_cases hc
    exact Turn.after (u := appendEvent .inputAnswered (requestPayload r.id r.key .answered)
      (s.putRequest r)) (.of_attempts rfl rfl rfl rfl le_rfl) rfl rfl
      (fun m => endedByPlatform_value (by decide)) (turn_resumed ..)
  | expireInputs now =>
    obtain ⟨k, hc⟩ := dropResult_eq_ok.1 hc
    obtain ⟨rfl, -⟩ | ⟨-, -, rfl⟩ := expireInputs_cases hc
    · exact .refl
    · obtain ⟨hrun, -, -, hjobs, -⟩ := foldl_closeRequest_frame .expired
        ((pendingRequests s).filter fun r => r.deadline ≤ now) s
      exact Turn.after (.closeRequests ..) hrun hjobs
        (fun m => endedByPlatform_closeRequests ..) (turn_resumed ..)
  | claimAction =>
    obtain ⟨r, hc⟩ := dropResult_eq_ok.1 hc
    exact turn_claimAction hc
  | completeAction =>
    obtain ⟨r, hc⟩ := dropResult_eq_ok.1 hc
    exact turn_completeAction hc

end Crewquarters
