import Crewquarters.Proofs.Commits

/-!
# The fields of a run follow its state

When a run finished, that it was cancelled, whether it may be retried and its error are written by
different operations, but always with the move they belong to, so they agree with the state
(`FieldsFollow`). No entry of a run's journal leads out of a cancellation, and only a retry counts
its attempts up.
-/

namespace Crewquarters

open List Option

open RunState (canTransition)

variable {G : Guards} {run run' : AgentRun} {e : JournalEntry}
variable {state target : RunState}

def RunState.cancelStates : List RunState := [.cancelling, .cancelled]

def RunState.failureStates : List RunState := [.failed, .interrupted]

open RunState (terminalStates cancelStates failureStates watchedStates)

/-- The columns that depend on the state agree with it. -/
structure FieldsFollow (run : AgentRun) : Prop where
  finishedAt : run.finishedAt.isSome ↔ run.state ∈ terminalStates
  cancelRequestedAt : run.cancelRequestedAt.isSome ↔ run.state ∈ cancelStates
  retryable : run.retryable = true → run.state ∈ failureStates
  error : run.state ∈ failureStates → run.error.isSome
  queued : run.state = .queued → run.error = none

section Enter

variable (now : Time) (target : RunState) (error : Option Json) (retryable : Option Bool)
  (run : AgentRun)

theorem enter_finishedAt : (enter now target error retryable run).finishedAt =
    if target ∈ terminalStates then some now
    else if target = .queued then none else run.finishedAt := by
  obtain ⟨a, w, h⟩ := account_eq now run
  simp only [enter, h]

theorem enter_cancelRequestedAt :
    (enter now target error retryable run).cancelRequestedAt = run.cancelRequestedAt := by
  obtain ⟨a, w, h⟩ := account_eq now run
  simp only [enter, h]

theorem enter_retryable :
    (enter now target error retryable run).retryable = retryable.getD run.retryable := by
  obtain ⟨a, w, h⟩ := account_eq now run
  simp only [enter, h]

theorem enter_error : (enter now target error retryable run).error = error.or run.error := by
  obtain ⟨a, w, h⟩ := account_eq now run
  simp only [enter, h]
  cases error <;> rfl

end Enter

theorem source_of_enter (can : canTransition state target = true)
    (kind : target ∈ [RunState.preparing, .running, .loadingModel, .waitingInput, .succeeded]) :
    state ∉ terminalStates ∧ state ∉ cancelStates
      ∧ state ∉ failureStates := by
  revert can kind
  cases state <;> cases target <;> decide

theorem target_of_enter
    (kind : target ∈ [RunState.preparing, .running, .loadingModel, .waitingInput, .succeeded]) :
    target ∉ cancelStates ∧ target ∉ failureStates ∧ target ≠ .queued := by
  revert kind
  cases target <;> decide

theorem source_of_fail (can : canTransition state target = true)
    (kind : target = .failed ∨ target = .interrupted) :
    state ∉ terminalStates ∧ state ∉ cancelStates := by
  revert can
  rcases kind with rfl | rfl <;> cases state <;> decide

theorem target_of_fail (kind : target = .failed ∨ target = .interrupted) :
    target ∈ terminalStates ∧ target ∈ failureStates
      ∧ target ∉ cancelStates ∧ target ≠ .queued := by
  rcases kind with rfl | rfl <;> decide

theorem cancel_moves
    (h : state = .queued ∧ target = .cancelled ∨ state ∈ watchedStates ∧ target = .cancelling) :
    state ∉ terminalStates ∧ state ∉ failureStates
      ∧ target ∈ cancelStates ∧ target ∉ failureStates ∧ target ≠ .queued := by
  rcases h with ⟨rfl, rfl⟩ | ⟨h, rfl⟩
  · decide
  · revert h
    cases state <;> decide

namespace FieldsFollow

theorem not_retryable (h : FieldsFollow run) (hs : run.state ∉ failureStates) :
    run.retryable = false :=
  Bool.eq_false_iff.2 fun hr => hs (h.retryable hr)

theorem not_asked (h : FieldsFollow run) (hs : run.state ∉ cancelStates) :
    run.cancelRequestedAt = none := by
  rw [← not_isSome_iff_eq_none]
  exact fun hc => hs (h.cancelRequestedAt.1 hc)

theorem not_finished (h : FieldsFollow run) (hs : run.state ∉ terminalStates) :
    run.finishedAt = none := by
  rw [← not_isSome_iff_eq_none]
  exact fun hf => hs (h.finishedAt.1 hf)

theorem of_enter {now : Time} {target : RunState} {error : Option Json} {retryable : Option Bool}
    (hfinished : target ∉ terminalStates → target ≠ .queued → run.finishedAt = none)
    (hcancel : run.cancelRequestedAt.isSome ↔ target ∈ cancelStates)
    (hretryable : retryable.getD run.retryable = true → target ∈ failureStates)
    (herror : target ∈ failureStates → error.isSome)
    (hqueued : target = .queued → error.or run.error = none) :
    FieldsFollow (enter now target error retryable run) where
  finishedAt := by
    rw [enter_finishedAt, enter_state]
    split_ifs with hterm hq
    · simp [hterm]
    · simp [hterm]
    · simp [hterm, hfinished hterm hq]
  cancelRequestedAt := by
    rw [enter_cancelRequestedAt, enter_state]
    exact hcancel
  retryable := by
    rw [enter_retryable, enter_state]
    exact hretryable
  error := by
    rw [enter_error, enter_state]
    intro hf
    obtain ⟨e, rfl⟩ := isSome_iff_exists.1 (herror hf)
    rfl
  queued := by
    rw [enter_error, enter_state]
    exact hqueued

theorem step (h : FieldsFollow run) (hstep : RowStep run e run') : FieldsFollow run' := by
  cases hstep with
  | enter can kind =>
    obtain ⟨hterm, hcancel, hfail⟩ := source_of_enter can kind
    have htarget := target_of_enter kind
    refine of_enter (fun _ _ => h.not_finished hterm) ?_ (fun hr => ?_)
      (fun hf => absurd hf htarget.2.1) fun hq => absurd hq htarget.2.2
    · simp [h.not_asked hcancel, htarget.1]
    · rw [getD_none, h.not_retryable hfail] at hr
      cases hr
  | fail can kind =>
    obtain ⟨hterm, hcancel⟩ := source_of_fail can kind
    have htarget := target_of_fail kind
    refine of_enter (fun ht => absurd htarget.1 ht) ?_ (fun _ => htarget.2.1) (fun _ => rfl)
      fun hq => absurd hq htarget.2.2.2
    simp [h.not_asked hcancel, htarget.2.2.1]
  | stopped source =>
    have hasked : run.cancelRequestedAt.isSome := h.cancelRequestedAt.2 (by rw [source]; decide)
    have hfail : run.state ∉ failureStates := by
      rw [source]
      decide
    refine of_enter (fun ht => absurd (by decide) ht) ?_ (fun hr => ?_)
      (fun hf => absurd hf (by decide)) nofun
    · simp [hasked, cancelStates]
    · rw [getD_none, h.not_retryable hfail] at hr
      cases hr
  | cancel source =>
    obtain ⟨hterm, hfail, htarget⟩ := cancel_moves source
    refine of_enter (fun _ _ => h.not_finished hterm) ?_ (fun hr => ?_)
      (fun hf => absurd hf htarget.2.1) fun hq => absurd hq htarget.2.2
    · simp [htarget.1]
    · have hr' : run.retryable = true := hr
      rw [h.not_retryable hfail] at hr'
      cases hr'
  | retry =>
    refine of_enter (fun _ hq => absurd rfl hq) ?_ nofun (fun hf => absurd hf (by decide))
      fun _ => rfl
    simp [AgentRun.reset, cancelStates]
  | result => exact ⟨h.finishedAt, h.cancelRequestedAt, h.retryable, h.error, h.queued⟩
  | mint => exact h

theorem path : ∀ {entries : List JournalEntry} {run run' : AgentRun}, FieldsFollow run →
    Path RowStep run entries run' → FieldsFollow run'
  | [], _, _, h, hp => hp ▸ h
  | _ :: _, _, _, h, ⟨_, hstep, hrest⟩ => path (h.step hstep) hrest

end FieldsFollow

theorem RowStep.cancelled (h : RowStep run e run') (hs : run.state ∈ cancelStates) :
    run'.state ∈ cancelStates := by
  cases h with
  | enter can kind => exact absurd hs (source_of_enter can kind).2.1
  | fail can kind => exact absurd hs (source_of_fail can kind).2
  | stopped => exact mem_cons_of_mem _ mem_cons_self
  | cancel source => exact (cancel_moves source).2.2.1
  | retry source =>
    rcases source with h | h <;> (rw [h] at hs; exact absurd hs (by decide))
  | result => exact hs
  | mint => exact hs

theorem Path.cancelled : ∀ {entries : List JournalEntry} {run run' : AgentRun},
    Path RowStep run entries run' → run.state ∈ cancelStates →
    run'.state ∈ cancelStates
  | [], _, _, h, hs => h ▸ hs
  | _ :: _, _, _, ⟨_, hstep, hrest⟩, hs => cancelled hrest (hstep.cancelled hs)

theorem RowStep.attempt (h : RowStep run e run') (hretry : ∀ now, e ≠ .retry now) :
    run'.currentAttempt = run.currentAttempt := by
  cases h with
  | retry => exact absurd rfl (hretry _)
  | result => rfl
  | mint => rfl
  | _ => exact enter_currentAttempt ..

theorem Path.attempt : ∀ {entries : List JournalEntry} {run run' : AgentRun},
    Path RowStep run entries run' → (∀ e ∈ entries, ∀ now, e ≠ .retry now) →
    run'.currentAttempt = run.currentAttempt
  | [], _, _, h, _ => h ▸ rfl
  | e :: _, _, _, ⟨_, hstep, hrest⟩, hretry =>
    (attempt hrest fun e he => hretry e (mem_cons_of_mem _ he)).trans
      (hstep.attempt (hretry e mem_cons_self))

theorem fieldsFollow_invariant (G : Guards) : RunInvariant G fun d => FieldsFollow d.run where
  new := by
    intros
    constructor <;> simp [startRun, newRunData, terminalStates, cancelStates,
      failureStates]
  call hc h := by
    obtain ⟨-, es, hes, -⟩ := RunCall.wrote hc
    exact h.path hes.path
  worker hc h := by
    obtain ⟨-, es, hes, -⟩ := WorkerCall.wrote hc
    exact h.path hes.path

theorem Db.commit_attempt {clk : Clock} {op : DbOp} {id : RunId} {db : Db} {d : RunData}
    (hd : db.getRun id = some d) :
    (db.commit G clk op).Fact id fun d' => d'.run.currentAttempt = d.run.currentAttempt
      ∨ op = .client (.call id .retry) ∧ d'.run.currentAttempt = d.run.currentAttempt + 1 := by
  by_cases hop : op = .client (.call id .retry)
  · subst hop
    refine Db.commit_call (R := fun d d' => d'.run.currentAttempt = d.run.currentAttempt
      ∨ _ ∧ d'.run.currentAttempt = d.run.currentAttempt + 1) hd (.inl rfl)
      fun _ t ht => .inr ⟨rfl, ?_⟩
    obtain ⟨-, rfl⟩ := retry_cases ht
    simp [resetForRetry, Db.session]
  · have hsame : (db.commit G clk op).Fact id
        fun d' => d'.run.currentAttempt = d.run.currentAttempt := by
      refine Db.commit_relates (R := fun d d' => d'.run.currentAttempt = d.run.currentAttempt)
        (true_invariant G) (fun _ _ _ h h' => h'.trans h) (fun _ => rfl) (fun s t hp _ => ?_)
        (fun _ _ => trivial) hd
      obtain ⟨es, hes, c, -, n, hwritten⟩ := hp.writes
      exact hes.path.attempt fun e he now hnow => hop (hwritten.retries now (hnow ▸ he))
    exact hsame.mono fun _ => .inl

theorem Db.run_cancelled {ops : List (Clock × DbOp)} {id : RunId} {db db' : Db} {d : RunData}
    (h : (dbMachine G).run ops db = some db') (hd : db.getRun id = some d)
    (hs : d.run.state ∈ cancelStates) :
    ∃ d', db'.getRun id = some d' ∧ d'.run.state ∈ cancelStates := by
  obtain ⟨d', hd', hkept⟩ := Db.run_relates (R := fun d d' =>
      d.run.state ∈ cancelStates → d'.run.state ∈ cancelStates)
    (true_invariant G) (fun _ _ _ h h' hs => h' (h hs)) (fun _ hs => hs)
    (fun _ _ _ _ hp _ hs => by
      obtain ⟨es, hes, -⟩ := hp.writes
      exact hes.path.cancelled hs) ops (fun _ _ => trivial) h hd
  exact ⟨d', hd', hkept hs⟩

theorem requestCancel_state {clk : Clock} {reason : String} {s t : Session}
    (h : requestCancel clk reason s = .ok t) : t.run.state ∈ cancelStates := by
  simp only [requestCancel] at h
  split_ifs at h with hc hq hdone
  · obtain ⟨u, hu, ht⟩ := bind_eq_ok.1 h
    obtain ⟨-, rfl⟩ := transition_eq_ok.1 hu
    obtain rfl := Except.ok.inj ht
    simp [cancelStates]
  · obtain ⟨u, hu, ht⟩ := bind_eq_ok.1 h
    obtain ⟨-, rfl⟩ := transition_eq_ok.1 hu
    obtain rfl := Except.ok.inj ht
    simp [cancelStates]
  · obtain rfl := Except.ok.inj h
    simpa [cancelStates] using hdone

/-- In every state reached, every run's fields follow its state. A transaction leaves a run's
attempt as it is, or is a retry of it, which adds one. After an accepted cancel request the run is
being cancelled or cancelled, whatever follows. -/
theorem cancellation_final {before : List (Clock × DbOp)} {db : Db}
    (h : (dbMachine G).run before Db.empty = some db) :
    (∀ d ∈ db.runs, FieldsFollow d.run)
    ∧ (∀ clk op id d, db.getRun id = some d → ∃ d', (db.commit G clk op).getRun id = some d'
      ∧ (d'.run.currentAttempt = d.run.currentAttempt
        ∨ op = .client (.call id .retry) ∧ d'.run.currentAttempt = d.run.currentAttempt + 1))
    ∧ ∀ clk id reason accepted,
      DbOp.exec G clk (.client (.call id (.requestCancel reason))) db = .ok accepted →
      ∀ after db', (dbMachine G).run after accepted = some db' →
        ∃ d, db'.getRun id = some d ∧ (d.run.state = .cancelling ∨ d.run.state = .cancelled) := by
  refine ⟨(fieldsFollow_invariant G).holds h, fun clk op id d hd => Db.commit_attempt hd, ?_⟩
  intro clk id reason accepted haccept after db' hafter
  obtain ⟨d, u, hd, hu, rfl⟩ := Db.onRun_eq_ok haccept
  have hp : Performs G clk (.client (.call id (.requestCancel reason))) id (db.session d) u :=
    .call (raising_eq_ok.1 hu)
  have hid : u.run.id = id := hp.id_eq.trans (Db.getRun_id hd)
  obtain ⟨d', hd', hs⟩ := Db.run_cancelled hafter (hid ▸ Db.getRun_store (hid.symm ▸ hd))
    (requestCancel_state (raising_eq_ok.1 hu))
  exact ⟨d', hd', by simpa [cancelStates] using hs⟩

/-- A running agent's run is cancelled for good. -/
theorem running_cancelled : ∃ db accepted,
    (dbMachine plainGuards).run (atZero startPlain) Db.empty = some db
    ∧ db.runs.map (fun d => d.run.state) = [.running]
    ∧ DbOp.exec plainGuards (fun _ => 0) (.client (.call 0 (.requestCancel "owner"))) db
      = .ok accepted
    ∧ ∀ after db', (dbMachine plainGuards).run after accepted = some db' →
      ∃ d, db'.getRun 0 = some d ∧ (d.run.state = .cancelling ∨ d.run.state = .cancelled) := by
  obtain ⟨db, h, hstates, accepted, haccept⟩ : ∃ db,
      (dbMachine plainGuards).run (atZero startPlain) Db.empty = some db
      ∧ db.runs.map (fun d => d.run.state) = [.running]
      ∧ ∃ accepted, DbOp.exec plainGuards (fun _ => 0)
        (.client (.call 0 (.requestCancel "owner"))) db = .ok accepted := ⟨_, rfl, rfl, _, rfl⟩
  exact ⟨db, accepted, h, hstates, haccept, (cancellation_final h).2.2 _ 0 "owner" _ haccept⟩

end Crewquarters
