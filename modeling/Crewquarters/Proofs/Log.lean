import Crewquarters.Proofs.Edits
import Crewquarters.Lib.Path

/-!
# The event log agrees with the run

A run's events are numbered from one without a gap, their attempts never go back, and the
`run.state_changed` events lead from nothing through `QUEUED` to the run's state, each along
`TRANSITIONS` (`LogAgrees`). Each operation keeps this, because a run's state is written together
with the event that records it.
-/

namespace Crewquarters

open List

open RunState (canTransition)

variable {s t : Session}

/-- Where a run's log may go: first to `QUEUED`, then along `TRANSITIONS`. -/
def Follows : Option RunState → RunState → Prop
  | none, target => target = .queued
  | some source, target => canTransition source target = true

/-- The event says it leaves `source` and goes to `target`, and the state machine allows it. -/
def ChangeStep (source : Option RunState) (e : RunEvent) (target : Option RunState) : Prop :=
  ∃ state reason code, e.payload = .stateChanged source state reason code
    ∧ target = some state ∧ Follows source state

def stateChanges (events : List RunEvent) : List RunEvent :=
  events.filter fun e => e.type = .stateChanged

/-- Events are numbered without a gap, and their state changes lead to the run's state. -/
structure LogAgrees (d : RunData) : Prop where
  sequences : d.events.map (·.sequence) = List.range' 1 d.events.length
  attempts : (d.events.map (·.attempt)).Pairwise (· ≤ ·)
  attempts_le : ∀ e ∈ d.events, e.attempt ≤ d.run.currentAttempt
  chain : Path ChangeStep none (stateChanges d.events) (some d.run.state)

theorem lastSequence_eq (h : s.events.map (·.sequence) = List.range' 1 s.events.length) :
    lastSequence s = s.events.length := by
  unfold lastSequence
  rw [h]
  refine le_antisymm (max_le_of_forall_le _ _ fun x hx => ?_) ?_
  · have := mem_range'_1.1 hx
    omega
  · rcases Nat.eq_zero_or_pos s.events.length with h0 | hpos
    · omega
    · exact le_max_of_le (mem_range'_1.2 ⟨hpos, by omega⟩) le_rfl

namespace LogAgrees

/-- Rows that continue the numbering at the current attempt and tell of the change of state, if
there is one, keep the log in agreement. -/
theorem extend {d d' : RunData} (h : LogAgrees d) {rows : List RunEvent}
    (hevents : d'.events = d.events ++ rows)
    (hseq : rows.map (·.sequence) = List.range' (d.events.length + 1) rows.length)
    (hatt : ∀ e ∈ rows, e.attempt = d'.run.currentAttempt)
    (hcur : d.run.currentAttempt ≤ d'.run.currentAttempt)
    (hchain : Path ChangeStep (some d.run.state) (stateChanges rows) (some d'.run.state)) :
    LogAgrees d' where
  sequences := by
    rw [hevents, map_append, h.sequences, hseq, length_append, ← range'_append_1,
      Nat.add_comm 1]
  attempts := by
    rw [hevents, map_append, pairwise_append]
    refine ⟨h.attempts, ?_, ?_⟩
    · have : rows.map (·.attempt) = List.replicate rows.length d'.run.currentAttempt := by
        rw [eq_replicate_iff]
        simpa using hatt
      rw [this, pairwise_replicate]
      exact .inr le_rfl
    · intro a ha b hb
      obtain ⟨e, he, rfl⟩ := mem_map.1 ha
      obtain ⟨e', he', rfl⟩ := mem_map.1 hb
      exact (h.attempts_le e he).trans (hcur.trans (hatt e' he').ge)
  attempts_le := by
    intro e he
    rw [hevents] at he
    rcases mem_append.1 he with he | he
    · exact (h.attempts_le e he).trans hcur
    · exact (hatt e he).le
  chain := by
    rw [hevents, stateChanges, filter_append]
    exact path_append.2 ⟨_, h.chain, hchain⟩

theorem congr {d d' : RunData} (h : LogAgrees d) (hevents : d'.events = d.events)
    (hstate : d'.run.state = d.run.state)
    (hcur : d.run.currentAttempt ≤ d'.run.currentAttempt) : LogAgrees d' :=
  h.extend (show d'.events = d.events ++ [] by simpa using hevents) rfl (by simp) hcur
    (by simp [stateChanges, Path, hstate])

theorem event {type : EventType} {payload : Payload} (h : LogAgrees s.toRunData)
    (htype : type ≠ .stateChanged) : LogAgrees (appendEvent type payload s).toRunData := by
  refine h.extend rfl ?_ (by simp) le_rfl ?_
  · simp [lastSequence_eq h.sequences]
  · simp [stateChanges, htype, Path]

theorem move {now : Time} {target : RunState} {reason : Option String} {error : Option Json}
    {retryable : Option Bool} (h : LogAgrees s.toRunData)
    (hcan : canTransition s.run.state target = true) :
    LogAgrees (moved now target reason error retryable s).toRunData := by
  refine h.extend rfl ?_ (by simp [moved]) (by simp) ?_
  · have : lastSequence { s with run := enter now target error retryable s.run } = _ :=
      lastSequence_eq h.sequences
    simp [this]
  · exact ⟨some target, ⟨target, _, _, rfl, rfl, hcan⟩, rfl⟩

theorem batch {G : Guards} {events : List AgentEventInput} (h : LogAgrees s.toRunData)
    (hevents : ∀ e ∈ events, e.type ∈ agentEventTypes) :
    LogAgrees { s with events := s.events ++ batchRows G events s }.toRunData := by
  obtain ⟨hseq, hatt, htypes⟩ := batchRows_spec (G := G) (s := s) hevents
  refine h.extend rfl ?_ hatt le_rfl ?_
  · rw [← lastSequence_eq h.sequences]
    exact hseq
  · have hnone : stateChanges (batchRows G events s) = [] :=
      filter_eq_nil_iff.2 fun e he => by simpa using (ne_of_agentEvent (htypes e he)).1
    rw [hnone]
    rfl

theorem new {clk : Clock} {id : RunId} {installation : AgentInstallation} {version : AgentVersion}
    {trigger : Trigger} {createdBy : Option UserId} {scheduleId : Option ScheduleId}
    {scheduledFor : Option Time} {parentRunId : Option RunId} {startKey : Option String}
    {triggerInput : Option Json} {jobs : JobTable} {nextUuid : ℕ} :
    LogAgrees (startRun (clk 1) ⟨newRunData (clk 0) id installation version trigger createdBy
      scheduleId scheduledFor parentRunId startKey triggerInput, jobs, nextUuid⟩).toRunData where
  sequences := rfl
  attempts := pairwise_singleton ..
  attempts_le := by simp [startRun, appendEvent, newRunData]
  chain := ⟨some .queued, ⟨.queued, none, none, rfl, rfl, rfl⟩, rfl⟩

theorem step {G : Guards} {asks reports : Prop} (h : Edit G asks reports s t)
    (hlog : LogAgrees s.toRunData) : LogAgrees t.toRunData := by
  cases h with
  | move can => exact hlog.move can
  | reset => exact hlog.congr rfl rfl (Nat.le_succ _)
  | event type_ne => exact hlog.event type_ne
  | batch _ types => exact hlog.batch types
  | _ => exact hlog.congr rfl rfl le_rfl

end LogAgrees

theorem logAgrees_invariant (G : Guards) : RunInvariant G LogAgrees :=
  .of_edits (fun _ _ _ _ _ _ _ _ _ _ _ _ _ => LogAgrees.new) fun _ _ => LogAgrees.step

/-- After any sequence of transactions, every run's log and row agree. -/
theorem log_and_state_agree {G : Guards} {ops : List (Clock × DbOp)} {db : Db}
    (h : (dbMachine G).run ops Db.empty = some db) : ∀ d ∈ db.runs, LogAgrees d :=
  (logAgrees_invariant G).holds h

def retriedOps : List (Clock × DbOp) :=
  atZero (startPlain ++ [.client (.call 0 (.finish 1 .failed none none)),
    .client (.call 0 .retry)])

theorem log_and_state_agree_retried : ∃ db,
    (dbMachine plainGuards).run retriedOps Db.empty = some db
    ∧ db.runs.map (fun d => (d.run.state, d.run.currentAttempt, d.events.length))
      = [(.queued, 2, 6)]
    ∧ ∀ d ∈ db.runs, LogAgrees d := by
  have h : (dbMachine plainGuards).run retriedOps Db.empty = some _ := rfl
  exact ⟨_, h, by decide, log_and_state_agree h⟩

end Crewquarters
