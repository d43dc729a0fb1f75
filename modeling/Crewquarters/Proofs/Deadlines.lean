import Crewquarters.Proofs.Clocks
import Crewquarters.Proofs.Fields
import Crewquarters.Proofs.Waiting

/-!
# No question outlives the wait budget

A question is opened with a deadline inside what is left of the run's budget, and a run that has an
open question stays in the wait it is in (`Stays`): leaving `WAITING_INPUT` closes every question.
-/

namespace Crewquarters

open List

variable {G : Guards} {asks reports : Prop} {clk : Clock} {s t : Session} {d d' d'' : RunData}
  {r : InputRequest} {timeout : ℤ}

/-- A run that waits has been waiting all along, for no question that was not open. -/
structure Stays (d d' : RunData) : Prop where
  limit : d'.run.maxInputWaitSeconds = d.run.maxInputWaitSeconds
  waiting : d'.run.state = .waitingInput → d.run.state = .waitingInput
    ∧ d'.run.stateEnteredAt = d.run.stateEnteredAt
    ∧ d'.run.inputWaitSecondsUsed = d.run.inputWaitSecondsUsed
  pending : ∀ r ∈ d'.requests, r.state = .pending → r ∈ d.requests

namespace Stays

theorem refl : Stays d d := ⟨rfl, fun h => ⟨h, rfl, rfl⟩, fun _ hr _ => hr⟩

theorem trans (h : Stays d d') (h' : Stays d' d'') : Stays d d'' := by
  refine ⟨h'.limit.trans h.limit, fun hw => ?_, fun r hr hp => h.pending r (h'.pending r hr hp) hp⟩
  obtain ⟨hw', hentered', hused'⟩ := h'.waiting hw
  obtain ⟨hw, hentered, hused⟩ := h.waiting hw'
  exact ⟨hw, hentered'.trans hentered, hused'.trans hused⟩

theorem of_eq (hrun : d'.run = d.run) (hrequests : d'.requests = d.requests) : Stays d d' := by
  refine ⟨by rw [hrun], fun hw => ?_, fun r hr _ => hrequests ▸ hr⟩
  rw [hrun] at hw ⊢
  exact ⟨hw, rfl, rfl⟩

theorem put (hr : r.state ≠ .pending) : Stays s.toRunData (s.putRequest r).toRunData := by
  refine ⟨rfl, fun hw => ⟨hw, rfl, rfl⟩, fun x hx hp => ?_⟩
  rcases Table.mem_put hx with rfl | ⟨hx, -⟩
  · exact absurd hp hr
  · exact hx

theorem step (h : Edit G False reports s t) : Stays s.toRunData t.toRunData := by
  cases h with
  | move can asked =>
    refine ⟨enter_limits.2, fun hw => ?_, fun r hr _ => hr⟩
    exact absurd hw (asked.resolve_right id)
  | mark => exact ⟨rfl, fun hw => ⟨hw, rfl, rfl⟩, fun _ hr _ => hr⟩
  | reset ended =>
    refine ⟨rfl, fun hw => ?_, fun _ hr _ => hr⟩
    have hw : s.run.state = .waitingInput := hw
    rw [hw] at ended
    rcases ended with ended | ended <;> cases ended
  | result => exact ⟨rfl, fun hw => ⟨hw, rfl, rfl⟩, fun _ hr _ => hr⟩
  | event | batch | addAttempt | putAttempt | jobs | uuid | actions => exact of_eq rfl rfl
  | close pending closed => exact put closed
  | answer => exact put fun h => by cases h
  | reopen asked | ask asked => exact asked.elim

theorem of_edits (h : Edits G False reports s t) : Stays s.toRunData t.toRunData :=
  h.relates (R := fun s t => Stays s.toRunData t.toRunData) (fun _ => refl)
    (fun _ _ _ h h' => h.trans h') fun _ _ h => step h

end Stays

/-- The wait of a run that waits ends within its budget, and so do its open questions. -/
def InBudget (d : RunData) : Prop :=
  d.run.state = .waitingInput → d.run.inputWaitSecondsUsed ≤ d.run.maxInputWaitSeconds
    ∧ ∀ r ∈ d.requests, r.state = .pending →
      d.run.inputWaitSecondsUsed + (r.deadline - d.run.stateEnteredAt) ≤ d.run.maxInputWaitSeconds

theorem waitSeconds_of_waiting {run : AgentRun} (h : run.state = .waitingInput) (now : Time) :
    waitSeconds run now = run.inputWaitSecondsUsed + max 0 (now - run.stateEnteredAt) := by
  simp [waitSeconds, h, RunState.waitClockStates]

theorem waitSeconds_of_running {run : AgentRun} (h : run.state = .running) (now : Time) :
    waitSeconds run now = run.inputWaitSecondsUsed := by
  simp [waitSeconds, h, RunState.waitClockStates]

/-- The run has just begun to wait. -/
structure BeginsWait (later : Time) (s t : Session) : Prop where
  limit : t.run.maxInputWaitSeconds = s.run.maxInputWaitSeconds
  used : t.run.inputWaitSecondsUsed = s.run.inputWaitSecondsUsed
  entered : t.run.stateEnteredAt = later
  requests : t.requests = s.requests

theorem waited_of_running (h : s.run.state = .running) (later : Time) (key : String) :
    BeginsWait later s (waited later key s) := by
  unfold waited
  rw [if_pos h]
  refine ⟨enter_limits.2, ?_, rfl, rfl⟩
  exact enter_inputWaitSecondsUsed.trans (waitSeconds_of_running h later)

theorem checkAsk_budget {now : Time} {schema : Json} {preview : Option Json}
    (h : checkAsk G now schema timeout preview s = .ok ()) :
    0 < timeout ∧ waitSeconds s.run now + timeout ≤ s.run.maxInputWaitSeconds := by
  simp only [checkAsk] at h
  obtain ⟨_, -, h⟩ := bind_eq_ok.1 h
  have hleft : ¬ (timeout ≤ 0 ∨ s.run.maxInputWaitSeconds - waitSeconds s.run now < timeout) := by
    split at h
    all_goals
      obtain ⟨_, -, h⟩ := bind_eq_ok.1 h
      exact (ite_error_eq_ok.1 h).1
  rw [not_or, not_le, not_lt] at hleft
  exact ⟨hleft.1, by linarith [hleft.2]⟩

namespace InBudget

theorem stays (hb : InBudget d) (h : Stays d d') : InBudget d' := by
  intro hw
  obtain ⟨hw, hentered, hused⟩ := h.waiting hw
  rw [hentered, hused, h.limit]
  exact ⟨(hb hw).1, fun r hr hp => (hb hw).2 r (h.pending r hr hp) hp⟩

theorem opened {now later : Time} {key : String} {t : Session} (hb : InBudget s.toRunData)
    (hopen : WaitsForOpen s.toRunData) (hle : now ≤ later)
    (hstate : s.run.state = .running ∨ s.run.state = .waitingInput)
    (hbudget : 0 < timeout ∧ waitSeconds s.run now + timeout ≤ s.run.maxInputWaitSeconds)
    (hdeadline : r.deadline = now + timeout) (hrun : t.run = s.run)
    (hrequests : ∀ x ∈ t.requests, x.state = .pending → x = r ∨ x ∈ s.requests) :
    InBudget (waited later key t).toRunData := by
  obtain ⟨hpos, hle'⟩ := hbudget
  have hpos : (0 : ℚ) < timeout := by exact_mod_cast hpos
  rcases hstate with hr | hw
  · -- nothing else is open while the run is running
    have hnone : ¬ HasPending s.requests := hopen.not_hasPending (by rw [hr]; decide)
    rw [waitSeconds_of_running hr] at hle'
    have hwaits := waited_of_running (hrun ▸ hr : t.run.state = .running) later key
    intro _
    rw [hwaits.limit, hwaits.used, hwaits.entered, hrun]
    refine ⟨by linarith, fun x hx hp => ?_⟩
    rcases hrequests x (hwaits.requests ▸ hx) hp with rfl | hx
    · rw [hdeadline]
      linarith
    · exact absurd ⟨x, hx, hp⟩ hnone
  · obtain ⟨hused, hall⟩ := hb hw
    rw [waitSeconds_of_waiting hw] at hle'
    unfold waited
    rw [if_neg (by rw [hrun, hw]; decide)]
    intro _
    rw [hrun]
    refine ⟨hused, fun x hx hp => ?_⟩
    rcases hrequests x hx hp with rfl | hx
    · rw [hdeadline]
      linarith [le_max_right 0 (now - s.run.stateEnteredAt)]
    · exact hall x hx hp

theorem asked {n : ℕ} {key title prompt : String} {schema : Json} {preview : Option Json}
    (hb : InBudget s.toRunData) (hopen : WaitsForOpen s.toRunData) (hclk : clk 0 ≤ clk 1)
    (hstate : s.run.state = .running ∨ s.run.state = .waitingInput)
    (h : Asked G clk n key title prompt schema timeout preview s r t) : InBudget t.toRunData := by
  cases h with
  | closed => exact hb
  | waiting row pending =>
    have hw : s.run.state = .waitingInput := hopen.2 ⟨r, Table.get_mem row, pending⟩
    unfold waited
    rw [if_neg (by rw [hw]; decide)]
    exact hb
  | reopened row closed checked request =>
    have hdeadline : r.deadline = clk 0 + timeout := by rw [request]; rfl
    refine hb.opened hopen hclk hstate (checkAsk_budget checked) hdeadline rfl ?_
    exact fun x hx _ => (Table.mem_put hx).imp_right And.left
  | new row checked request =>
    have hdeadline : r.deadline = clk 0 + timeout := by rw [request]; rfl
    refine hb.opened hopen hclk hstate (checkAsk_budget checked) hdeadline rfl ?_
    exact fun x hx _ => ((mem_append.1 hx).imp_right mem_singleton.1).symm

theorem performs {op : DbOp} {id : RunId} (hclk : ∀ c ∈ op.clocks clk, Monotone c)
    (h : Performs G clk op id s t) (hopen : WaitsForOpen s.toRunData)
    (hb : InBudget s.toRunData) : InBudget t.toRunData := by
  by_cases hasks : op.asks
  · cases h with
    | call exec =>
      rename_i c
      cases c with
      | ask =>
        obtain ⟨r, exec⟩ := dropResult_eq_ok.1 exec
        obtain ⟨-, hstate, hasked⟩ := ask_asked exec
        exact hb.asked hopen (hclk clk rfl (Nat.zero_le 1)) hstate hasked
      | _ => exact hasks.elim
    | _ => exact hasks.elim
  · have hedits := h.edits
    rw [eq_false hasks] at hedits
    exact hb.stays (.of_edits hedits)

end InBudget

def TimedOut (d : RunData) : Prop :=
  d.run.state = .failed ∧ d.run.error.bind (Json.get? "code") = some (.str "INPUT_TIMEOUT")

/-- What a tick does to a run at `now`: it times out only if its wait is over the budget. -/
structure Watched (now : Time) (d d' : RunData) : Prop where
  stays : Stays d d'
  timedOut : TimedOut d' → TimedOut d
    ∨ d.run.state = .waitingInput ∧ d.run.maxInputWaitSeconds < waitSeconds d.run now

namespace Watched

variable {now : Time}

theorem refl : Watched now d d := ⟨.refl, .inl⟩

theorem trans (h : Watched now d d') (h' : Watched now d' d'') : Watched now d d'' := by
  refine ⟨h.stays.trans h'.stays, fun hout => ?_⟩
  rcases h'.timedOut hout with hout | ⟨hw', hover⟩
  · exact h.timedOut hout
  · obtain ⟨hw, hentered, hused⟩ := h.stays.waiting hw'
    rw [waitSeconds_of_waiting hw', hentered, hused, h.stays.limit,
      ← waitSeconds_of_waiting hw] at hover
    exact .inr ⟨hw, hover⟩

theorem of_not (h : Stays d d') (hout : ¬ TimedOut d') : Watched now d d' :=
  ⟨h, fun h => absurd h hout⟩

end Watched

section Reconciler

variable {code message : String} {retryable interrupted : Bool} {details : List (String × Json)}
  {now : Time}

theorem failedRun_error : (failedRun clk code message retryable interrupted details s).run.error
    = some (failureJson code message retryable details) := by
  simp only [failedRun, closePendingInputs_run, stopAttempt_run]
  exact (enter_error ..).trans rfl

theorem not_timedOut_failedRun (hcode : code ≠ "INPUT_TIMEOUT") :
    ¬ TimedOut (failedRun clk code message retryable interrupted details s).toRunData := by
  rintro ⟨-, herror⟩
  have herror := (congrArg (Option.bind · (Json.get? "code")) failedRun_error).symm.trans herror
  have hget : (failureJson code message retryable details).get? "code" = some (.str code) := rfl
  simp only [Option.bind_some, hget, Option.some.injEq, Json.str.injEq] at herror
  exact hcode herror

theorem Watched.fail (hcode : code ≠ "INPUT_TIMEOUT")
    (h : failRun clk code message retryable interrupted details s = .ok t) :
    Watched now s.toRunData t.toRunData := by
  have hedits : Edits plainGuards False False s t := .fail h
  rcases failRun_cases h with rfl | ⟨-, rfl⟩
  · exact .refl
  · exact .of_not (.of_edits hedits) (not_timedOut_failedRun hcode)

theorem Watched.active (h : watchActive clk now s = .ok t) :
    Watched now s.toRunData t.toRunData := by
  simp only [watchActive] at h
  split_ifs at h
  · exact .fail (by decide) h
  · exact .fail (by decide) h
  · exact Except.ok.inj h ▸ .refl

theorem Watched.watch (h : watch clk now s = .ok t) : Watched now s.toRunData t.toRunData := by
  have hedits : Edits plainGuards False False s t := watch_edits h
  simp only [Crewquarters.watch] at h
  split_ifs at h with hw hover
  · exact .active h
  · exact ⟨.of_edits hedits, fun _ => .inr ⟨not_not.1 hw, hover⟩⟩
  · obtain ⟨⟨k, u⟩, hu, hrest⟩ := bind_eq_ok.1 h
    simp only at hrest
    obtain ⟨rfl, rfl⟩ | ⟨hk, -, rfl⟩ := expireInputs_cases hu
    · rw [if_neg (by simp)] at hrest
      exact .active hrest
    · -- some question expired, and the run waits on or runs again
      rw [if_pos hk] at hrest
      obtain rfl := Except.ok.inj hrest
      refine .of_not (.of_edits hedits) fun hout => ?_
      have hfailed := hout.1
      unfold resumed at hfailed
      split_ifs at hfailed
      · cases hfailed
      · rw [(foldl_closeRequest_frame ..).1, not_not.1 hw] at hfailed
        cases hfailed

theorem Watched.dead {type : JobType} {payload : JobPayload}
    (h : onDeadJob clk type payload s = .ok t) : Watched now s.toRunData t.toRunData := by
  have hedits : Edits plainGuards False False s t := .deadJob h
  obtain ⟨rfl, -⟩ | ⟨-, -, rfl⟩ | ⟨-, -, rfl⟩ := onDeadJob_cases h
  · exact .refl
  · exact .of_not (.of_edits hedits) (not_timedOut_failedRun (by decide))
  · exact .of_not (.of_edits hedits) fun hout => by cases hout.1

theorem Db.commit_watched {times : TickClock} {locked : List RunId} {db : Db} {id : RunId}
    (hd : db.getRun id = some d) :
    (db.commit G clk (.tick times locked)).Fact id (Watched times.now d) := by
  refine Db.commit_relates (true_invariant G) (fun _ _ _ h h' => h.trans h') (fun _ => .refl)
    (fun s t h _ => ?_) (fun _ _ => trivial) hd
  cases h with
  | dead exec => exact .dead exec
  | watch exec => exact .watch exec

end Reconciler

/-- In every state reached by calls whose readings of the clock do not go back, and for every open
question of a run that waits: its deadline is within the run's wait budget, `wait_seconds` has not
exceeded the budget at any time up to the deadline, and a tick ends the run with `INPUT_TIMEOUT`
only after it. -/
theorem questions_within_budget {ops : List (Clock × DbOp)} {db : Db}
    (h : (dbMachine G).run ops Db.empty = some db)
    (hclk : ∀ a ∈ ops, ∀ c ∈ a.2.clocks a.1, Monotone c) (hd : d ∈ db.runs)
    (hwaiting : d.run.state = .waitingInput) (hr : r ∈ d.requests) (hpending : r.state = .pending) :
    d.run.inputWaitSecondsUsed + (r.deadline - d.run.stateEnteredAt) ≤ d.run.maxInputWaitSeconds
    ∧ (∀ now ≤ r.deadline, waitSeconds d.run now ≤ d.run.maxInputWaitSeconds)
    ∧ ∀ (clk : Clock) (times : TickClock) (locked : List RunId) (d' : RunData),
      (db.commit G clk (.tick times locked)).getRun d.id = some d' → TimedOut d' →
      r.deadline < times.now := by
  have hall : db.All InBudget := by
    refine Db.run_all (waitsForOpen_invariant G) (fun d hq hw => ?_)
      (fun clk op id s t (hok : ∀ c ∈ op.clocks clk, Monotone c) hp hopen hb =>
        hb.performs hok hp hopen) ops Db.numbered_empty ?_ ?_ hclk h
    · rw [hq] at hw
      cases hw
    · exact fun d hd => by cases hd
    · exact fun d hd => by cases hd
  obtain ⟨hused, hopen⟩ := hall d hd hwaiting
  have hbudget := hopen r hr hpending
  have hwithin : ∀ now ≤ r.deadline, waitSeconds d.run now ≤ d.run.maxInputWaitSeconds := by
    intro now hnow
    rw [waitSeconds_of_waiting hwaiting]
    rcases max_cases 0 (now - d.run.stateEnteredAt) with ⟨hmax, -⟩ | ⟨hmax, -⟩ <;> rw [hmax] <;>
      linarith
  refine ⟨hbudget, hwithin, fun clk times locked d' hd' hout => ?_⟩
  have hget : db.getRun d.id = some d := Table.get_of_mem (Db.run_numbered h).ids hd
  obtain htimed | ⟨-, hover⟩ := ((Db.commit_watched hget).get hd').timedOut hout
  · rw [htimed.1] at hwaiting
    cases hwaiting
  · by_contra hnot
    exact absurd (hwithin _ (not_lt.1 hnot)) (not_le.2 hover)

/-- A question of a minute, asked twenty seconds in. -/
theorem asked_within_budget : ∃ db d r,
    (dbMachine plainGuards).run askLater Db.empty = some db ∧ d ∈ db.runs ∧ r ∈ d.requests
    ∧ r.deadline = 80 ∧ d.run.inputWaitSecondsUsed + (80 - d.run.stateEnteredAt) ≤ 86400
    ∧ (∀ now ≤ 80, waitSeconds d.run now ≤ 86400)
    ∧ ∀ (clk : Clock) (times : TickClock) (locked : List RunId) (d' : RunData),
      (db.commit plainGuards clk (.tick times locked)).getRun d.id = some d' → TimedOut d' →
      80 < times.now := by
  obtain ⟨db, h, hread⟩ : ∃ db, (dbMachine plainGuards).run askLater Db.empty = some db
      ∧ db.runs.map (fun d => (d.run.state, d.run.maxInputWaitSeconds,
          d.requests.map fun r => (r.state, r.deadline)))
        = [(.waitingInput, 86400, [(.pending, 80)])] := ⟨_, rfl, by decide +kernel⟩
  obtain ⟨d, hruns, hd⟩ := map_eq_singleton_iff.1 hread
  simp only [Prod.mk.injEq] at hd
  obtain ⟨hwaiting, hlimit, hrequests⟩ := hd
  obtain ⟨r, hrows, hr⟩ := map_eq_singleton_iff.1 hrequests
  simp only [Prod.mk.injEq] at hr
  obtain ⟨hpending, hdeadline⟩ := hr
  have hmem : d ∈ db.runs := by simp [hruns]
  have hrow : r ∈ d.requests := by simp [hrows]
  have hclk : ∀ a ∈ askLater, ∀ c ∈ a.2.clocks a.1, Monotone c := by
    simp [askLater, createPlain, DbOp.clocks, monotone_const]
  obtain ⟨hbudget, hwithin, htick⟩ := questions_within_budget h hclk hmem hwaiting hrow hpending
  rw [hlimit, hdeadline] at hbudget hwithin
  rw [hdeadline] at htick
  exact ⟨db, d, r, h, hmem, hrow, hdeadline, by exact_mod_cast hbudget,
    fun now hnow => by exact_mod_cast hwithin now hnow, htick⟩

end Crewquarters
