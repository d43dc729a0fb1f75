import Crewquarters.Proofs.Chronicle

/-!
# The clocks of a run

`_account` adds the stay that ends to one of two counters, and a retry sets both to zero. With a
clock that never goes back the counters are exact: `active_seconds` and `wait_seconds` are the time
the run spent in the states of each clock since its attempt was queued, as its chronicle tells it
(`Clocked`).
-/

namespace Crewquarters

open List RunState Option

open RunState (canTransition)

section Spent

variable {σ : Type*} (counts starts : σ → Prop) [DecidablePred counts] [DecidablePred starts]

/-- The time spent until `now` in the states that count, since the last one that starts the count
was entered. The states are listed newest first, with the times they were entered. -/
def spent : List (σ × Time) → Time → Time
  | [], _ => 0
  | (state, entered) :: older, now =>
    (if counts state then now - entered else 0) + if starts state then 0 else spent older entered

end Spent

def history (entries : List JournalEntry) : List (RunState × Time) :=
  (entries.filterMap JournalEntry.change).reverse

/-- The time in `PREPARING`, `LOADING_MODEL` or `RUNNING` since the attempt was queued. -/
def activeSpent (entries : List JournalEntry) (now : Time) : Time :=
  spent (· ∈ RunState.activeClockStates) (· = .queued) (history entries) now

def waitSpent (entries : List JournalEntry) (now : Time) : Time :=
  spent (· ∈ RunState.waitClockStates) (· = .queued) (history entries) now

def RunState.clockStates : List RunState := activeClockStates ++ waitClockStates

variable {run run' : AgentRun} {now : Time} {entries : List JournalEntry} {e : JournalEntry}
variable {target : RunState} {error : Option Json} {retryable : Option Bool}

theorem history_append (h : e.change = some (target, now)) :
    history (entries ++ [e]) = (target, now) :: history entries := by
  simp [history, filterMap_append, h]

theorem history_append_none (h : e.change = none) : history (entries ++ [e]) = history entries := by
  simp [history, filterMap_append, h]

theorem RunState.not_mem_waitClockStates : ∀ {state : RunState},
    state ∈ activeClockStates → state ∉ waitClockStates := by
  decide

theorem enter_activeSecondsUsed :
    (enter now target error retryable run).activeSecondsUsed = activeSeconds run now := by
  simp only [enter, account, activeSeconds]
  split_ifs <;> simp

theorem enter_inputWaitSecondsUsed :
    (enter now target error retryable run).inputWaitSecondsUsed = waitSeconds run now := by
  simp only [enter, account, waitSeconds]
  split_ifs with ha hw
  · exact absurd hw (not_mem_waitClockStates ha)
  · simp
  · simp
  · simp

theorem enter_limits :
    (enter now target error retryable run).activeTimeoutSeconds = run.activeTimeoutSeconds
      ∧ (enter now target error retryable run).maxInputWaitSeconds = run.maxInputWaitSeconds := by
  obtain ⟨a, w, h⟩ := account_eq now run
  simp [enter, h]

theorem le_activeSeconds : run.activeSecondsUsed ≤ activeSeconds run now :=
  le_add_of_nonneg_right (le_max_left ..)

theorem le_waitSeconds : run.inputWaitSecondsUsed ≤ waitSeconds run now :=
  le_add_of_nonneg_right (le_max_left ..)

theorem activeSeconds_of_le (hnow : run.stateEnteredAt ≤ now) : activeSeconds run now
    = run.activeSecondsUsed
      + if run.state ∈ RunState.activeClockStates then now - run.stateEnteredAt else 0 := by
  simp only [activeSeconds]
  split_ifs
  · rw [max_eq_right (sub_nonneg.2 hnow)]
  · rw [max_self]

theorem waitSeconds_of_le (hnow : run.stateEnteredAt ≤ now) : waitSeconds run now
    = run.inputWaitSecondsUsed
      + if run.state ∈ RunState.waitClockStates then now - run.stateEnteredAt else 0 := by
  simp only [waitSeconds]
  split_ifs
  · rw [max_eq_right (sub_nonneg.2 hnow)]
  · rw [max_self]

theorem activeSeconds_add_waitSeconds (hs : run.state ∈ RunState.clockStates)
    (hnow : run.stateEnteredAt ≤ now) : activeSeconds run now + waitSeconds run now
      = run.activeSecondsUsed + run.inputWaitSecondsUsed + (now - run.stateEnteredAt) := by
  rw [activeSeconds_of_le hnow, waitSeconds_of_le hnow]
  rcases mem_append.1 hs with ha | hw
  · rw [if_pos ha, if_neg (not_mem_waitClockStates ha)]
    ring
  · rw [if_pos hw, if_neg fun ha => not_mem_waitClockStates ha hw]
    ring

/-- A token minted for the run is of an earlier attempt, or outlives the clocks of this one: since
it was minted no time has passed that they did not count. -/
structure Outlasts (run : AgentRun) (token : CapabilityClaims) : Prop where
  le : token.attempt ≤ run.currentAttempt
  queued : run.state = .queued → token.attempt ≠ run.currentAttempt
  counted : token.attempt = run.currentAttempt → run.state ∈ RunState.clockStates →
    run.stateEnteredAt ≤ token.issuedAt + (run.activeSecondsUsed + run.inputWaitSecondsUsed)
  lifetime : token.attempt = run.currentAttempt →
    token.issuedAt + (run.activeTimeoutSeconds + run.maxInputWaitSeconds + 300) ≤ token.expiresAt

/-- The clocks of the row say what its journal says. -/
structure Clocked (entries : List JournalEntry) (run : AgentRun) : Prop where
  entered : (history entries).head? = some (run.state, run.stateEnteredAt)
  active : ∀ now, run.stateEnteredAt ≤ now → activeSeconds run now = activeSpent entries now
  wait : ∀ now, run.stateEnteredAt ≤ now → waitSeconds run now = waitSpent entries now
  nonneg : 0 ≤ run.activeSecondsUsed ∧ 0 ≤ run.inputWaitSecondsUsed
  tokens : ∀ token, .mint token ∈ entries → Outlasts run token

theorem RunState.clockStates_of_canTransition : ∀ {state target : RunState},
    canTransition state target = true → target ∈ clockStates →
      state = .queued ∨ state ∈ clockStates := by
  intro state target
  cases state <;> cases target <;> decide

theorem Clocked.le (h : Clocked entries run) (htime : e.time = some now)
    (hordered : InOrder (entries ++ [e])) : run.stateEnteredAt ≤ now := by
  have hmem : (run.state, run.stateEnteredAt) ∈ entries.filterMap JournalEntry.change :=
    mem_reverse.1 (mem_of_head? h.entered)
  obtain ⟨e', he', hchange⟩ := mem_filterMap.1 hmem
  have htime' : e'.time = some run.stateEnteredAt := by
    cases e' <;> first | exact congrArg (Option.map Prod.snd) hchange | cases hchange
  exact (inOrder_append.1 hordered).2.2 _ (mem_filterMap.2 ⟨e', he', htime'⟩) _
    (mem_filterMap.2 ⟨e, mem_singleton_self e, htime⟩)

namespace Outlasts

variable {token : CapabilityClaims} {target : RunState} {error : Option Json}
  {retryable : Option Bool}

theorem enter (h : Outlasts run token) (hle : run.stateEnteredAt ≤ now) (hq : target ≠ .queued)
    (hclock : target ∈ RunState.clockStates →
      run.state = .queued ∨ run.state ∈ RunState.clockStates) :
    Outlasts (enter now target error retryable run) token where
  le := by
    rw [enter_currentAttempt]
    exact h.le
  queued hqueued := absurd hqueued hq
  counted hattempt htarget := by
    rw [enter_currentAttempt] at hattempt
    rw [enter_activeSecondsUsed, enter_inputWaitSecondsUsed]
    rcases hclock htarget with hqueued | hs
    · exact absurd hattempt (h.queued hqueued)
    · have hcounted := h.counted hattempt hs
      rw [activeSeconds_add_waitSeconds hs hle]
      change now ≤ _
      linarith
  lifetime hattempt := by
    rw [enter_currentAttempt] at hattempt
    rw [enter_limits.1, enter_limits.2]
    exact h.lifetime hattempt

theorem retry (h : Outlasts run token) :
    Outlasts (Crewquarters.enter now .queued none none run.reset) token := by
  have hlt : token.attempt
      < (Crewquarters.enter now .queued none none run.reset).currentAttempt := by
    rw [enter_currentAttempt]
    exact Nat.lt_succ_of_le h.le
  exact ⟨hlt.le, fun _ => hlt.ne, fun heq => absurd heq hlt.ne, fun heq => absurd heq hlt.ne⟩

theorem mint (hs : run.state = .preparing) (hattempt : token.attempt = run.currentAttempt)
    (hnonneg : 0 ≤ run.activeSecondsUsed ∧ 0 ≤ run.inputWaitSecondsUsed)
    (hle : run.stateEnteredAt ≤ token.issuedAt) {settings : Settings}
    (hexpires : token.expiresAt = token.issuedAt + tokenTtlSeconds run settings) :
    Outlasts run token where
  le := hattempt.le
  queued hqueued := by
    rw [hs] at hqueued
    cases hqueued
  counted _ _ := by linarith [hnonneg.1, hnonneg.2]
  lifetime _ := by
    have hprepare : (0 : ℚ) ≤ settings.prepareTimeoutSeconds := Nat.cast_nonneg _
    rw [hexpires, tokenTtlSeconds]
    push_cast
    linarith

theorem lt_expiresAt (h : Outlasts run token) (hattempt : token.attempt = run.currentAttempt)
    (hs : run.state ∈ RunState.clockStates) (hnow : run.stateEnteredAt ≤ now)
    (hactive : activeSeconds run now ≤ run.activeTimeoutSeconds)
    (hwait : waitSeconds run now ≤ run.maxInputWaitSeconds) : now < token.expiresAt := by
  have hcounted := h.counted hattempt hs
  have hlifetime := h.lifetime hattempt
  have hpassed := activeSeconds_add_waitSeconds hs hnow
  linarith

end Outlasts

namespace Clocked

variable (h : Clocked entries run)

include h

theorem enter {target : RunState} {error : Option Json} {retryable : Option Bool}
    (hchange : e.change = some (target, now)) (hmint : ∀ token, e ≠ .mint token)
    (hle : run.stateEnteredAt ≤ now) (hq : target ≠ .queued)
    (hclock : target ∈ RunState.clockStates →
      run.state = .queued ∨ run.state ∈ RunState.clockStates) :
    Clocked (entries ++ [e]) (enter now target error retryable run) where
  entered := by
    rw [history_append hchange]
    rfl
  active now' hnow' := by
    rw [activeSeconds_of_le hnow', enter_activeSecondsUsed, h.active now hle, activeSpent,
      activeSpent, history_append hchange, spent, if_neg hq, add_comm]
    rfl
  wait now' hnow' := by
    rw [waitSeconds_of_le hnow', enter_inputWaitSecondsUsed, h.wait now hle, waitSpent,
      waitSpent, history_append hchange, spent, if_neg hq, add_comm]
    rfl
  nonneg := by
    rw [enter_activeSecondsUsed, enter_inputWaitSecondsUsed]
    exact ⟨h.nonneg.1.trans le_activeSeconds, h.nonneg.2.trans le_waitSeconds⟩
  tokens token hmem := by
    rcases mem_append.1 hmem with hmem | hmem
    · exact (h.tokens token hmem).enter hle hq hclock
    · exact absurd (mem_singleton.1 hmem).symm (hmint token)

theorem retry (hs : run.state = .failed ∨ run.state = .interrupted) :
    Clocked (entries ++ [.retry now]) (Crewquarters.enter now .queued none none run.reset) := by
  have hactive : activeSeconds run.reset now = 0 := by
    have hstate : run.reset.state ∉ RunState.activeClockStates := by
      rcases hs with hs | hs <;> simp [AgentRun.reset, hs, RunState.activeClockStates]
    rw [activeSeconds, if_neg hstate, max_self, add_zero]
    rfl
  have hwait : waitSeconds run.reset now = 0 := by
    have hstate : run.reset.state ∉ RunState.waitClockStates := by
      rcases hs with hs | hs <;> simp [AgentRun.reset, hs, RunState.waitClockStates]
    rw [waitSeconds, if_neg hstate, max_self, add_zero]
    rfl
  constructor
  case entered =>
    rw [history_append rfl]
    rfl
  case active =>
    intro now' hnow'
    rw [activeSeconds_of_le hnow', enter_activeSecondsUsed, hactive, activeSpent,
      history_append rfl, spent, if_pos rfl, zero_add, add_zero]
    rfl
  case wait =>
    intro now' hnow'
    rw [waitSeconds_of_le hnow', enter_inputWaitSecondsUsed, hwait, waitSpent,
      history_append rfl, spent, if_pos rfl, zero_add, add_zero]
    rfl
  case nonneg =>
    rw [enter_activeSecondsUsed, enter_inputWaitSecondsUsed, hactive, hwait]
    exact ⟨le_rfl, le_rfl⟩
  case tokens =>
    intro token hmem
    have hold : .mint token ∈ entries := by simpa using hmem
    exact (h.tokens token hold).retry

theorem keep (hchange : e.change = none) (hmint : ∀ token, e = .mint token → Outlasts run token) :
    Clocked (entries ++ [e]) run := by
  have hhistory : history (entries ++ [e]) = history entries := history_append_none hchange
  refine ⟨hhistory ▸ h.entered, fun now hnow => ?_, fun now hnow => ?_, h.nonneg,
    fun token hmem => ?_⟩
  · rw [activeSpent, hhistory]
    exact h.active now hnow
  · rw [waitSpent, hhistory]
    exact h.wait now hnow
  · rcases mem_append.1 hmem with hmem | hmem
    · exact h.tokens token hmem
    · exact hmint token (mem_singleton.1 hmem).symm

theorem step (hstep : RowStep run e run') (hordered : InOrder (entries ++ [e])) :
    Clocked (entries ++ [e]) run' := by
  cases hstep with
  | enter can kind =>
    refine h.enter rfl nofun (h.le rfl hordered) ?_ (clockStates_of_canTransition can)
    rintro rfl
    simp at kind
  | fail can kind =>
    refine h.enter rfl nofun (h.le rfl hordered) ?_ (clockStates_of_canTransition can)
    rcases kind with rfl | rfl <;> decide
  | stopped =>
    exact h.enter rfl nofun (h.le rfl hordered) (by decide) fun htarget =>
      absurd htarget (by decide)
  | @cancel asked now target source =>
    have hasked : Clocked entries { run with cancelRequestedAt := some asked } :=
      { h with tokens := fun token hmem => { h.tokens token hmem with } }
    refine hasked.enter rfl nofun (h.le rfl hordered) ?_ fun htarget => ?_
    · rcases source with ⟨-, rfl⟩ | ⟨-, rfl⟩ <;> decide
    · rcases source with ⟨hq, -⟩ | ⟨-, rfl⟩
      · exact .inl hq
      · exact absurd htarget (by decide)
  | retry source => exact h.retry source
  | @result result =>
    have hkept : Clocked (entries ++ [.result result]) run := h.keep rfl nofun
    exact { hkept with tokens := fun token hmem => { hkept.tokens token hmem with } }
  | @mint token state attempt expiresAt =>
    obtain ⟨settings, hexpires⟩ := expiresAt
    refine h.keep rfl fun token' htoken => ?_
    obtain rfl := JournalEntry.mint.inj htoken
    exact .mint state attempt h.nonneg (h.le rfl hordered) hexpires

omit h in
theorem path : ∀ {es entries : List JournalEntry} {run run' : AgentRun},
    Clocked entries run → Path RowStep run es run' → InOrder (entries ++ es) →
      Clocked (entries ++ es) run'
  | [], entries, _, _, h, hpath, _ => by
    obtain rfl := hpath
    rwa [append_nil]
  | e :: es, entries, _, _, h, ⟨_, hstep, hrest⟩, hordered => by
    rw [append_cons] at hordered ⊢
    exact path (h.step hstep hordered.left) hrest hordered

omit h in
theorem new (hs : run.state = .queued) (hactive : run.activeSecondsUsed = 0)
    (hwait : run.inputWaitSecondsUsed = 0) : Clocked [.create run] run := by
  have hhistory : history [.create run] = [(.queued, run.stateEnteredAt)] := rfl
  constructor
  case entered => rw [hhistory, hs, head?_cons]
  case active =>
    intro now hnow
    rw [activeSeconds_of_le hnow, hactive, hs, activeSpent, hhistory]
    simp [spent, RunState.activeClockStates]
  case wait =>
    intro now hnow
    rw [waitSeconds_of_le hnow, hwait, hs, waitSpent, hhistory]
    simp [spent, RunState.waitClockStates]
  case nonneg => exact ⟨hactive.ge, hwait.ge⟩
  case tokens =>
    intro token hmem
    simp at hmem

end Clocked

section Chronicles

variable {G : Guards} {id : RunId} {d : RunData} {db db' : Db}

theorem Records.clocked {clk : Clock} {op : DbOp} {earlier es : List JournalEntry}
    (h : Records G clk op id db es) (hn : db.Numbered) (hnone : db.getRun id = none → earlier = [])
    (hsome : ∀ d, db.getRun id = some d → Clocked earlier d.run)
    (hordered : InOrder (earlier ++ es)) :
    ((db.commit G clk op).getRun id = none → earlier ++ es = [])
      ∧ ∀ d, (db.commit G clk op).getRun id = some d → Clocked (earlier ++ es) d.run := by
  cases h with
  | absent after =>
    refine ⟨fun _ => ?_, fun d hd => ?_⟩
    · rw [append_nil]
      refine hnone (eq_none_iff_forall_ne_some.2 fun d hd => ?_)
      obtain ⟨d', hd', -⟩ : (db.commit G clk op).Fact id fun d' =>
        ∃ entries, Journaled clk op id (db.session d) d' entries := Db.commit_journaled hd
      rw [after] at hd'
      cases hd'
    · rw [after] at hd
      cases hd
  | @create d before after =>
    refine ⟨fun hd => ?_, fun d' hd' => ?_⟩
    · rw [after] at hd
      cases hd
    · obtain rfl := some.inj (after.symm.trans hd')
      have hnew := (Db.commit_new hn before after).2
      rw [hnone before]
      exact .new hnew.state hnew.active hnew.waited
  | @write d d' _ before after journaled =>
    refine ⟨fun hd => ?_, fun d'' hd'' => ?_⟩
    · rw [after] at hd
      cases hd
    · obtain rfl := some.inj (after.symm.trans hd'')
      exact (hsome d before).path journaled.1.path hordered

theorem Chronicle.clocked {ops : List (Clock × DbOp)} {later : List JournalEntry}
    (h : Chronicle G id ops db later) (hn : db.Numbered) {earlier : List JournalEntry}
    (hnone : db.getRun id = none → earlier = [])
    (hsome : ∀ d, db.getRun id = some d → Clocked earlier d.run)
    (hordered : InOrder (earlier ++ later))
    (hrun : (dbMachine G).run ops db = some db') (hd : db'.getRun id = some d) :
    Clocked (earlier ++ later) d.run := by
  induction h generalizing earlier with
  | nil =>
    obtain rfl := some.inj hrun
    rw [append_nil]
    exact hsome d hd
  | cons records rest ih =>
    obtain ⟨u, hu, hrun⟩ := Machine.run_cons.1 hrun
    obtain rfl := some.inj hu
    rw [← append_assoc] at hordered ⊢
    obtain ⟨hnone', hsome'⟩ := records.clocked hn hnone hsome hordered.left
    exact ih (Db.commit_numbered hn) hnone' hsome' hordered hrun

end Chronicles

/-- With a clock that never goes back, in every state reached: the run has a chronicle, and by every
chronicle of it `active_seconds` and `wait_seconds` are the times spent in the states of the two
clocks since the attempt was queued; and while the run is in one of these states and within both
limits, no token minted for the attempt has expired. -/
theorem clocks_exact {G : Guards} {ops : List (Clock × DbOp)} {db : Db} {id : RunId} {d : RunData}
    (hops : Forward ops) (h : (dbMachine G).run ops Db.empty = some db)
    (hd : db.getRun id = some d) :
    (∃ entries, Chronicle G id ops Db.empty entries)
    ∧ ∀ entries, Chronicle G id ops Db.empty entries → ∀ now, d.run.stateEnteredAt ≤ now →
      activeSeconds d.run now = activeSpent entries now
      ∧ waitSeconds d.run now = waitSpent entries now
      ∧ (d.run.state ∈ RunState.clockStates →
          activeSeconds d.run now ≤ d.run.activeTimeoutSeconds →
          waitSeconds d.run now ≤ d.run.maxInputWaitSeconds →
          ∀ token, .mint token ∈ entries → token.attempt = d.run.currentAttempt →
            now < token.expiresAt) := by
  refine ⟨exists_chronicle G id ops Db.empty, fun entries hentries now hnow => ?_⟩
  have hn := Db.numbered_empty
  have hnew : ∀ d, Db.empty.getRun id = some d → Clocked [] d.run := fun d hd => by
    cases hd
  have hordered : InOrder entries := hentries.inOrder hn hops
  have hclocked : Clocked ([] ++ entries) d.run :=
    hentries.clocked hn (fun _ => rfl) hnew hordered h hd
  refine ⟨hclocked.active now hnow, hclocked.wait now hnow,
    fun hs hactive hwait token hmem heq => ?_⟩
  exact (hclocked.tokens token hmem).lt_expiresAt heq hs hnow hactive hwait

/-- Dispatch the first run, let its agent say hello and ask a question, each a while later. -/
def askLater : List (Clock × DbOp) :=
  [(fun _ => 0, .client createPlain),
    (fun _ => 5, .worker 0 (.dispatchPrepare plainSettings plainCatalog 1)),
    (fun _ => 6, .worker 0 (.dispatchRecord plainSettings 1 ⟨0, 1⟩)),
    (fun _ => 8, .client (.call 0 (.handshake 1 60))),
    (fun _ => 20, .client (.call 0 (.ask 1 "go" "Go?" "" (.obj []) 60 none)))]

/-- The state, the attempt and the limits of a run, and what its clocks show at `now`. -/
def AgentRun.dials (run : AgentRun) (now : Time) : RunState × ℕ × List ℚ :=
  (run.state, run.currentAttempt, [run.activeTimeoutSeconds, run.maxInputWaitSeconds,
    run.stateEnteredAt, activeSeconds run now, waitSeconds run now])

/-- Half a minute into its wait the run has been active for fifteen seconds. -/
theorem asked_clocks_exact : ∃ db d entries,
    (dbMachine plainGuards).run askLater Db.empty = some db ∧ db.getRun 0 = some d
    ∧ Chronicle plainGuards 0 askLater Db.empty entries
    ∧ activeSpent entries 50 = 15 ∧ waitSpent entries 50 = 30
    ∧ ∀ token, .mint token ∈ entries → token.attempt = 1 → 50 < token.expiresAt := by
  have hops : Forward askLater := by
    refine ⟨?_, ?_⟩
    · simp [askLater, createPlain, DbOp.clocks, monotone_const]
    · simp only [askLater, createPlain, DbOp.clocks, pairwise_cons, mem_cons,
        not_mem_nil, or_false, Set.mem_singleton_iff, forall_eq, forall_eq_or_imp, forall_const]
      norm_num
  obtain ⟨db, h, hread⟩ : ∃ db, (dbMachine plainGuards).run askLater Db.empty = some db
      ∧ (db.getRun 0).map (fun d => d.run.dials 50)
        = some (.waitingInput, 1, [600, 86400, 20, 15, 30]) := ⟨_, rfl, by decide +kernel⟩
  obtain ⟨d, hd, hdials⟩ := map_eq_some_iff.1 hread
  simp only [AgentRun.dials, Prod.mk.injEq, cons.injEq, and_true] at hdials
  obtain ⟨hstate, hattempt, hlimit, hlimit', hentered, hactive, hwait⟩ := hdials
  obtain ⟨⟨entries, hentries⟩, hall⟩ := clocks_exact hops h hd
  obtain ⟨hactive', hwait', htoken⟩ := hall entries hentries 50 (by rw [hentered]; norm_num)
  refine ⟨db, d, entries, h, hd, hentries, hactive'.symm.trans hactive, hwait'.symm.trans hwait,
    fun token hmem hone => htoken ?_ ?_ ?_ token hmem (hone.trans hattempt.symm)⟩
  · rw [hstate]
    decide
  · rw [hactive, hlimit]
    norm_num
  · rw [hwait, hlimit']
    norm_num

end Crewquarters
