import Crewquarters.Proofs.Turn

/-!
# Runs only move on

A run's attempts are counted up, within an attempt its state only moves on (`RunState.phase`), and
references, rows and ends that are in its tables stay there. `Later` says so of two readings of a
run, and every transaction of a client, a handler or the reconciler leaves a later reading
(`Moves`).
-/

namespace Crewquarters

open List Option

open RunState (watchedStates)

variable {s t u : Session} {d d' d'' : RunData} {n k : ℕ}
variable {state : RunState} {clk : Clock} {ref : RuntimeRef} {stop : Bool}

def RunState.phase : RunState → ℕ
  | .queued => 0
  | .preparing => 1
  | .running | .loadingModel | .waitingInput => 2
  | .cancelling => 3
  | .succeeded | .failed | .cancelled | .interrupted => 4

/-- `d'` was read after `d`. -/
structure Later (d d' : RunData) : Prop where
  id : d'.run.id = d.run.id
  installationId : d'.run.installationId = d.run.installationId
  attempt : d.run.currentAttempt ≤ d'.run.currentAttempt
  phase : d'.run.currentAttempt = d.run.currentAttempt →
    d.run.state.phase ≤ d'.run.state.phase
      ∧ (d.run.state.phase = 4 → d'.run.state = d.run.state)
  refs : ∀ n x, d.refOf n = some x → d'.refOf n = some x
  rows : ∀ n, (d.getAttempt n).isSome → (d'.getAttempt n).isSome
  ends : ∀ n, d.endedByPlatform n = true → d'.endedByPlatform n = true
  actions : ActionsKept d.actions d'.actions

/-- The run is past attempt `n`, or on it and at least in phase `k`. -/
def Reached (n k : ℕ) (d : RunData) : Prop :=
  n < d.run.currentAttempt ∨ (n = d.run.currentAttempt ∧ k ≤ d.run.state.phase)

namespace Later

theorem refl : Later d d := ⟨rfl, rfl, le_rfl, fun _ => ⟨le_rfl, fun _ => rfl⟩, fun _ _ h => h,
  fun _ h => h, fun _ h => h, .refl⟩

theorem trans (h : Later d d') (h' : Later d' d'') : Later d d'' where
  id := h'.id.trans h.id
  installationId := h'.installationId.trans h.installationId
  attempt := h.attempt.trans h'.attempt
  phase heq := by
    have hle := h.attempt
    have hle' := h'.attempt
    obtain ⟨hp, hterm⟩ := h.phase (by omega)
    obtain ⟨hp', hterm'⟩ := h'.phase (by omega)
    refine ⟨hp.trans hp', fun h4 => ?_⟩
    rw [hterm' (by rw [hterm h4, h4]), hterm h4]
  refs n x hx := h'.refs n x (h.refs n x hx)
  rows n hn := h'.rows n (h.rows n hn)
  ends n hn := h'.ends n (h.ends n hn)
  actions := h.actions.trans h'.actions

theorem reached (h : Later d d') (hr : Reached n k d) : Reached n k d' := by
  have hle := h.attempt
  rcases hr with hr | ⟨hn, hk⟩
  · exact .inl (hr.trans_le hle)
  · rcases hle.eq_or_lt with heq | hlt
    · exact .inr ⟨hn.trans heq, hk.trans (h.phase heq.symm).1⟩
    · exact .inl (hn ▸ hlt)

end Later

theorem Reached.mono {k' : ℕ} (h : Reached n k d) (hk : k' ≤ k) : Reached n k' d :=
  h.imp_right fun ⟨hn, hp⟩ => ⟨hn, hk.trans hp⟩

theorem Reached.le (h : Reached n k d) : n ≤ d.run.currentAttempt :=
  h.elim le_of_lt fun ⟨hn, _⟩ => hn.le

theorem Reached.phase_le (h : Reached d.run.currentAttempt k d) : k ≤ d.run.state.phase :=
  h.elim (fun hlt => absurd hlt (lt_irrefl _)) And.right

theorem phase_eq_three (h : state.phase = 3) : state = .cancelling := by
  cases state <;> simp_all [RunState.phase]

theorem Reached.over (h : Reached n 3 d) (hs : d.run.state ≠ .cancelling) : Reached n 4 d := by
  refine h.imp_right fun ⟨hn, hp⟩ => ⟨hn, ?_⟩
  have : d.run.state.phase ≠ 3 := fun h3 => hs (phase_eq_three h3)
  omega

def JobFact : JobType → ℕ → RunData → Prop
  | .runCancel, n, d => Reached n 3 d
  | .runStop, n, d => d.endedByPlatform n = true
  | _, n, d => Reached n 0 d

/-- Attempts, references and ends of a run agree. -/
structure RunSound (d : RunData) : Prop where
  attempts : AttemptsSound d
  refs : ∀ n x, d.refOf n = some x → x = ⟨d.run.id, n⟩
  ended : ∀ n, d.endedByPlatform n = true → n < d.run.currentAttempt
    ∨ (n = d.run.currentAttempt ∧ d.run.state ∈ [RunState.cancelled, .failed, .interrupted])

/-- A call adds a job of its run at most, or cancels the queued dispatch. -/
inductive JobsMove (s t : Session) : Prop where
  | same (jobs : t.jobs = s.jobs)
  | add {type n due} (handled : type ∈ System.handledTypes)
      (jobs : t.jobs = s.jobs.withJob type s.run.id n due) (fact : JobFact type n t.toRunData)
      (first : type = .runDispatch → s.run.currentAttempt < n)
  | cancel {now}
      (jobs : t.jobs = (s.jobs.cancelByDedupe (dispatchKey s.run.id s.run.currentAttempt) now).2)

/-- What every call on a locked run does. -/
structure Moves (s t : Session) : Prop where
  later : Later s.toRunData t.toRunData
  sound : RunSound s.toRunData → AttemptsSound t.toRunData → RunSound t.toRunData
  nextUuid : s.nextUuid ≤ t.nextUuid
  jobs : JobsMove s t

theorem JobFact.later {type : JobType} (h : Later d d') (hf : JobFact type n d) :
    JobFact type n d' := by
  cases type
  case runStop => exact h.ends n hf
  all_goals exact h.reached hf

theorem Kept.later (hk : Kept s t) (hcur : t.run.currentAttempt = s.run.currentAttempt)
    (hphase : s.run.state.phase ≤ t.run.state.phase)
    (hterm : s.run.state.phase = 4 → t.run.state = s.run.state)
    (hends : ∀ n, s.endedByPlatform n = true → t.endedByPlatform n = true) :
    Later s.toRunData t.toRunData where
  id := hk.id
  installationId := hk.installationId
  attempt := hcur.ge
  phase _ := ⟨hphase, hterm⟩
  refs n _ hx := (hk.refs n).trans hx
  rows := hk.rows
  ends := hends
  actions := hk.actions

theorem RunSound.kept (h : RunSound s.toRunData) (hk : Kept s t) (ha : AttemptsSound t.toRunData)
    (hended : ∀ n, t.endedByPlatform n = true → n < t.run.currentAttempt
      ∨ (n = t.run.currentAttempt
        ∧ t.run.state ∈ [RunState.cancelled, .failed, .interrupted])) :
    RunSound t.toRunData where
  attempts := ha
  refs n x hx := by
    rw [h.refs n x ((hk.refs n).symm.trans hx), hk.id]
  ended := hended

theorem phase_watched (h : state ∈ watchedStates) : 1 ≤ state.phase ∧ state.phase ≤ 2 := by
  simp only [watchedStates, mem_cons, not_mem_nil, or_false] at h
  rcases h with rfl | rfl | rfl | rfl <;> simp [RunState.phase]

theorem phase_ended (h : state ∈ [RunState.cancelled, .failed, .interrupted]) :
    state.phase = 4 := by
  simp only [mem_cons, not_mem_nil, or_false] at h
  rcases h with rfl | rfl | rfl <;> rfl

theorem Silent.phase {source target : RunState} (h : Silent source target) :
    source.phase ≤ target.phase ∧ (source.phase = 4 → target = source) := by
  rcases h with rfl | ⟨hw, htarget⟩ | ⟨rfl, rfl⟩
  · exact ⟨le_rfl, fun _ => rfl⟩
  · have hp := phase_watched hw
    refine ⟨hp.2.trans ?_, fun h4 => by omega⟩
    simp only [mem_cons, not_mem_nil, or_false] at htarget
    rcases htarget with rfl | rfl | rfl | rfl | rfl <;> simp [RunState.phase]
  · simp [RunState.phase]

theorem RunSound.ended_lt (h : RunSound d) (hp : d.run.state.phase < 4)
    (he : d.endedByPlatform n = true) : n < d.run.currentAttempt := by
  rcases h.ended n he with hlt | ⟨-, hmem⟩
  · exact hlt
  · have := phase_ended hmem
    omega

theorem Turn.moves (h : Turn s t) : Moves s t := by
  cases h with
  | silent kept attempt ends jobs move =>
    obtain ⟨hle, hterm⟩ := move.phase
    refine ⟨kept.later attempt hle hterm fun n hn => by rwa [ends], fun hs ha => ?_,
      kept.nextUuid, .same jobs⟩
    refine hs.kept kept ha fun n hn => ?_
    rw [ends] at hn
    rw [attempt]
    rcases hs.ended n hn with hlt | ⟨hn, hmem⟩
    · exact .inl hlt
    · rw [hterm (phase_ended hmem)]
      exact .inr ⟨hn, hmem⟩
  | unqueue kept attempt ends jobs source =>
    obtain ⟨now, jobs⟩ := jobs
    refine ⟨kept.later attempt (by simp [source, RunState.phase])
      (by simp [source, RunState.phase]) fun n hn => by rwa [ends], fun hs ha => ?_,
      kept.nextUuid, .cancel jobs⟩
    refine hs.kept kept ha fun n hn => .inl ?_
    rw [ends] at hn
    rw [attempt]
    exact hs.ended_lt (by simp [source, RunState.phase]) hn
  | cancel kept attempt ends jobs source target =>
    obtain ⟨due, jobs⟩ := jobs
    have hp := phase_watched source
    refine ⟨kept.later attempt (by rw [target]; exact hp.2.trans (by decide)) (by omega)
      fun n hn => by rwa [ends], fun hs ha => ?_, kept.nextUuid,
      .add (by decide) jobs (.inr ⟨attempt.symm, by rw [target]; rfl⟩) nofun⟩
    refine hs.kept kept ha fun n hn => .inl ?_
    rw [ends] at hn
    rw [attempt]
    exact hs.ended_lt (by omega) hn
  | retry kept attempt ends jobs =>
    obtain ⟨due, jobs⟩ := jobs
    refine ⟨⟨kept.id, kept.installationId, by omega, fun heq => by omega,
      fun n x hx => (kept.refs n).trans hx, kept.rows, fun n hn => by rwa [ends], kept.actions⟩,
      fun hs ha => ?_, kept.nextUuid,
      .add (by decide) jobs (.inr ⟨attempt.symm, by simp⟩) fun _ => Nat.lt_succ_self _⟩
    refine hs.kept kept ha fun n hn => .inl ?_
    rw [ends] at hn
    rcases hs.ended n hn with hlt | ⟨hn, -⟩ <;> omega
  | fail kept attempt ends jobs source target =>
    obtain ⟨due, jobs⟩ := jobs
    have hp : s.run.state.phase ≤ 2 := by
      rcases source with hq | hw
      · simp [hq, RunState.phase]
      · exact (phase_watched hw).2
    have hmem : t.run.state ∈ [RunState.cancelled, .failed, .interrupted] := by
      rcases target with h | h <;> simp [h]
    have h4 := phase_ended hmem
    refine ⟨kept.later attempt (by omega) (by omega) fun n hn => by rw [ends, hn]; rfl,
      fun hs ha => ?_, kept.nextUuid, ?_⟩
    · refine hs.kept kept ha fun n hn => ?_
      rw [ends, Bool.or_eq_true, decide_eq_true_eq] at hn
      rw [attempt]
      rcases hn with hn | hn
      · exact .inl (hs.ended_lt (by omega) hn)
      · exact .inr ⟨hn.symm, hmem⟩
    · split_ifs at jobs
      · refine .add (by decide) jobs ?_ nofun
        show t.endedByPlatform s.run.currentAttempt = true
        rw [ends]
        simp
      · exact .same jobs

section Begin

variable {clk : Clock} {hb : ℕ} {a : RunAttempt}

theorem endedByPlatform_prepared {now : Time} :
    (prepared now s).endedByPlatform n = s.endedByPlatform n := by
  unfold prepared
  split_ifs with hq
  · rw [endedByPlatform_moved]
    simp [hq]
  · rfl

theorem Kept.prepare (now : Time) : Kept s (prepared now s) :=
  .of_attempts (by simp) (by simp) (by simp) (by simp) (by simp)

theorem Kept.begin (h : beginAttempt clk hb s = .ok (a, t)) : Kept s t := by
  have hrun := beginAttempt_run h
  have hcases := beginAttempt_cases h
  have hnew : s.getAttempt s.run.currentAttempt = none →
      a.runtimeRef = none ∧ a.capabilityTokenId = none := by
    intro hnone
    obtain ⟨hsome, -⟩ | ⟨-, rfl, -⟩ := hcases
    · rw [hnone] at hsome
      cases hsome
    · exact ⟨rfl, rfl⟩
  have hold : ∀ b, s.getAttempt s.run.currentAttempt = some b → b = a := by
    intro b hb
    obtain ⟨hsome, -⟩ | ⟨hnone, -⟩ := hcases
    · exact some.inj (hb.symm.trans hsome)
    · rw [hnone] at hb
      cases hb
  refine ⟨by rw [hrun]; simp, by rw [hrun]; simp, fun n => ?_, fun n => ?_, fun n hn => ?_, ?_,
    ?_⟩
  · unfold RunData.refOf
    rw [beginAttempt_getAttempt h]
    split_ifs with hn
    · subst hn
      rcases hb : s.getAttempt s.run.currentAttempt with _ | b
      · exact (hnew hb).1
      · rw [hold b hb]
    · rfl
  · unfold RunData.tokenOf
    rw [beginAttempt_getAttempt h]
    split_ifs with hn
    · subst hn
      rcases hb : s.getAttempt s.run.currentAttempt with _ | b
      · exact (hnew hb).2
      · rw [hold b hb]
    · rfl
  · rw [beginAttempt_getAttempt h]
    split_ifs
    · rfl
    · exact hn
  · obtain ⟨-, rfl⟩ | ⟨-, -, rfl⟩ := hcases <;> simp [Session.addAttempt, ActionsKept.refl]
  · obtain ⟨-, rfl⟩ | ⟨-, -, rfl⟩ := hcases <;> simp [Session.addAttempt]

theorem begin_frame (h : beginAttempt clk hb s = .ok (a, t)) :
    t.jobs = s.jobs ∧ t.nextUuid = s.nextUuid
      ∧ ∀ n, t.endedByPlatform n = s.endedByPlatform n := by
  obtain ⟨-, rfl⟩ | ⟨-, -, rfl⟩ := beginAttempt_cases h
  · exact ⟨prepared_jobs .., prepared_nextUuid .., fun n => endedByPlatform_prepared⟩
  · exact ⟨prepared_jobs .., prepared_nextUuid .., fun n => endedByPlatform_prepared⟩

end Begin

def Passed (n : ℕ) (d : RunData) : Prop :=
  Reached n 2 d ∨ (Reached n 1 d ∧ (d.refOf n).isSome)

theorem Passed.reached (h : Passed n d) : Reached n 1 d :=
  h.elim (fun h => h.mono (by decide)) And.left

/-- The transaction that mints a token and asks for the container of `spec`. -/
structure Mint (s t : Session) (spec : RunSpec) : Prop where
  runId : spec.runId = s.run.id
  attempt : spec.attempt = s.run.currentAttempt
  tokenId : spec.token.tokenId = s.nextUuid
  claims : spec.token.runId = s.run.id ∧ spec.token.attempt = spec.attempt
    ∧ spec.token.installationId = s.run.installationId
  id : t.run.id = s.run.id
  installationId : t.run.installationId = s.run.installationId
  currentAttempt : t.run.currentAttempt = s.run.currentAttempt
  source : s.run.state = .queued ∨ s.run.state = .preparing
  target : t.run.state = .preparing
  noRef : s.refOf spec.attempt = none
  refs : ∀ n, t.refOf n = s.refOf n
  tokens : ∀ n, t.tokenOf n = if n = spec.attempt then some spec.token.tokenId else s.tokenOf n
  rows : ∀ n, (s.getAttempt n).isSome → (t.getAttempt n).isSome
  row : (t.getAttempt spec.attempt).isSome
  ends : ∀ n, t.endedByPlatform n = s.endedByPlatform n
  actions : ActionsKept s.actions t.actions
  jobs : t.jobs = s.jobs
  nextUuid : t.nextUuid = s.nextUuid + 1

section Prepare

variable {settings : Settings} {catalog : Catalog} {clk : Clock}

theorem prepared_state (now : Time) (h : s.run.state = .queued ∨ s.run.state = .preparing) :
    (prepared now s).run.state = .preparing := by
  unfold prepared
  rcases h with h | h <;> simp [h]

theorem dispatchPrepare_turn (hs : AttemptsSound s.toRunData) (hle : n ≤ s.run.currentAttempt)
    (h : dispatchPrepare settings catalog clk n s = .ok (none, t)) :
    Turn s t ∧ Passed n t.toRunData := by
  rcases dispatchPrepare_cases h with ⟨-, rfl, hpast⟩ | ⟨a, v, hn, hstate, hbegin, hrest⟩
  · refine ⟨.refl, .inl ?_⟩
    by_cases hn : t.run.currentAttempt = n
    · refine .inr ⟨hn.symm, ?_⟩
      obtain ⟨hq, hp⟩ := hpast.resolve_left (not_not.2 hn)
      revert hq hp
      cases t.run.state <;> simp [RunState.phase]
    · exact .inl (by omega)
  · have hv : v.run.state = .preparing := by
      rw [beginAttempt_run hbegin]
      exact prepared_state _ hstate
    have hcur : v.run.currentAttempt = s.run.currentAttempt := by
      rw [beginAttempt_run hbegin]
      simp
    obtain ⟨hjobs, -, hends⟩ := begin_frame hbegin
    have hw : v.run.state ∈ watchedStates := by simp [hv, watchedStates]
    obtain ⟨-, hfail⟩ | ⟨-, href, rfl⟩ | ⟨-, sp, hsp, -⟩ := hrest
    · rw [failRun_of_watched hw, Except.ok.injEq] at hfail
      subst hfail
      have hsource : s.run.state = .queued ∨ s.run.state ∈ watchedStates :=
        hstate.imp_right fun h => by simp [h, watchedStates]
      refine ⟨turn_failedRun (.begin hbegin) hcur hjobs hends hsource (hs.start hbegin) hw,
        .inl (.inr ⟨?_, ?_⟩)⟩
      · simp [failedRun, hcur, hn]
      · simp [failedRun, RunState.phase]
    · have hrow := beginAttempt_getAttempt (n := s.run.currentAttempt) hbegin
      rw [if_pos rfl] at hrow
      have href' : t.refOf s.run.currentAttempt = a.runtimeRef := by
        simp [RunData.refOf, hrow]
      -- a queued run has no row of its attempt yet, so this one was `preparing` before
      have hprep : s.run.state = .preparing := by
        refine hstate.resolve_left fun hq => ?_
        have := (Kept.begin hbegin).refs s.run.currentAttempt
        rw [href', RunData.refOf, hs.queued hq] at this
        exact href this
      refine ⟨.silent (.begin hbegin) hcur hends hjobs (.inl (by rw [hv, hprep])),
        .inr ⟨.inr ⟨by rw [hcur, hn], by rw [hv]; rfl⟩, ?_⟩⟩
      rw [← hn, href']
      exact isSome_iff_ne_none.2 href
    · cases hsp

theorem dispatchPrepare_mint {spec : RunSpec}
    (h : dispatchPrepare settings catalog clk n s = .ok (some spec, t)) :
    spec.attempt = n ∧ Mint s t spec := by
  rcases dispatchPrepare_cases h with ⟨hsp, -⟩ | ⟨a, v, hn, hstate, hbegin, hrest⟩
  · cases hsp
  · obtain ⟨hsp, -⟩ | ⟨hsp, -⟩ | ⟨href, sp, hsp, hm, rfl⟩ := hrest
    · cases hsp
    · cases hsp
    · rw [some.injEq] at hsp
      subst hsp
      obtain ⟨hjobs, huuid, hends⟩ := begin_frame hbegin
      have hk := Kept.begin hbegin
      have hcur : v.run.currentAttempt = s.run.currentAttempt := by
        rw [beginAttempt_run hbegin]
        simp
      have hrow : v.getAttempt s.run.currentAttempt = some a := by
        rw [beginAttempt_getAttempt hbegin, if_pos rfl]
      have hatt : spec.attempt = s.run.currentAttempt := hm.attempt.trans hn.symm
      have hput : ∀ m, (v.putAttempt { a with capabilityTokenId := some spec.token.tokenId
          }).getAttempt m = if m = s.run.currentAttempt then
            some { a with capabilityTokenId := some spec.token.tokenId } else v.getAttempt m :=
        fun m => getAttempt_putAttempt hrow rfl
      refine ⟨hm.attempt, ⟨hm.runId.trans hk.id, hatt, hm.tokenId.trans huuid,
        ⟨hm.tokenRunId.trans hk.id, hm.tokenAttempt.trans hm.attempt.symm,
          hm.installationId.trans hk.installationId⟩, hk.id, hk.installationId, hcur, hstate, ?_,
        ?_, fun m => ?_, fun m => ?_, fun m hm => ?_, ?_, hends, hk.actions, hjobs, ?_⟩⟩
      · show v.run.state = .preparing
        rw [beginAttempt_run hbegin]
        exact prepared_state _ hstate
      · rw [hatt, ← hk.refs, RunData.refOf, hrow]
        exact href
      · rw [← hk.refs, RunData.refOf, RunData.refOf]
        show ((v.putAttempt _).getAttempt m).bind _ = _
        rw [hput]
        split_ifs with hm
        · rw [hm, hrow]
          rfl
        · rfl
      · rw [RunData.tokenOf]
        show ((v.putAttempt _).getAttempt m).bind _ = _
        rw [hput, hatt]
        split_ifs with hm
        · rfl
        · exact hk.tokens m
      · show ((v.putAttempt _).getAttempt m).isSome
        rw [hput]
        split_ifs
        · rfl
        · exact hk.rows m hm
      · show ((v.putAttempt _).getAttempt spec.attempt).isSome
        rw [hput, if_pos hatt]
        rfl
      · show v.nextUuid + 1 = _
        rw [huuid]

end Prepare

theorem Mint.moves {spec : RunSpec} (h : Mint s t spec) : Moves s t := by
  have hp : s.run.state.phase ≤ 1 ∧ t.run.state.phase = 1 := by
    rw [h.target]
    rcases h.source with hs | hs <;> simp [hs, RunState.phase]
  refine ⟨⟨h.id, h.installationId, h.currentAttempt.ge, fun _ => ⟨by omega, by omega⟩,
    fun n x hx => (h.refs n).trans hx, h.rows, fun n hn => by rwa [h.ends], h.actions⟩,
    fun hs ha => ?_, by rw [h.nextUuid]; exact Nat.le_succ _, .same h.jobs⟩
  refine ⟨ha, fun n x hx => ?_, fun n hn => .inl ?_⟩
  · rw [hs.refs n x ((h.refs n).symm.trans hx), h.id]
  · rw [h.ends] at hn
    rw [h.currentAttempt]
    exact hs.ended_lt (by omega) hn

/-- What the second transaction of a dispatch does. -/
structure Record (s t : Session) (n : ℕ) (ref : RuntimeRef) (stop : Bool) : Prop where
  row : (s.getAttempt n).isSome
  stop : stop = true ↔ s.run.currentAttempt ≠ n ∨ s.run.state = .cancelled
    ∨ s.run.state = .failed ∨ s.run.state = .interrupted
  run : t.run = s.run
  refs : ∀ m, t.refOf m = if m = n ∧ s.refOf n = none then some ref else s.refOf m
  tokens : ∀ m, t.tokenOf m = s.tokenOf m
  rows : ∀ m, (s.getAttempt m).isSome → (t.getAttempt m).isSome
  ends : ∀ m, t.endedByPlatform m = s.endedByPlatform m
  actions : ActionsKept s.actions t.actions
  jobs : t.jobs = s.jobs
  nextUuid : t.nextUuid = s.nextUuid

theorem dispatchRecord_record {settings : Settings}
    (h : dispatchRecord settings clk n ref s = .ok (stop, t)) : Record s t n ref stop := by
  obtain ⟨a, ha, hstop, ⟨hnone, hb, rfl⟩ | ⟨hsome, rfl⟩⟩ := dispatchRecord_cases h
  · have hput : ∀ m, (s.putAttempt { a with
        runtimeRef := some ref, heartbeatExpiresAt := hb }).getAttempt m = if m = n then
          some { a with runtimeRef := some ref, heartbeatExpiresAt := hb } else s.getAttempt m :=
      fun m => getAttempt_putAttempt ha rfl
    refine ⟨by rw [ha]; rfl, hstop, rfl, fun m => ?_, fun m => ?_, fun m hm => ?_, fun _ => rfl,
      .refl, rfl, rfl⟩
    · have hn : s.refOf n = none := by
        rw [RunData.refOf, ha]
        exact hnone
      unfold RunData.refOf at hn ⊢
      rw [hput]
      by_cases hm : m = n
      · rw [if_pos hm, if_pos ⟨hm, hn⟩]
        rfl
      · rw [if_neg hm, if_neg fun h => hm h.1]
    · unfold RunData.tokenOf
      rw [hput]
      split_ifs with hm
      · rw [hm, ha]
        rfl
      · rfl
    · rw [hput]
      split_ifs
      · rfl
      · exact hm
  · have hn : t.refOf n ≠ none := by
      rw [RunData.refOf, ha]
      exact hsome
    exact ⟨by rw [ha]; rfl, hstop, rfl, fun m => by rw [if_neg fun h => hn h.2], fun _ => rfl,
      fun _ h => h, fun _ => rfl, .refl, rfl, rfl⟩

theorem Record.ref_isSome (h : Record s t n ref stop) : (t.refOf n).isSome := by
  rw [h.refs]
  split_ifs with hn
  · rfl
  · exact isSome_iff_ne_none.2 fun h => hn ⟨rfl, h⟩

theorem Record.moves (h : Record s t n ref stop) (href : ref = ⟨s.run.id, n⟩) : Moves s t := by
  refine ⟨⟨by rw [h.run], by rw [h.run], by rw [h.run], fun _ => by rw [h.run]; simp,
    fun m x hx => ?_, h.rows, fun m hm => by rwa [h.ends], h.actions⟩, fun hs ha => ?_,
    h.nextUuid.ge, .same h.jobs⟩
  · rw [h.refs, if_neg]
    · exact hx
    · rintro ⟨rfl, hnone⟩
      cases hnone.symm.trans hx
  · refine ⟨ha, fun m x hx => ?_, fun m hm => ?_⟩
    · rw [h.refs] at hx
      rw [h.run]
      split_ifs at hx with hm
      · rw [← some.inj hx, href, hm.1]
      · exact hs.refs m x hx
    · rw [h.ends] at hm
      rw [h.run]
      exact hs.ended m hm

/-- The cancel handler's transaction; `late` is stopped before it commits. -/
structure Cancelled (s t : Session) (read late : Option RuntimeRef) : Prop where
  source : s.run.state = .cancelling
  target : t.run.state = .cancelled
  kept : Kept s t
  currentAttempt : t.run.currentAttempt = s.run.currentAttempt
  late : late = if s.refOf s.run.currentAttempt ≠ read then s.refOf s.run.currentAttempt else none
  ends : ∀ n, t.endedByPlatform n
    = (s.endedByPlatform n || decide (s.run.currentAttempt = n))
  jobs : t.jobs = s.jobs

theorem cancelFinish_cancelled {read late : Option RuntimeRef}
    (h : cancelFinish clk read s = .ok (late, t)) :
    (s.run.state ≠ .cancelling ∧ late = none ∧ t = s) ∨ Cancelled s t read late := by
  rcases cancelFinish_cases h with hn | ⟨hc, hnone, rfl, rfl⟩ | ⟨hc, a, ha, rfl, rfl⟩
  · exact .inl hn
  · refine .inr ⟨hc, by simp, .move .., by simp, ?_, fun n => ?_, rfl⟩
    · simp [RunData.refOf, hnone]
    · rw [endedByPlatform_moved]
      simp [hc]
  · have hput : Kept s (s.putAttempt
        { a with state := .cancelled, endedAt := a.endedAt.or (some (clk 0)) }) :=
      .put ha rfl rfl rfl
    refine .inr ⟨hc, by simp, hput.trans (.move ..), by simp, ?_, fun n => ?_, rfl⟩
    · simp [RunData.refOf, ha]
    · rw [endedByPlatform_moved]
      simp [hc]
      rfl

theorem Cancelled.moves {read late : Option RuntimeRef} (h : Cancelled s t read late) :
    Moves s t := by
  refine ⟨h.kept.later h.currentAttempt (by simp [h.source, h.target, RunState.phase])
    (by simp [h.source, RunState.phase]) fun n hn => by rw [h.ends, hn]; rfl, fun hs ha => ?_,
    h.kept.nextUuid, .same h.jobs⟩
  refine hs.kept h.kept ha fun n hn => ?_
  rw [h.ends, Bool.or_eq_true, decide_eq_true_eq] at hn
  rw [h.currentAttempt]
  rcases hn with hn | hn
  · exact .inl (hs.ended_lt (by simp [h.source, RunState.phase]) hn)
  · exact .inr ⟨hn.symm, by simp [h.target]⟩

theorem onDeadJob_turn {type : JobType} {payload : JobPayload} (hs : AttemptsSound s.toRunData)
    (h : onDeadJob clk type payload s = .ok t) :
    Turn s t ∧ (payload.attempt = some t.run.currentAttempt →
      ¬ (type = .runDispatch ∧ t.run.state = .queued)
      ∧ ¬ (type = .runCancel ∧ t.run.state = .cancelling)) := by
  rcases onDeadJob_cases h with ⟨rfl, hoff⟩ | ⟨-, hstate, rfl⟩ | ⟨-, hc, rfl⟩
  · refine ⟨.refl, fun hn => ?_⟩
    obtain ⟨hd, hc⟩ := hoff (by rw [hn]; rfl)
    exact ⟨fun ⟨ht, hq⟩ => hd ⟨ht, .inl hq⟩, hc⟩
  · have hw : (prepared (clk 0) s).run.state ∈ watchedStates := prepared_watched hstate
    have hsource : s.run.state = .queued ∨ s.run.state ∈ watchedStates :=
      hstate.imp_right fun h => by simp [h, watchedStates]
    refine ⟨turn_failedRun (.prepare _) (by simp) (by simp) (fun _ => endedByPlatform_prepared)
      hsource (hs.prepare _) hw, fun _ => ?_⟩
    simp [failedRun]
  · refine ⟨turn_move (.inr (.inr ⟨hc, rfl⟩)) (by simp), fun _ => ?_⟩
    simp

end Crewquarters
