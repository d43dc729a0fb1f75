import Crewquarters.Proofs.Commits

/-!
# How attempts end

`fail_run` and the cancel handler leave an attempt that has ended alone, but `finish` writes its end
before it looks whether the run is over: a result that is posted again, or after the platform gave
the attempt up, ends it a second time.
-/

namespace Crewquarters

open Option

variable {G : Guards} {clk : Clock} {x : Option AttemptState} {s t : Session} {d d' d'' : RunData}
  {details : List (String × Json)} {retryable interrupted : Bool} {code message : String}

def SameEnd (a b : RunAttempt) : Prop :=
  b.endedAt = a.endedAt ∧ b.state = a.state ∧ b.error = a.error

def failedState (interrupted : Bool) : AttemptState := if interrupted then .interrupted else .exited

def KeepsEnds (d d' : RunData) : Prop :=
  ∀ n a, d.getAttempt n = some a → a.endedAt.isSome →
    ∃ b, d'.getAttempt n = some b ∧ SameEnd a b

theorem KeepsEnds.refl : KeepsEnds d d := fun _ a ha _ => ⟨a, ha, rfl, rfl, rfl⟩

theorem KeepsEnds.trans (h : KeepsEnds d d') (h' : KeepsEnds d' d'') : KeepsEnds d d'' := by
  intro n a ha hended
  obtain ⟨b, hb, hsame⟩ := h n a ha hended
  obtain ⟨c, hc, hsame'⟩ := h' n b hb (by rw [hsame.1]; exact hended)
  exact ⟨c, hc, hsame'.1.trans hsame.1, hsame'.2.1.trans hsame.2.1, hsame'.2.2.trans hsame.2.2⟩

/-- Attempts that have ended stay so, and those that end between the two readings end as `x`, or not
at all. -/
structure Ends (x : Option AttemptState) (d d' : RunData) : Prop where
  kept : KeepsEnds d d'
  ends : ∀ n b, d'.getAttempt n = some b → b.endedAt.isSome →
    (∀ a, d.getAttempt n = some a → a.endedAt = none) → some b.state = x

namespace Ends

variable {m : ℕ} {a b : RunAttempt}

theorem of_getAttempt (h : ∀ n, d'.getAttempt n = d.getAttempt n) : Ends x d d' where
  kept n a ha _ := ⟨a, (h n).trans ha, rfl, rfl, rfl⟩
  ends n b hb hended hopen := by
    rw [hopen b ((h n).symm.trans hb)] at hended
    cases hended

theorem of_attempts (h : t.attempts = s.attempts) : Ends x s.toRunData t.toRunData :=
  of_getAttempt fun _ => getAttempt_congr h

theorem refl : Ends x d d := of_getAttempt fun _ => rfl

theorem trans (h : Ends x d d') (h' : Ends x d' d'') : Ends x d d'' where
  kept := h.kept.trans h'.kept
  ends n c hc hended hopen := by
    by_cases hmid : ∃ b, d'.getAttempt n = some b ∧ b.endedAt.isSome
    · obtain ⟨b, hb, hbe⟩ := hmid
      obtain ⟨c', hc', hsame⟩ := h'.kept n b hb hbe
      obtain rfl := some.inj (hc.symm.trans hc')
      rw [hsame.2.1]
      exact h.ends n b hb hbe hopen
    · refine h'.ends n c hc hended fun b hb => ?_
      rw [← not_isSome_iff_eq_none]
      exact fun hbe => hmid ⟨b, hb, hbe⟩

section Put
variable (ha : s.getAttempt m = some a) (hb : b.attempt = a.attempt)
include ha hb

theorem put (hkept : a.endedAt.isSome → SameEnd a b)
    (hends : a.endedAt = none → b.endedAt.isSome → some b.state = x) :
    Ends x s.toRunData (s.putAttempt b).toRunData where
  kept n c hc hended := by
    rw [getAttempt_putAttempt ha hb]
    split_ifs with hn
    · subst hn
      obtain rfl := some.inj (ha.symm.trans hc)
      exact ⟨b, rfl, hkept hended⟩
    · exact ⟨c, hc, rfl, rfl, rfl⟩
  ends n c hc hended hopen := by
    rw [getAttempt_putAttempt ha hb] at hc
    split_ifs at hc with hn
    · subst hn
      obtain rfl := some.inj hc
      exact hends (hopen a ha) hended
    · rw [hopen c hc] at hended
      cases hended

theorem rewrite (hsame : SameEnd a b) : Ends x s.toRunData (s.putAttempt b).toRunData := by
  refine put ha hb (fun _ => hsame) fun hnone hsome => ?_
  rw [hsame.1, hnone] at hsome
  cases hsome

theorem close (hopen : a.endedAt = none) (hends : b.endedAt.isSome → some b.state = x) :
    Ends x s.toRunData (s.putAttempt b).toRunData := by
  refine put ha hb (fun hended => ?_) fun _ => hends
  rw [hopen] at hended
  cases hended

theorem leave (hopen : a.endedAt = none) (hleft : b.endedAt = a.endedAt) :
    Ends x s.toRunData (s.putAttempt b).toRunData := by
  refine close ha hb hopen fun hended => ?_
  rw [hleft, hopen] at hended
  cases hended

end Put

theorem closeInputs (state : RequestState) :
    Ends x s.toRunData (closePendingInputs state s).toRunData :=
  of_attempts (closePendingInputs_attempts state)

theorem noteExit {code : Option ℤ} {n : ℕ} (ha : s.getAttempt n = some a) :
    Ends x s.toRunData (noteExit code a s).toRunData := by
  unfold Crewquarters.noteExit
  split_ifs
  · exact rewrite ha rfl ⟨rfl, rfl, rfl⟩
  · exact refl

theorem stop (interrupted : Bool) (error : Json) :
    Ends (some (failedState interrupted)) s.toRunData
      (stopAttempt clk interrupted error s).toRunData := by
  simp only [stopAttempt]
  split
  · exact refl
  · rename_i a ha
    split
    · exact refl
    · rename_i hopen
      have hclose := close (x := some (failedState interrupted)) (b := { a with
        state := if interrupted then .interrupted else .exited
        endedAt := some (clk 0)
        error := some error }) ha rfl (not_isSome_iff_eq_none.1 hopen) fun _ => rfl
      split
      · exact hclose.trans (of_attempts rfl)
      · exact hclose

end Ends

theorem failedRun_ends :
    Ends (some (failedState interrupted)) s.toRunData
      (failedRun clk code message retryable interrupted details s).toRunData := by
  unfold failedRun
  have hmoved : Ends (some (failedState interrupted)) s.toRunData (moved (clk 0)
      (if interrupted then .interrupted else .failed) none
      (some (failureJson code message retryable details)) (some retryable)
      (appendEvent .error (.value (failureJson code message retryable details)) s)).toRunData :=
    .of_attempts rfl
  exact hmoved.trans ((Ends.stop interrupted _).trans (.closeInputs _))

theorem failRun_ends (h : failRun clk code message retryable interrupted details s = .ok t) :
    Ends (some (failedState interrupted)) s.toRunData t.toRunData := by
  rcases failRun_cases h with rfl | ⟨-, rfl⟩
  · exact .refl
  · exact failedRun_ends

/-- The state in which the call ends an attempt, if it does. -/
def RunCall.endsAs : RunCall → Option AttemptState
  | .finish .. => some .exited
  | .failRun _ _ _ interrupted _ => some (failedState interrupted)
  | .recordContainerExit .. => some .exited
  | _ => none

def WorkerCall.endsAs : WorkerCall → Option AttemptState
  | .dispatchPrepare .. => some .exited
  | .cancelFinish _ => some .cancelled
  | .onDeadJob .. => some .exited
  | _ => none

/-- The operation posts no result, or the first for the run's current attempt. -/
def RunCall.First (d : RunData) : RunCall → Prop
  | .finish n .. => n = d.run.currentAttempt → ∀ a ∈ d.getAttempt n, a.endedAt = none
  | _ => True

theorem exitAttempt_ends {now : Time} {n : ℕ}
    (h : ∀ a, s.getAttempt n = some a → a.endedAt = none) :
    Ends (some .exited) s.toRunData (exitAttempt now n s).toRunData := by
  unfold exitAttempt
  split
  · exact .refl
  · rename_i a ha
    exact .close ha rfl (h a ha) fun _ => rfl

theorem waited_attempts (now : Time) (key : String) : (waited now key s).attempts = s.attempts := by
  unfold waited
  split_ifs <;> rfl

theorem resumed_attempts (now : Time) : (resumed now s).attempts = s.attempts := by
  unfold resumed
  split_ifs <;> rfl

theorem RunCall.ends {c : RunCall} (hc : c.exec G clk s = .ok t) (h : AttemptsSound s.toRunData)
    (hfirst : c.First s.toRunData) : Ends c.endsAs s.toRunData t.toRunData := by
  cases c with
  | requestCancel =>
    rcases requestCancel_cases hc with rfl | ⟨-, rfl⟩ | ⟨-, rfl⟩
    · exact .refl
    · exact .of_attempts (closePendingInputs_attempts _)
    · exact .of_attempts (closePendingInputs_attempts _)
  | retry =>
    obtain ⟨-, rfl⟩ := retry_cases hc
    exact .of_attempts rfl
  | handshake =>
    -- a run that may hand shake is not over, so its attempt is open
    obtain ⟨rfl, a, ha, hcases⟩ := handshake_cases hc
    have hopen : s.run.state ∉ RunState.terminalStates → a.endedAt = none := h.open_ ha
    obtain ⟨hp, rfl⟩ | ⟨hs, rfl⟩ := hcases
    · have hmoved : Ends none s.toRunData (moved (clk 0) .running none none none s).toRunData :=
        .of_attempts rfl
      refine hmoved.trans (.leave (s := moved (clk 0) .running none none none s) ha rfl ?_ rfl)
      exact hopen (by rw [hp]; decide)
    · refine .leave ha rfl (hopen ?_) rfl
      rcases hs with hs | hs <;> rw [hs] <;> decide
  | heartbeat =>
    obtain ⟨r, hc⟩ := dropResult_eq_ok.1 hc
    obtain ⟨-, rfl | ⟨a, ha, rfl⟩⟩ := heartbeat_cases hc
    · exact .refl
    · exact .rewrite ha rfl ⟨rfl, rfl, rfl⟩
  | setModelLoading =>
    obtain ⟨-, rfl | ⟨reason, ⟨-, rfl⟩ | ⟨-, rfl⟩⟩⟩ := setModelLoading_cases hc
    · exact .refl
    · exact .of_attempts rfl
    · exact .of_attempts rfl
  | recordAgentEvent =>
    obtain ⟨-, -, -, rfl⟩ := recordAgentEvent_cases hc
    exact .of_attempts rfl
  | recordAgentEventBatch =>
    obtain ⟨r, hc⟩ := dropResult_eq_ok.1 hc
    obtain ⟨-, -, -, rfl⟩ := recordAgentEventBatch_cases hc
    exact .of_attempts rfl
  | finish n =>
    obtain ⟨hn, ⟨-, rfl⟩ | ⟨-, rfl⟩ | ⟨-, target, st, err, r, -, -, rfl⟩⟩ := finish_cases hc
    · exact exitAttempt_ends (hfirst hn)
    · exact (exitAttempt_ends (hfirst hn)).trans (.of_attempts rfl)
    · have hexit : Ends (some .exited) s.toRunData (exitAttempt (clk 0) n s).toRunData :=
        exitAttempt_ends (hfirst hn)
      refine hexit.trans (.of_attempts ?_)
      rw [closePendingInputs_attempts, moved_attempts, appendEvent_attempts, finishing_attempts]
      rfl
  | failRun => exact failRun_ends hc
  | recordContainerExit =>
    obtain ⟨r, hc⟩ := dropResult_eq_ok.1 hc
    obtain rfl | ⟨a, ha, -, rfl | ⟨-, code, message, details, hf⟩⟩ := recordContainerExit_cases hc
    · exact .refl
    · exact .noteExit ha
    · exact (Ends.noteExit ha).trans (failRun_ends hf)
  | ask =>
    obtain ⟨r, hc⟩ := dropResult_eq_ok.1 hc
    obtain ⟨-, -, ⟨rfl, -⟩ | ⟨-, -, rfl⟩ | ⟨-, -, rfl⟩ | ⟨-, rfl⟩⟩ := ask_cases hc
    · exact .refl
    · exact .of_attempts (waited_attempts ..)
    · exact .of_attempts (waited_attempts ..)
    · exact .of_attempts (waited_attempts ..)
  | answer =>
    obtain ⟨r, hc⟩ := dropResult_eq_ok.1 hc
    obtain ⟨old, -, -, -, -, rfl⟩ := answer_cases hc
    exact .of_attempts (resumed_attempts ..)
  | expireInputs =>
    obtain ⟨r, hc⟩ := dropResult_eq_ok.1 hc
    obtain ⟨rfl, -⟩ | ⟨-, -, rfl⟩ := expireInputs_cases hc
    · exact .refl
    · exact .of_attempts ((resumed_attempts ..).trans (foldl_closeRequest_frame ..).2.1)
  | claimAction =>
    obtain ⟨r, hc⟩ := dropResult_eq_ok.1 hc
    obtain ⟨actions, rfl⟩ := claimAction_frame hc
    exact .of_attempts rfl
  | completeAction =>
    obtain ⟨r, hc⟩ := dropResult_eq_ok.1 hc
    obtain ⟨actions, rfl⟩ := completeAction_frame hc
    exact .of_attempts rfl

theorem begin_ends {hb : ℕ} {a : RunAttempt} (h : beginAttempt clk hb s = .ok (a, t)) :
    Ends x s.toRunData t.toRunData := by
  have hrow : ∀ n, t.getAttempt n = if n = s.run.currentAttempt then some a else s.getAttempt n :=
    fun n => beginAttempt_getAttempt h
  have hnew : s.getAttempt s.run.currentAttempt = some a
      ∨ s.getAttempt s.run.currentAttempt = none ∧ a.endedAt = none := by
    obtain ⟨hsome, -⟩ | ⟨hnone, rfl, -⟩ := beginAttempt_cases h
    · exact .inl hsome
    · exact .inr ⟨hnone, rfl⟩
  constructor
  case kept =>
    intro n b hb hended
    rw [hrow]
    split_ifs with hn
    · subst hn
      obtain hsome | ⟨hnone, -⟩ := hnew
      · obtain rfl := some.inj (hsome.symm.trans hb)
        exact ⟨a, rfl, rfl, rfl, rfl⟩
      · rw [hnone] at hb
        cases hb
    · exact ⟨b, hb, rfl, rfl, rfl⟩
  case ends =>
    intro n b hb hended hopen
    have hnone : b.endedAt = none := by
      rw [hrow] at hb
      split_ifs at hb with hn
      · subst hn
        obtain rfl := some.inj hb
        obtain hsome | ⟨-, hnone⟩ := hnew
        · exact hopen a hsome
        · exact hnone
      · exact hopen b hb
    rw [hnone] at hended
    cases hended

theorem WorkerCall.ends {c : WorkerCall} (hc : c.exec clk s = .ok t)
    (h : AttemptsSound s.toRunData) : Ends c.endsAs s.toRunData t.toRunData := by
  cases c with
  | beginAttempt =>
    obtain ⟨a, hc⟩ := dropResult_eq_ok.1 (raising_eq_ok.1 hc)
    exact begin_ends hc
  | dispatchPrepare settings catalog n =>
    obtain ⟨spec, hc⟩ := dropResult_eq_ok.1 hc
    obtain ⟨-, rfl, -⟩ | ⟨a, u, -, -, hu, ⟨-, hf⟩ | ⟨-, -, rfl⟩ | ⟨-, sp, -, -, rfl⟩⟩ :=
      dispatchPrepare_cases hc
    · exact .refl
    · exact (begin_ends hu).trans (failRun_ends hf)
    · exact begin_ends hu
    · have hrow := (beginAttempt_getAttempt (n := s.run.currentAttempt) hu).trans (if_pos rfl)
      exact (begin_ends hu).trans (.rewrite hrow rfl ⟨rfl, rfl, rfl⟩)
  | dispatchRecord =>
    obtain ⟨stop, hc⟩ := dropResult_eq_ok.1 hc
    obtain ⟨a, ha, -, ⟨-, hb, rfl⟩ | ⟨-, rfl⟩⟩ := dispatchRecord_cases hc
    · exact .rewrite ha rfl ⟨rfl, rfl, rfl⟩
    · exact .refl
  | cancelFinish =>
    obtain ⟨late, hc⟩ := dropResult_eq_ok.1 hc
    obtain ⟨-, -, rfl⟩ | ⟨-, -, -, rfl⟩ | ⟨hs, a, ha, -, rfl⟩ := cancelFinish_cases hc
    · exact .refl
    · exact .of_attempts rfl
    · have hopen : a.endedAt = none := h.open_ ha (by rw [hs]; decide)
      have hclosed : Ends (some .cancelled) s.toRunData (s.putAttempt { a with
          state := .cancelled, endedAt := a.endedAt.or (some (clk 0)) }).toRunData :=
        .close ha rfl hopen fun _ => rfl
      exact hclosed.trans (.of_attempts rfl)
  | onDeadJob =>
    obtain ⟨rfl, -⟩ | ⟨-, -, rfl⟩ | ⟨-, -, rfl⟩ := onDeadJob_cases (raising_eq_ok.1 hc)
    · exact .refl
    · have hp : Ends (some (failedState false)) s.toRunData (prepared (clk 0) s).toRunData :=
        .of_attempts (prepared_attempts ..)
      exact hp.trans failedRun_ends
    · exact .of_attempts rfl

/-! ## The reconciler

A tick may work on a run twice, for a dead job of it and when it watches it, but fails it at most
once: how, the run's state tells. -/

/-- The run is failed, or its attempts end as they do in any case: not at all. -/
def GivesUp (d d' : RunData) : Prop :=
  (d.run.state ∈ RunState.terminalStates → d'.run.state = d.run.state)
    ∧ ((∀ x, Ends x d d')
      ∨ d.run.state ∉ RunState.terminalStates ∧ d'.run.state ∈ RunState.terminalStates
        ∧ Ends (some (failedState (d'.run.state = .interrupted))) d d')

namespace GivesUp

theorem refl : GivesUp d d := ⟨fun _ => rfl, .inl fun _ => .refl⟩

theorem of_attempts (hs : s.run.state ∈ RunState.terminalStates → t.run.state = s.run.state)
    (h : t.attempts = s.attempts) : GivesUp s.toRunData t.toRunData :=
  ⟨hs, .inl fun _ => .of_attempts h⟩

theorem trans (h : GivesUp d d') (h' : GivesUp d' d'') : GivesUp d d'' := by
  refine ⟨fun hd => ?_, ?_⟩
  · have hd' := h.1 hd
    exact (h'.1 (hd' ▸ hd)).trans hd'
  · obtain hopen | ⟨hd, hd', hends⟩ := h.2
    · obtain hopen' | ⟨hd', hd'', hends⟩ := h'.2
      · exact .inl fun x => (hopen x).trans (hopen' x)
      · exact .inr ⟨fun hd => hd' (h.1 hd ▸ hd), hd'', (hopen _).trans hends⟩
    · obtain hopen' | ⟨hnot, -⟩ := h'.2
      · have hstate := h'.1 hd'
        rw [← hstate] at hd' hends
        exact .inr ⟨hd, hd', hends.trans (hopen' _)⟩
      · exact absurd hd' hnot

theorem ends (h : GivesUp d d') :
    Ends (some (failedState (d'.run.state = .interrupted))) d d' := by
  obtain hopen | ⟨-, -, hends⟩ := h.2
  · exact hopen _
  · exact hends

theorem failedRun (hs : s.run.state ∉ RunState.terminalStates) :
    GivesUp s.toRunData
      (failedRun clk code message retryable interrupted details s).toRunData := by
  have hstate : (Crewquarters.failedRun clk code message retryable interrupted details s).run.state
      = if interrupted then .interrupted else .failed := by
    simp [Crewquarters.failedRun]
  refine ⟨fun h => absurd h hs, .inr ⟨hs, ?_, ?_⟩⟩
  · rw [hstate]
    cases interrupted <;> decide
  · rw [hstate]
    cases interrupted
    · exact failedRun_ends
    · exact failedRun_ends

theorem failRun (h : failRun clk code message retryable interrupted details s = .ok t) :
    GivesUp s.toRunData t.toRunData := by
  rcases failRun_cases h with rfl | ⟨hw, rfl⟩
  · exact refl
  · exact failedRun (not_terminal hw)

theorem resume {now : Time} : GivesUp s.toRunData (resumed now s).toRunData := by
  refine of_attempts (fun h => ?_) (resumed_attempts now)
  unfold resumed
  split_ifs with hw
  · rw [hw.1] at h
    exact absurd h (by decide)
  · rfl

theorem watch {now : Time} (h : watch clk now s = .ok t) : GivesUp s.toRunData t.toRunData := by
  rcases watch_cases h with rfl | ⟨k, code, message, retryable, interrupted, hf⟩ | ⟨n, he⟩
  · exact refl
  · exact failRun hf
  · obtain ⟨rfl, -⟩ | ⟨-, -, rfl⟩ := expireInputs_cases he
    · exact refl
    · have hclosed := foldl_closeRequest_frame (s := s) .expired
        ((pendingRequests s).filter fun r => r.deadline ≤ now)
      exact (of_attempts (fun _ => by rw [hclosed.1]) hclosed.2.1).trans resume

theorem deadJob {type : JobType} {payload : JobPayload} (h : onDeadJob clk type payload s = .ok t) :
    GivesUp s.toRunData t.toRunData := by
  obtain ⟨rfl, -⟩ | ⟨-, hs, rfl⟩ | ⟨-, hs, rfl⟩ := onDeadJob_cases h
  · exact refl
  · have hopen : s.run.state ∉ RunState.terminalStates := by
      rcases hs with hs | hs <;> rw [hs] <;> decide
    have hprepared : GivesUp s.toRunData (prepared (clk 0) s).toRunData :=
      of_attempts (fun h => absurd h hopen) (prepared_attempts ..)
    refine hprepared.trans (failedRun ?_)
    unfold prepared
    split_ifs
    · simp [RunState.terminalStates]
    · exact hopen
  · refine of_attempts (fun h => ?_) rfl
    rw [hs] at h
    exact absurd h (by decide)

end GivesUp

/-- What a transaction ends an attempt as; `state` is the state it leaves the run in. -/
def DbOp.endsAs (state : RunState) : DbOp → Option AttemptState
  | .client (.call _ c) => c.endsAs
  | .client _ => none
  | .worker _ c => c.endsAs
  | .tick .. => some (failedState (state = .interrupted))

/-- The transaction posts no result, or the first for the run's current attempt. -/
def Db.FirstResult : Clock × DbOp → Db → Prop
  | (_, .client (.call id c)), db => ∀ d ∈ db.getRun id, c.First d
  | _, _ => True

namespace Db

variable {op : DbOp} {id : RunId} {db db' : Db}

theorem commit_ends (hdb : db.All AttemptsSound) (hfirst : FirstResult (clk, op) db)
    (hd : db.getRun id = some d) :
    (db.commit G clk op).Fact id fun d' => Ends (op.endsAs d'.run.state) d d' := by
  have hI := attemptsSound_invariant G
  have hends : ∀ x : Option AttemptState, (∀ ⦃s t⦄, Performs G clk op id s t →
      AttemptsSound s.toRunData → Ends x s.toRunData t.toRunData) →
      (db.commit G clk op).Fact id (Ends x d) := fun x hx =>
    commit_relates hI (fun _ _ _ => Ends.trans) (fun _ => Ends.refl) hx hdb hd
  cases op with
  | client op =>
    cases op with
    | createRun =>
      exact hends none fun _ _ h => by cases h
    | answer =>
      refine hends none fun s t h hs => ?_
      obtain _ | exec := h
      exact RunCall.ends exec hs trivial
    | call =>
      refine commit_call hd Ends.refl fun hr t exec => ?_
      subst hr
      exact RunCall.ends exec (hdb d (Table.get_mem hd)) (hfirst d hd)
  | worker r c =>
    refine hends c.endsAs fun s t h hs => ?_
    obtain _ | _ | exec := h
    exact WorkerCall.ends exec hs
  | tick times locked =>
    have hgiven : (db.commit G clk (.tick times locked)).Fact id (GivesUp d) := by
      refine commit_relates hI (fun _ _ _ => GivesUp.trans) (fun _ => GivesUp.refl)
        (fun s t h hs => ?_) hdb hd
      cases h with
      | dead exec => exact .deadJob exec
      | watch exec => exact .watch exec
    obtain ⟨d', hd', hup⟩ := hgiven
    exact ⟨d', hd', hup.ends⟩

theorem run_keepsEnds : ∀ {ops : List (Clock × DbOp)} {db db' : Db} {d : RunData},
    db.All AttemptsSound → (dbMachine G).Meets FirstResult ops db →
    (dbMachine G).run ops db = some db' → db.getRun id = some d → db'.Fact id (KeepsEnds d)
  | [], _, _, d, _, _, h, hd => ⟨d, some.inj h ▸ hd, .refl⟩
  | (clk, op) :: ops, _, _, _, hdb, hmeets, h, hd => by
    obtain ⟨u, hu, h⟩ := Machine.run_cons.1 h
    obtain ⟨hfirst, hrest⟩ := hmeets u hu
    obtain rfl := some.inj hu
    obtain ⟨d₁, hd₁, hends⟩ := commit_ends hdb hfirst hd
    obtain ⟨d₂, hd₂, hkept⟩ := run_keepsEnds ((attemptsSound_invariant G).commit hdb) hrest h hd₁
    exact ⟨d₂, hd₂, hends.kept.trans hkept⟩

end Db

/-- Where every result is the first for its attempt, attempts that have ended stay as they ended,
and an attempt that ends in a transaction ends as the transaction says and stays so. -/
theorem attempts_end_once {before after : List (Clock × DbOp)} {op : DbOp} {db db' : Db}
    {id : RunId}
    (hmeets : (dbMachine G).Meets Db.FirstResult (before ++ (clk, op) :: after) Db.empty)
    (h : (dbMachine G).run before Db.empty = some db)
    (h' : (dbMachine G).run after (db.commit G clk op) = some db')
    (hd : db.getRun id = some d) :
    ∃ d₁ d₂, (db.commit G clk op).getRun id = some d₁ ∧ db'.getRun id = some d₂
      ∧ (∀ n a, d.getAttempt n = some a → a.endedAt.isSome →
          ∃ c, d₂.getAttempt n = some c ∧ SameEnd a c)
      ∧ ∀ n b, d₁.getAttempt n = some b → b.endedAt.isSome →
          (∀ a, d.getAttempt n = some a → a.endedAt = none) →
          some b.state = op.endsAs d₁.run.state
          ∧ ∃ c, d₂.getAttempt n = some c ∧ SameEnd b c := by
  have hI := attemptsSound_invariant G
  have hdb : db.All AttemptsSound := hI.holds h
  obtain ⟨hfirst, hrest⟩ := (hmeets.append h).2 _ rfl
  obtain ⟨d₁, hd₁, hends⟩ := Db.commit_ends hdb hfirst hd
  obtain ⟨d₂, hd₂, hkept⟩ := Db.run_keepsEnds (hI.commit hdb) hrest h' hd₁
  refine ⟨d₁, d₂, hd₁, hd₂, hends.kept.trans hkept, fun n b hb hended hopen => ?_⟩
  exact ⟨hends.ends n b hb hended hopen, hkept n b hb hended⟩

def giveUp : Clock × DbOp :=
  (fun _ => 100, .tick ⟨100, 100, fun _ _ => 100, fun _ _ => 100⟩ [])

def postResult : DbOp := .client (.call 0 (.finish 1 .succeeded none none))

def Db.endings (db : Db) : List (AttemptState × Option Time) :=
  db.runs.flatMap fun d => d.attempts.map fun a => (a.state, a.endedAt)

/-- The result of an agent that was given up ends its attempt a second time. -/
theorem late_result_ends_again : ∃ db,
    (dbMachine plainGuards).run (atZero startPlain ++ [giveUp]) Db.empty = some db
    ∧ db.endings = [(.interrupted, some 100)]
    ∧ (db.commit plainGuards (fun _ => 120) postResult).endings = [(.exited, some 120)] :=
  ⟨_, rfl, by decide +kernel, by decide +kernel⟩

instance decidableFirst (d : RunData) : ∀ c : RunCall, Decidable (c.First d)
  | .finish n .. =>
    inferInstanceAs (Decidable (n = d.run.currentAttempt → ∀ a ∈ d.getAttempt n, a.endedAt = none))
  | .requestCancel .. | .retry | .handshake .. | .heartbeat .. | .setModelLoading ..
  | .recordAgentEvent .. | .recordAgentEventBatch .. | .failRun .. | .recordContainerExit ..
  | .ask .. | .answer .. | .expireInputs .. | .claimAction .. | .completeAction .. =>
    inferInstanceAs (Decidable True)

instance decidableFirstResult : ∀ (a : Clock × DbOp) (db : Db), Decidable (Db.FirstResult a db)
  | (_, .client (.call id c)), db => inferInstanceAs (Decidable (∀ d ∈ db.getRun id, c.First d))
  | (_, .client (.createRun ..)), _ | (_, .client (.answer ..)), _ | (_, .worker ..), _
  | (_, .tick ..), _ => inferInstanceAs (Decidable True)

/-- The attempt of an agent that posts one result ends with it, whatever the platform does next. -/
theorem result_ends_once : ∃ db db',
    (dbMachine plainGuards).run (atZero startPlain) Db.empty = some db
    ∧ (dbMachine plainGuards).run [giveUp] (db.commit plainGuards (fun _ => 5) postResult)
      = some db'
    ∧ ∃ d c, db'.getRun 0 = some d ∧ d.getAttempt 1 = some c ∧ c.state = .exited
      ∧ c.endedAt = some 5 := by
  have hmeets : (dbMachine plainGuards).Meets Db.FirstResult
      (atZero startPlain ++ (fun _ => 5, postResult) :: [giveUp]) Db.empty := by decide
  obtain ⟨db, h, d, hd, a, ha, hopen, d', hd', b, hb, hended⟩ : ∃ db,
      (dbMachine plainGuards).run (atZero startPlain) Db.empty = some db
      ∧ ∃ d, db.getRun 0 = some d ∧ ∃ a, d.getAttempt 1 = some a ∧ a.endedAt = none
      ∧ ∃ d', (db.commit plainGuards (fun _ => 5) postResult).getRun 0 = some d'
      ∧ ∃ b, d'.getAttempt 1 = some b ∧ b.endedAt = some 5 :=
    ⟨_, rfl, _, rfl, _, rfl, rfl, _, rfl, _, rfl, rfl⟩
  obtain ⟨d₁, d₂, hd₁, hd₂, -, hends⟩ := attempts_end_once hmeets h rfl hd
  obtain rfl := some.inj (hd'.symm.trans hd₁)
  obtain ⟨hstate, c, hc, hsame⟩ := hends 1 b hb (by rw [hended]; rfl) fun a' ha' => by
    rw [← some.inj (ha.symm.trans ha'), hopen]
  refine ⟨db, _, h, rfl, d₂, c, hd₂, hc, ?_, hsame.1.trans hended⟩
  exact hsame.2.1.trans (some.inj hstate)

end Crewquarters
