import Crewquarters.Proofs.Log

/-!
# The journal of a run

The writes a run's row is made of, in the order the service makes them, with the tokens minted for
it (`JournalEntry`). What an operation does to a row is a list of such entries, each allowed where
it is written (`RowStep`), and the entries that change the state are those its events tell of
(`Writes`).
-/

namespace Crewquarters

open List

open RunState (canTransition)

variable {s t u : Session} {es es' : List JournalEntry} {reason : Option String}
  {error : Option Json} {target : RunState} {e : JournalEntry}

/-- A write to the row of a run. -/
inductive JournalEntry where
  | create (run : AgentRun)
  /-- the run goes on, or succeeds -/
  | enter (now : Time) (target : RunState)
  | fail (now : Time) (target : RunState) (error : Json) (retryable : Bool)
  /-- the end of a cancellation -/
  | stopped (now : Time) (error : Option Json)
  | cancel (asked now : Time) (target : RunState)
  | retry (now : Time)
  | result (result : Option Json)
  | mint (token : CapabilityClaims)

namespace JournalEntry

def change : JournalEntry → Option (RunState × Time)
  | .create run => some (.queued, run.stateEnteredAt)
  | .enter now target => some (target, now)
  | .fail now target _ _ => some (target, now)
  | .stopped now _ => some (.cancelled, now)
  | .cancel _ now target => some (target, now)
  | .retry now => some (.queued, now)
  | .result _ => none
  | .mint _ => none

def token : JournalEntry → Option CapabilityClaims
  | .mint token => some token
  | _ => none

def time : JournalEntry → Option Time
  | .mint token => some token.issuedAt
  | e => e.change.map Prod.snd

end JournalEntry

def AgentRun.reset (run : AgentRun) : AgentRun :=
  { run with
    currentAttempt := run.currentAttempt + 1
    result := none
    error := none
    retryable := false
    cancelRequestedAt := none
    acknowledgedAt := none
    activeSecondsUsed := 0
    inputWaitSecondsUsed := 0 }

/-- What each entry does to the row, and when it may. -/
inductive RowStep : AgentRun → JournalEntry → AgentRun → Prop where
  | enter {run now target} (can : canTransition run.state target = true)
      (kind : target ∈ [RunState.preparing, .running, .loadingModel, .waitingInput, .succeeded]) :
      RowStep run (.enter now target) (enter now target none none run)
  | fail {run now target error retryable} (can : canTransition run.state target = true)
      (kind : target = .failed ∨ target = .interrupted) :
      RowStep run (.fail now target error retryable)
        (enter now target (some error) (some retryable) run)
  | stopped {run now error} (source : run.state = .cancelling) :
      RowStep run (.stopped now error) (enter now .cancelled error none run)
  | cancel {run asked now target} (source : run.state = .queued ∧ target = .cancelled
        ∨ run.state ∈ RunState.watchedStates ∧ target = .cancelling) :
      RowStep run (.cancel asked now target)
        (enter now target none none { run with cancelRequestedAt := some asked })
  | retry {run now} (source : run.state = .failed ∨ run.state = .interrupted) :
      RowStep run (.retry now) (enter now .queued none none run.reset)
  | result {run result} : RowStep run (.result result) { run with result }
  | mint {run : AgentRun} {token : CapabilityClaims} (state : run.state = .preparing)
      (attempt : token.attempt = run.currentAttempt)
      (expiresAt : ∃ settings, token.expiresAt = token.issuedAt + tokenTtlSeconds run settings) :
      RowStep run (.mint token) run

def entered (events : List RunEvent) : List RunState :=
  events.filterMap fun e => match e.type, e.payload with
    | .stateChanged, .stateChanged _ target _ _ => some target
    | _, _ => none

/-- What was written between two readings of a run: the entries lead from one row to the other, the
log tells of the states they enter, and the tokens are those minted. -/
structure Writes (tokens : List CapabilityClaims) (d d' : RunData) (entries : List JournalEntry) :
    Prop where
  path : Path RowStep d.run entries d'.run
  log : entered d'.events
    = entered d.events ++ (entries.filterMap JournalEntry.change).map Prod.fst
  tokens : entries.filterMap JournalEntry.token = tokens

/-- The times of the entries are readings of the clock, from the `i`th on and before the `j`th and
in their order, and none begins an attempt unless `retrying`. -/
structure Written (clk : Clock) (retrying : Prop) (i j : ℕ) (entries : List JournalEntry) :
    Prop where
  le : i ≤ j
  times : ∃ readings : List ℕ, readings.Pairwise (· ≤ ·) ∧ (∀ k ∈ readings, i ≤ k ∧ k < j)
    ∧ entries.filterMap JournalEntry.time = readings.map clk
  retries : ∀ now, .retry now ∈ entries → retrying

def InOrder (entries : List JournalEntry) : Prop :=
  (entries.filterMap JournalEntry.time).Pairwise (· ≤ ·)

/-- Something was written between the `i`th and the `j`th reading, and no token minted. -/
def Wrote (clk : Clock) (retrying : Prop) (i j : ℕ) (d d' : RunData) : Prop :=
  ∃ entries, Writes [] d d' entries ∧ Written clk retrying i j entries

variable {clk : Clock} {retrying : Prop} {i j k : ℕ}

theorem inOrder_append : InOrder (es ++ es') ↔ InOrder es ∧ InOrder es'
    ∧ ∀ now ∈ es.filterMap JournalEntry.time, ∀ now' ∈ es'.filterMap JournalEntry.time,
      now ≤ now' := by
  rw [InOrder, filterMap_append]
  exact pairwise_append

theorem InOrder.left (h : InOrder (es ++ es')) : InOrder es :=
  (inOrder_append.1 h).1

namespace Written

variable {es es' : List JournalEntry}

theorem nil (h : i ≤ j) : Written clk retrying i j [] := ⟨h, ⟨[], .nil, by simp, rfl⟩, by simp⟩

/-- Entries written one after the other: the readings of the second begin where the last of the
first was, or later. -/
theorem join {i' : ℕ} (h : Written clk retrying i j es) (h' : Written clk retrying i' k es')
    (hi : i ≤ i') (hj : j ≤ i' + 1) : Written clk retrying i (max j k) (es ++ es') := by
  obtain ⟨hij, ⟨ks, hks, hbound, htimes⟩, hretry⟩ := h
  obtain ⟨-, ⟨ks', hks', hbound', htimes'⟩, hretry'⟩ := h'
  refine ⟨by omega, ⟨ks ++ ks', ?_, fun m hm => ?_, ?_⟩, fun now hmem => ?_⟩
  · refine pairwise_append.2 ⟨hks, hks', fun m hm m' hm' => ?_⟩
    have := hbound m hm
    have := hbound' m' hm'
    omega
  · rcases mem_append.1 hm with hm | hm
    · have := hbound m hm
      omega
    · have := hbound' m hm
      omega
  · rw [filterMap_append, map_append, htimes, htimes']
  · exact (mem_append.1 hmem).elim (hretry now) (hretry' now)

theorem append (h : Written clk retrying i j es) (h' : Written clk retrying j k es') :
    Written clk retrying i k (es ++ es') :=
  max_eq_right h'.le ▸ h.join h' h.le (Nat.le_succ j)

theorem widen (h : Written clk retrying i j es) (hk : j ≤ k) : Written clk retrying i k es := by
  simpa using h.append (nil hk)

theorem mono {retrying' : Prop} (h : Written clk retrying i j es) (hr : retrying → retrying') :
    Written clk retrying' i j es :=
  { h with retries := fun now hmem => hr (h.retries now hmem) }

theorem shift (h : Written (fun m => clk (m + k)) retrying i j es) :
    Written clk retrying (i + k) (j + k) es := by
  obtain ⟨hij, ⟨ks, hks, hbound, htimes⟩, hretry⟩ := h
  refine ⟨by omega, ⟨ks.map (· + k), ?_, fun m hm => ?_, ?_⟩, hretry⟩
  · exact hks.map _ fun _ _ h => Nat.add_le_add_right h k
  · obtain ⟨m, hmem, rfl⟩ := mem_map.1 hm
    have := hbound m hmem
    omega
  · rw [htimes, map_map]
    rfl

theorem single (htime : e.time = some (clk i)) (hretry : ∀ now, e = .retry now → retrying) :
    Written clk retrying i (i + 1) [e] where
  le := by omega
  times := ⟨[i], pairwise_singleton .., by simp, by simp [htime]⟩
  retries now h := hretry now (mem_singleton.1 h).symm

theorem timeless (htime : e.time = none) : Written clk retrying i i [e] where
  le := le_rfl
  times := ⟨[], .nil, by simp, by simp [htime]⟩
  retries now h := by
    rw [← mem_singleton.1 h] at htime
    cases htime

theorem mem_range (h : Written clk retrying i j es) {now : Time}
    (hmem : now ∈ es.filterMap JournalEntry.time) : now ∈ Set.range clk := by
  obtain ⟨ks, -, -, htimes⟩ := h.times
  rw [htimes] at hmem
  obtain ⟨m, -, rfl⟩ := mem_map.1 hmem
  exact ⟨m, rfl⟩

theorem inOrder (h : Written clk retrying i j es) (hclk : Monotone clk) : InOrder es := by
  obtain ⟨ks, hks, -, htimes⟩ := h.times
  rw [InOrder, htimes]
  exact hks.map _ fun _ _ h => hclk h

end Written

theorem Writes.trans {tokens tokens' : List CapabilityClaims} {d d' d'' : RunData}
    (h : Writes tokens d d' es) (h' : Writes tokens' d' d'' es') :
    Writes (tokens ++ tokens') d d'' (es ++ es') where
  path := path_append.2 ⟨_, h.path, h'.path⟩
  log := by
    rw [h'.log, h.log, filterMap_append, map_append, append_assoc]
  tokens := by
    rw [filterMap_append, h.tokens, h'.tokens]

theorem entered_append (xs ys : List RunEvent) : entered (xs ++ ys) = entered xs ++ entered ys :=
  filterMap_append ..

namespace Wrote

variable {d d' d'' : RunData}

theorem of_eq (hrun : d'.run = d.run) (hlog : entered d'.events = entered d.events) :
    Wrote clk retrying i i d d' :=
  ⟨[], ⟨hrun.symm, by simp [hlog], rfl⟩, .nil le_rfl⟩

theorem refl : Wrote clk retrying i i d d := of_eq rfl rfl

theorem trans (h : Wrote clk retrying i j d d') (h' : Wrote clk retrying j k d' d'') :
    Wrote clk retrying i k d d'' := by
  obtain ⟨es, hes, hwritten⟩ := h
  obtain ⟨es', hes', hwritten'⟩ := h'
  exact ⟨es ++ es', hes.trans hes', hwritten.append hwritten'⟩

theorem widen (h : Wrote clk retrying i j d d') (hk : j ≤ k) : Wrote clk retrying i k d d' :=
  h.imp fun _ hes => ⟨hes.1, hes.2.widen hk⟩

theorem again (h : Wrote clk retrying 0 i d d') (hi : i ≤ 1) (h' : Wrote clk retrying 0 j d' d'') :
    Wrote clk retrying 0 (max i j) d d'' := by
  obtain ⟨es, hes, hwritten⟩ := h
  obtain ⟨es', hes', hwritten'⟩ := h'
  exact ⟨es ++ es', hes.trans hes', hwritten.join hwritten' le_rfl hi⟩

theorem shift (h : Wrote (fun m => clk (m + k)) retrying i j d d') :
    Wrote clk retrying (i + k) (j + k) d d' :=
  h.imp fun _ hes => ⟨hes.1, hes.2.shift⟩

theorem single {retryable : Option Bool}
    (hstep : RowStep d.run e (enter (clk i) target error retryable s.run))
    (hchange : e.change = some (target, clk i)) (htoken : e.token = none)
    (hretry : ∀ now, e = .retry now → retrying) (hevents : entered d.events = entered s.events) :
    Wrote clk retrying i (i + 1) d (moved (clk i) target reason error retryable s).toRunData := by
  have htime : e.time = some (clk i) := by
    cases e <;> first | exact congrArg (Option.map Prod.snd) hchange | cases htoken
  refine ⟨[e], ⟨⟨_, hstep, rfl⟩, ?_, by simp [htoken]⟩, .single htime hretry⟩
  have hevent : entered (moved (clk i) target reason error retryable s).events
      = entered s.events ++ [target] := entered_append ..
  simp [hevent, hevents, hchange]

theorem event {type : EventType} {payload : Payload} (h : type ≠ .stateChanged) :
    Wrote clk retrying i i s.toRunData (appendEvent type payload s).toRunData := by
  refine of_eq rfl ?_
  have hnone : entered [⟨lastSequence s + 1, s.run.currentAttempt, type, payload, none, none⟩]
      = [] := by
    cases type <;> first | exact absurd rfl h | rfl
  have hevent := entered_append s.events
    [⟨lastSequence s + 1, s.run.currentAttempt, type, payload, none, none⟩]
  rw [hnone, append_nil] at hevent
  exact hevent

theorem attempt (a : RunAttempt) : Wrote clk retrying i i s.toRunData (s.putAttempt a).toRunData :=
  of_eq rfl rfl

theorem request (r : InputRequest) :
    Wrote clk retrying i i s.toRunData (s.putRequest r).toRunData :=
  of_eq rfl rfl

theorem newRequest (r : InputRequest) :
    Wrote clk retrying i i s.toRunData (s.addRequest r).toRunData :=
  of_eq rfl rfl

theorem closeRequests (state : RequestState) :
    ∀ (l : List InputRequest) (s : Session),
      Wrote clk retrying i i s.toRunData (l.foldl (closeRequest state) s).toRunData
  | [], _ => refl
  | r :: l, s => ((request _).trans (event (by decide))).trans (closeRequests state l _)

theorem closeInputs (state : RequestState) :
    Wrote clk retrying i i s.toRunData (closePendingInputs state s).toRunData :=
  closeRequests state _ s

theorem exit (now : Time) (n : ℕ) :
    Wrote clk retrying i i s.toRunData (exitAttempt now n s).toRunData := by
  unfold exitAttempt
  split <;> exact of_eq rfl rfl

theorem noteExit (code : Option ℤ) (a : RunAttempt) :
    Wrote clk retrying i i s.toRunData (noteExit code a s).toRunData := by
  unfold Crewquarters.noteExit
  split_ifs <;> exact of_eq rfl rfl

theorem stop (clk' : Clock) (interrupted : Bool) (error : Json) :
    Wrote clk retrying i i s.toRunData (stopAttempt clk' interrupted error s).toRunData := by
  simp only [stopAttempt]
  split
  · exact refl
  · split
    · exact refl
    · split <;> exact of_eq rfl rfl

end Wrote

namespace Wrote

theorem move (can : canTransition s.run.state target = true)
    (htarget : target ∈ [RunState.preparing, .running, .loadingModel, .waitingInput, .succeeded]) :
    Wrote clk retrying i (i + 1) s.toRunData
      (moved (clk i) target reason none none s).toRunData :=
  single (.enter can htarget) rfl rfl nofun rfl

theorem prepare (i : ℕ) :
    Wrote clk retrying i (i + 1) s.toRunData (prepared (clk i) s).toRunData := by
  unfold prepared
  split_ifs with hq
  · exact move (by rw [hq]; rfl) (by decide)
  · exact refl.widen (Nat.le_succ i)

theorem wait (i : ℕ) (key : String) :
    Wrote clk retrying i (i + 1) s.toRunData (waited (clk i) key s).toRunData := by
  unfold waited
  split_ifs with hr
  · exact move (by rw [hr]; rfl) (by decide)
  · exact refl.widen (Nat.le_succ i)

theorem resume (i : ℕ) :
    Wrote clk retrying i (i + 1) s.toRunData (resumed (clk i) s).toRunData := by
  unfold resumed
  split_ifs with hw
  · exact move (by rw [hw.1]; rfl) (by decide)
  · exact refl.widen (Nat.le_succ i)

theorem finish (i : ℕ) :
    Wrote clk retrying i (i + 1) s.toRunData (finishing (clk i) s).toRunData := by
  unfold finishing
  split_ifs with hs
  · exact move (by rcases hs with hs | hs <;> rw [hs] <;> rfl) (by decide)
  · exact refl.widen (Nat.le_succ i)

theorem setResult (result : Option Json) :
    Wrote clk retrying i i s.toRunData (s.setResult result).toRunData :=
  ⟨[.result result], ⟨⟨_, .result, rfl⟩, by simp [JournalEntry.change, Session.setResult], rfl⟩,
    .timeless rfl⟩

theorem stopped (hs : s.run.state = .cancelling) :
    Wrote clk retrying i (i + 1) s.toRunData
      (moved (clk i) .cancelled reason error none s).toRunData :=
  single (.stopped hs) rfl rfl nofun rfl

theorem ends {retryable : Option Bool} (h : EndsWith target error retryable)
    (can : canTransition s.run.state target = true) :
    Wrote clk retrying i (i + 1) s.toRunData
      (moved (clk i) target none error retryable s).toRunData := by
  cases h with
  | succeeded => exact move can (by decide)
  | failed => exact single (.fail can (.inl rfl)) rfl rfl nofun rfl

theorem fail {code message : String} {retryable interrupted : Bool}
    {details : List (String × Json)}
    (h : failRun clk code message retryable interrupted details s = .ok t) :
    Wrote clk retrying 0 1 s.toRunData t.toRunData := by
  rcases failRun_cases h with rfl | ⟨hw, rfl⟩
  · exact refl.widen (Nat.le_succ 0)
  · have herror : Wrote clk retrying 0 0 s.toRunData (appendEvent .error
        (.value (failureJson code message retryable details)) s).toRunData := event (by decide)
    refine herror.trans (trans ?_ ((stop _ interrupted _).trans (closeInputs _)))
    refine single (.fail (can_fail hw) ?_) rfl rfl nofun rfl
    cases interrupted
    · exact .inl rfl
    · exact .inr rfl

theorem failAfter {code message : String} {retryable interrupted : Bool}
    {details : List (String × Json)}
    (h : failRun (fun i => clk (i + k)) code message retryable interrupted details s = .ok t) :
    Wrote clk retrying 0 (1 + k) s.toRunData t.toRunData := by
  have hskip : Wrote clk retrying 0 (0 + k) s.toRunData s.toRunData := refl.widen (Nat.zero_le _)
  exact hskip.trans (fail h).shift

end Wrote

theorem RunCall.wrote {G : Guards} {c : RunCall} (hc : c.exec G clk s = .ok t) :
    ∃ n, Wrote clk (c = .retry) 0 n s.toRunData t.toRunData := by
  cases c with
  | requestCancel =>
    rcases requestCancel_cases hc with rfl | ⟨hq, rfl⟩ | ⟨hw, rfl⟩
    · exact ⟨0, .refl⟩
    · refine ⟨3, Wrote.trans (.widen .refl (Nat.zero_le 2)) (Wrote.trans ?_ (.closeInputs _))⟩
      exact .single (e := .cancel (clk 0) (clk 2) .cancelled) (.cancel (.inl ⟨hq, rfl⟩)) rfl rfl
        nofun rfl
    · refine ⟨2, Wrote.trans (.widen .refl (Nat.zero_le 1)) (Wrote.trans ?_ (.closeInputs _))⟩
      exact .single (e := .cancel (clk 0) (clk 1) .cancelling) (.cancel (.inr ⟨hw, rfl⟩)) rfl rfl
        nofun rfl
  | retry =>
    obtain ⟨hf, rfl⟩ := retry_cases hc
    exact ⟨1, .single (e := .retry (clk 0)) (.retry hf) rfl rfl (fun _ _ => rfl) rfl⟩
  | handshake =>
    obtain ⟨-, a, -, ⟨hp, rfl⟩ | ⟨-, rfl⟩⟩ := handshake_cases hc
    · exact ⟨1, (Wrote.move (by rw [hp]; rfl) (by decide)).trans (.attempt _)⟩
    · exact ⟨0, .attempt _⟩
  | heartbeat =>
    obtain ⟨r, hc⟩ := dropResult_eq_ok.1 hc
    obtain ⟨-, rfl | ⟨a, -, rfl⟩⟩ := heartbeat_cases hc
    · exact ⟨0, .refl⟩
    · exact ⟨0, .attempt _⟩
  | setModelLoading =>
    obtain ⟨-, rfl | ⟨reason, ⟨hs, rfl⟩ | ⟨hs, rfl⟩⟩⟩ := setModelLoading_cases hc
    · exact ⟨0, .refl⟩
    · exact ⟨1, .move (by rw [hs]; rfl) (by decide)⟩
    · exact ⟨1, .move (by rw [hs]; rfl) (by decide)⟩
  | recordAgentEvent =>
    obtain ⟨htype, -, -, rfl⟩ := recordAgentEvent_cases hc
    exact ⟨0, .event (ne_of_agentEvent htype).1⟩
  | recordAgentEventBatch validator n events =>
    obtain ⟨r, hc⟩ := dropResult_eq_ok.1 hc
    obtain ⟨-, -, hevents, rfl⟩ := recordAgentEventBatch_cases hc
    refine ⟨0, .of_eq rfl ?_⟩
    have hnone : entered (batchRows G events s) = [] := by
      refine filterMap_eq_nil_iff.2 fun e he => ?_
      have hne := (ne_of_agentEvent ((batchRows_spec hevents).2.2 e he)).1
      split
      · exact absurd ‹_› hne
      · rfl
    rw [entered_append, hnone, append_nil]
  | finish n status result error =>
    obtain ⟨-, ⟨-, rfl⟩ | ⟨hs, rfl⟩ | ⟨-, target, st, err, r, hends, hcan, rfl⟩⟩ := finish_cases hc
    · exact ⟨0, .exit ..⟩
    · refine ⟨2, Wrote.trans ((Wrote.exit (clk 0) n).trans ((Wrote.setResult result).widen
        (Nat.zero_le 1))) (.stopped ?_)⟩
      rw [setResult_state, exitAttempt_run, hs]
    · have hset : Wrote clk (RunCall.finish n status result error = .retry) 0 1 s.toRunData
          ((exitAttempt (clk 0) n s).setResult result).toRunData :=
        ((Wrote.exit (clk 0) n).trans (.setResult result)).widen (Nat.zero_le 1)
      refine ⟨3, (hset.trans (.finish 1)).trans (Wrote.trans (.event (by decide))
        ((Wrote.ends hends ?_).trans (.closeInputs _)))⟩
      exact hcan
  | failRun => exact ⟨1, .fail hc⟩
  | recordContainerExit =>
    obtain ⟨r, hc⟩ := dropResult_eq_ok.1 hc
    obtain rfl | ⟨a, -, -, rfl | ⟨-, code, message, details, hf⟩⟩ := recordContainerExit_cases hc
    · exact ⟨0, .refl⟩
    · exact ⟨0, .noteExit _ _⟩
    · exact ⟨1, (Wrote.noteExit _ _).trans (.fail hf)⟩
  | ask n key =>
    obtain ⟨r, hc⟩ := dropResult_eq_ok.1 hc
    obtain ⟨-, -, ⟨rfl, -⟩ | ⟨-, -, rfl⟩ | ⟨-, -, rfl⟩ | ⟨-, rfl⟩⟩ := ask_cases hc
    · exact ⟨0, .refl⟩
    · exact ⟨1, .wait 0 key⟩
    · exact ⟨2, ((Wrote.request r).widen (Nat.zero_le 1)).trans
        (Wrote.trans (.event (by decide)) (.wait 1 key))⟩
    · exact ⟨2, ((Wrote.newRequest r).widen (Nat.zero_le 1)).trans
        (Wrote.trans (.event (by decide)) (.wait 1 key))⟩
  | answer =>
    obtain ⟨r, hc⟩ := dropResult_eq_ok.1 hc
    obtain ⟨old, -, -, -, -, rfl⟩ := answer_cases hc
    exact ⟨3, ((Wrote.request r).widen (Nat.zero_le 2)).trans
      (Wrote.trans (.event (by decide)) (.resume 2))⟩
  | expireInputs =>
    obtain ⟨r, hc⟩ := dropResult_eq_ok.1 hc
    obtain ⟨rfl, -⟩ | ⟨-, -, rfl⟩ := expireInputs_cases hc
    · exact ⟨0, .refl⟩
    · exact ⟨1, (Wrote.closeRequests .expired _ s).trans (.resume 0)⟩
  | claimAction =>
    obtain ⟨r, hc⟩ := dropResult_eq_ok.1 hc
    obtain ⟨actions, rfl⟩ := claimAction_frame hc
    exact ⟨0, .of_eq rfl rfl⟩
  | completeAction =>
    obtain ⟨r, hc⟩ := dropResult_eq_ok.1 hc
    obtain ⟨actions, rfl⟩ := completeAction_frame hc
    exact ⟨0, .of_eq rfl rfl⟩

def WorkerCall.minted (clk : Clock) (s : Session) : WorkerCall → Option CapabilityClaims
  | .dispatchPrepare settings catalog n =>
    match Crewquarters.dispatchPrepare settings catalog clk n s with
    | .ok (some spec, _) => some spec.token
    | _ => none
  | _ => none

theorem dispatchPrepare_lifetime {settings : Settings} {catalog : Catalog} {n : ℕ} {spec : RunSpec}
    (h : dispatchPrepare settings catalog clk n s = .ok (some spec, t)) :
    spec.token.issuedAt = clk 2
      ∧ spec.token.expiresAt = clk 2 + tokenTtlSeconds (prepared (clk 0) s).run settings := by
  simp only [dispatchPrepare] at h
  split_ifs at h
  · simp at h
  · split at h
    · obtain ⟨⟨a, u⟩, hu, h⟩ := bind_eq_ok.1 h
      have hrun := beginAttempt_run (raising_eq_ok.1 hu)
      simp only at h
      split_ifs at h
      · obtain ⟨v, -, h⟩ := bind_eq_ok.1 h
        simp at h
      · simp at h
      · simp only [Except.ok.injEq, Prod.mk.injEq, Option.some.injEq] at h
        obtain ⟨rfl, -⟩ := h
        exact ⟨rfl, by rw [← hrun]; rfl⟩
    · cases h

theorem Wrote.start {hb : ℕ} {a : RunAttempt} (h : beginAttempt clk hb s = .ok (a, t)) :
    Wrote clk retrying 0 1 s.toRunData t.toRunData := by
  obtain ⟨-, rfl⟩ | ⟨-, -, rfl⟩ := beginAttempt_cases h
  · exact .prepare 0
  · exact (Wrote.prepare 0).trans (.of_eq rfl rfl)

theorem WorkerCall.wrote {c : WorkerCall} (hc : c.exec clk s = .ok t) :
    ∃ n entries, Writes (c.minted clk s).toList s.toRunData t.toRunData entries
      ∧ Written clk False 0 n entries := by
  cases c with
  | beginAttempt =>
    obtain ⟨a, hc⟩ := dropResult_eq_ok.1 (raising_eq_ok.1 hc)
    exact ⟨1, Wrote.start hc⟩
  | dispatchPrepare settings catalog n =>
    obtain ⟨spec, hc⟩ := dropResult_eq_ok.1 hc
    have hminted : WorkerCall.minted clk s (.dispatchPrepare settings catalog n)
        = spec.map RunSpec.token := by
      simp only [WorkerCall.minted, hc]
      cases spec <;> rfl
    rw [hminted]
    obtain ⟨rfl, rfl, -⟩ | ⟨a, u, hn, hstate, hu, ⟨rfl, hf⟩ | ⟨rfl, -, rfl⟩ |
      ⟨-, sp, rfl, hm, rfl⟩⟩ := dispatchPrepare_cases hc
    · exact ⟨0, Wrote.refl⟩
    · exact ⟨3, ((Wrote.start hu).widen (Nat.le_succ 1)).trans (Wrote.fail hf).shift⟩
    · exact ⟨1, Wrote.start hu⟩
    · -- the row is `preparing` when the token is minted
      obtain ⟨hissued, hexpires⟩ := dispatchPrepare_lifetime hc
      obtain ⟨es, hes, hwritten⟩ : Wrote clk False 0 2 s.toRunData u.toRunData :=
        (Wrote.start hu).widen (Nat.le_succ 1)
      have hrun := beginAttempt_run hu
      have hmint : RowStep u.run (.mint sp.token) u.run := by
        refine .mint ?_ ?_ ⟨settings, ?_⟩
        · rw [hrun]
          unfold prepared
          rcases hstate with h | h <;> simp [h]
        · rw [hm.tokenAttempt, hrun, prepared_currentAttempt, hn]
        · rw [hexpires, hissued, hrun]
      have hwrites : Writes [sp.token] u.toRunData
          ((u.putAttempt { a with capabilityTokenId := some sp.token.tokenId }).takeUuid).toRunData
          [.mint sp.token] := ⟨⟨_, hmint, rfl⟩, (append_nil _).symm, rfl⟩
      refine ⟨3, es ++ [.mint sp.token], hes.trans hwrites, hwritten.append (.single ?_ nofun)⟩
      exact congrArg some hissued
  | dispatchRecord =>
    obtain ⟨stop, hc⟩ := dropResult_eq_ok.1 hc
    obtain ⟨a, -, -, ⟨-, hb, rfl⟩ | ⟨-, rfl⟩⟩ := dispatchRecord_cases hc
    · exact ⟨0, Wrote.attempt _⟩
    · exact ⟨0, Wrote.refl⟩
  | cancelFinish =>
    obtain ⟨late, hc⟩ := dropResult_eq_ok.1 hc
    obtain ⟨-, -, rfl⟩ | ⟨hs, -, -, rfl⟩ | ⟨hs, a, -, -, rfl⟩ := cancelFinish_cases hc
    · exact ⟨0, Wrote.refl⟩
    · exact ⟨1, Wrote.stopped hs⟩
    · exact ⟨2, ((Wrote.attempt _).widen (Nat.zero_le 1)).trans (Wrote.stopped hs)⟩
  | onDeadJob =>
    obtain ⟨rfl, -⟩ | ⟨-, hs, rfl⟩ | ⟨-, hs, rfl⟩ := onDeadJob_cases (raising_eq_ok.1 hc)
    · exact ⟨0, Wrote.refl⟩
    · exact ⟨2, (Wrote.prepare 0).trans
        (Wrote.fail (failRun_of_watched (prepared_watched hs))).shift⟩
    · exact ⟨1, Wrote.stopped hs⟩

end Crewquarters
