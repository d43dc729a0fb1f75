import Crewquarters.Proofs.Database

/-!
# The attempt rows

A run has rows for attempts up to its current one only, none for the current one while it is queued,
and a row that has ended belongs to an earlier attempt or a finished run (`AttemptsSound`). So the
failure of an active run always finds its attempt still open.
-/

namespace Crewquarters

open Table Option
open RunState (terminalStates)

variable {s t : Session} {n : ℕ} {a b : RunAttempt} {clk : Clock}

theorem getAttempt_attempt (h : s.getAttempt n = some a) : a.attempt = n := get_key h

theorem getAttempt_putAttempt {m : ℕ} (h : s.getAttempt m = some b)
    (ha : a.attempt = b.attempt) :
    (s.putAttempt a).getAttempt n = if n = m then some a else s.getAttempt n := by
  have hm : a.attempt = m := ha.trans (getAttempt_attempt h)
  subst hm
  unfold RunData.getAttempt Session.putAttempt at *
  split_ifs with hn
  · rw [hn]
    exact get_put_self h
  · exact get_put_of_ne fun he => hn he.symm

theorem getAttempt_addAttempt {m : ℕ} (h : s.getAttempt m = none) (ha : a.attempt = m) :
    (s.addAttempt a).getAttempt n = if n = m then some a else s.getAttempt n := by
  subst ha
  unfold RunData.getAttempt Session.addAttempt at *
  split_ifs with hn
  · rw [hn]
    exact get_append_self h
  · exact get_append_of_ne fun he => hn he.symm

theorem getAttempt_congr (h : t.attempts = s.attempts) : t.getAttempt n = s.getAttempt n := by
  unfold RunData.getAttempt
  rw [h]

theorem beginAttempt_getAttempt {hb : ℕ} (h : beginAttempt clk hb s = .ok (a, t)) :
    t.getAttempt n = if n = s.run.currentAttempt then some a else s.getAttempt n := by
  have hp : ∀ m, (prepared (clk 0) s).getAttempt m = s.getAttempt m := fun m =>
    getAttempt_congr (prepared_attempts ..)
  obtain ⟨hsome, rfl⟩ | ⟨hnone, rfl, rfl⟩ := beginAttempt_cases h
  · rw [hp]
    split_ifs with hn
    · rw [hn, hsome]
    · rfl
  · rw [getAttempt_addAttempt ((hp _).trans hnone) rfl, hp]

/-- No attempt is ahead of the current one, which has no row while the run is queued and does not
end before the run. -/
structure AttemptsSound (d : RunData) : Prop where
  le : ∀ n a, d.getAttempt n = some a → n ≤ d.run.currentAttempt
  queued : d.run.state = .queued → d.getAttempt d.run.currentAttempt = none
  ended : ∀ a, d.getAttempt d.run.currentAttempt = some a → a.endedAt.isSome →
    d.run.state ∈ terminalStates

namespace AttemptsSound

theorem open_ {d : RunData} (h : AttemptsSound d) (ha : d.getAttempt d.run.currentAttempt = some a)
    (hs : d.run.state ∉ terminalStates) : a.endedAt = none := by
  rw [← not_isSome_iff_eq_none]
  exact fun he => hs (h.ended a ha he)

section

variable (h : AttemptsSound s.toRunData)
include h

theorem congr (hatt : t.attempts = s.attempts) (hstate : t.run.state = s.run.state)
    (hcur : t.run.currentAttempt = s.run.currentAttempt) : AttemptsSound t.toRunData := by
  refine ⟨fun n a ha => ?_, fun hq => ?_, fun a ha he => ?_⟩
  · rw [hcur]
    exact h.le n a (getAttempt_congr hatt ▸ ha)
  · rw [hcur, getAttempt_congr hatt]
    exact h.queued (hstate ▸ hq)
  · rw [hcur, getAttempt_congr hatt] at ha
    rw [hstate]
    exact h.ended a ha he

theorem move (hatt : t.attempts = s.attempts) (hcur : t.run.currentAttempt = s.run.currentAttempt)
    (hq : t.run.state ≠ .queued) (hs : s.run.state ∉ terminalStates) :
    AttemptsSound t.toRunData := by
  refine ⟨fun n a ha => ?_, fun hq' => absurd hq' hq, fun a ha he => ?_⟩
  · rw [hcur]
    exact h.le n a (getAttempt_congr hatt ▸ ha)
  · rw [hcur, getAttempt_congr hatt] at ha
    rw [h.open_ ha hs] at he
    simp at he

theorem put {m : ℕ} (hb : s.getAttempt m = some b) (ha : a.attempt = b.attempt)
    (he : a.endedAt.isSome → b.endedAt.isSome ∨ s.run.state ∈ terminalStates) :
    AttemptsSound (s.putAttempt a).toRunData := by
  refine ⟨fun n c hc => ?_, fun hq => ?_, fun c hc hce => ?_⟩
  · rw [getAttempt_putAttempt hb ha] at hc
    split_ifs at hc with hn
    · exact hn ▸ h.le _ b hb
    · exact h.le n c hc
  · have hnone := h.queued hq
    rw [putAttempt_run, getAttempt_putAttempt hb ha, if_neg]
    · exact hnone
    · intro hn
      rw [hn, hb] at hnone
      cases hnone
  · rw [putAttempt_run] at hc ⊢
    rw [getAttempt_putAttempt hb ha] at hc
    split_ifs at hc with hn
    · simp only [some.injEq] at hc
      subst hc
      rcases he hce with he | he
      · exact h.ended b (hn ▸ hb) he
      · exact he
    · exact h.ended c hc hce

theorem finished (hrows : t.attempts.map (·.attempt) = s.attempts.map (·.attempt))
    (hcur : t.run.currentAttempt = s.run.currentAttempt)
    (hterm : t.run.state ∈ terminalStates) : AttemptsSound t.toRunData := by
  refine ⟨fun n a ha => ?_, fun hq => ?_, fun _ _ _ => hterm⟩
  · have hsome : (t.getAttempt n).isSome := by rw [ha]; rfl
    have hmem : n ∈ s.attempts.map (·.attempt) := hrows ▸ isSome_get.1 hsome
    obtain ⟨b, hb⟩ := isSome_iff_exists.1 (isSome_get.2 hmem)
    exact hcur ▸ h.le n b hb
  · rw [hq] at hterm
    exact absurd hterm (by decide)

theorem wait (now : Time) (key : String) : AttemptsSound (waited now key s).toRunData := by
  unfold waited
  split_ifs with hr
  · exact h.move rfl (by simp) (by simp) (by simp [hr, terminalStates])
  · exact h

theorem resume (now : Time) : AttemptsSound (resumed now s).toRunData := by
  unfold resumed
  split_ifs with hw
  · exact h.move rfl (by simp) (by simp) (by simp [hw.1, terminalStates])
  · exact h

theorem fail {code message : String} {retryable interrupted : Bool}
    {details : List (String × Json)}
    (hs : failRun clk code message retryable interrupted details s = .ok t) :
    AttemptsSound t.toRunData := by
  rcases failRun_cases hs with rfl | ⟨-, rfl⟩
  · exact h
  · refine h.finished ?_ ?_ ?_
    · simp [failedRun, stopAttempt_attemptNos]
    · simp [failedRun]
    · cases interrupted <;> simp [failedRun, terminalStates]

theorem of_retry (hc : retry clk s = .ok t) : AttemptsSound t.toRunData := by
  obtain ⟨-, rfl⟩ := retry_cases hc
  -- no row has the new attempt's number
  have hnone : s.getAttempt (s.run.currentAttempt + 1) = none := by
    rw [eq_none_iff_forall_ne_some]
    intro a ha
    have := h.le _ a ha
    omega
  refine ⟨fun n a ha => ?_, fun _ => ?_, fun a ha => ?_⟩
  · have := h.le n a ha
    simp only [enqueue_toRunData, moved_currentAttempt, resetForRetry]
    omega
  · rw [enqueue_toRunData, moved_currentAttempt]
    exact hnone
  · rw [enqueue_toRunData, moved_currentAttempt] at ha
    have ha' : s.getAttempt (s.run.currentAttempt + 1) = some a := ha
    rw [hnone] at ha'
    cases ha'

theorem of_finish {G : Guards} {n : ℕ} {status : ResultStatus} {result error : Option Json}
    (hc : finish G clk n status result error s = .ok t) : AttemptsSound t.toRunData := by
  obtain ⟨-, ⟨hs, rfl⟩ | ⟨hs, rfl⟩ | ⟨-, target, payload, err, r, htarget, -, rfl⟩⟩ :=
    finish_cases hc
  · exact h.finished (exitAttempt_attemptNos ..) (by rw [exitAttempt_run])
      (by rw [exitAttempt_run]; exact hs)
  · exact h.finished (exitAttempt_attemptNos ..) (by simp [Session.setResult])
      (by simp [terminalStates])
  · refine h.finished ?_ ?_ ?_
    · simp [finishing_attempts, Session.setResult]
    · simp [finishing_currentAttempt, Session.setResult]
    · rcases htarget.target with rfl | rfl <;> simp [terminalStates]

theorem of_recordContainerExit {version : Option AgentVersion} {n : ℕ} {ref : RuntimeRef}
    {exitCode : Option ℤ} {oomKilled : Bool} {limit : Option ℕ} {r : Option String}
    (hc : recordContainerExit clk version n ref exitCode oomKilled limit s = .ok (r, t)) :
    AttemptsSound t.toRunData := by
  obtain rfl | ⟨a, ha, -, hc⟩ := recordContainerExit_cases hc
  · exact h
  · have hn : AttemptsSound (noteExit exitCode a s).toRunData := by
      unfold noteExit
      split_ifs
      · exact h.put ha rfl .inl
      · exact h
    obtain rfl | ⟨-, code, message, details, hf⟩ := hc
    · exact hn
    · exact hn.fail hf

end

theorem call {G : Guards} {c : RunCall} (hc : c.exec G clk s = .ok t)
    (h : AttemptsSound s.toRunData) : AttemptsSound t.toRunData := by
  cases c with
  | requestCancel =>
    rcases requestCancel_cases hc with rfl | ⟨-, rfl⟩ | ⟨hw, rfl⟩
    · exact h
    · exact h.finished (by simp [markCancel, Session.setJobs])
        (by simp [markCancel, Session.setJobs]) (by simp [terminalStates])
    · exact h.move (by simp [markCancel]) (by simp [markCancel]) (by simp) (not_terminal hw)
  | retry => exact h.of_retry hc
  | handshake =>
    obtain ⟨-, a, ha, ⟨hp, rfl⟩ | ⟨-, rfl⟩⟩ := handshake_cases hc
    · have hm : AttemptsSound (moved (clk 0) .running none none none s).toRunData :=
        h.move rfl (by simp) (by simp) (by simp [hp, terminalStates])
      exact hm.put ha rfl .inl
    · exact h.put ha rfl .inl
  | heartbeat =>
    obtain ⟨r, hc⟩ := dropResult_eq_ok.1 hc
    obtain ⟨-, rfl | ⟨a, ha, rfl⟩⟩ := heartbeat_cases hc
    · exact h
    · exact h.put ha rfl .inl
  | setModelLoading =>
    obtain ⟨-, rfl | ⟨reason, ⟨hs, rfl⟩ | ⟨hs, rfl⟩⟩⟩ := setModelLoading_cases hc
    · exact h
    · exact h.move rfl (by simp) (by simp) (by simp [hs, terminalStates])
    · exact h.move rfl (by simp) (by simp) (by simp [hs, terminalStates])
  | recordAgentEvent =>
    obtain ⟨-, -, -, rfl⟩ := recordAgentEvent_cases hc
    exact h.congr rfl rfl rfl
  | recordAgentEventBatch =>
    obtain ⟨r, hc⟩ := dropResult_eq_ok.1 hc
    obtain ⟨-, -, -, rfl⟩ := recordAgentEventBatch_cases hc
    exact h.congr rfl rfl rfl
  | finish => exact h.of_finish hc
  | failRun => exact h.fail hc
  | recordContainerExit =>
    obtain ⟨r, hc⟩ := dropResult_eq_ok.1 hc
    exact h.of_recordContainerExit hc
  | ask n key title =>
    obtain ⟨r, hc⟩ := dropResult_eq_ok.1 hc
    obtain ⟨-, -, hc⟩ := ask_cases hc
    obtain ⟨rfl, -⟩ | ⟨-, -, rfl⟩ | ⟨-, -, rfl⟩ | ⟨-, rfl⟩ := hc
    · exact h
    · exact h.wait _ _
    · have hr : AttemptsSound (appendEvent .inputRequested (askedPayload r.id key title)
          (s.putRequest r)).toRunData := h.congr rfl rfl rfl
      exact hr.wait _ _
    · have hr : AttemptsSound (appendEvent .inputRequested (askedPayload r.id key title)
          (s.addRequest r)).toRunData := h.congr rfl rfl rfl
      exact hr.wait _ _
  | answer id =>
    obtain ⟨r, hc⟩ := dropResult_eq_ok.1 hc
    obtain ⟨old, -, -, -, -, rfl⟩ := answer_cases hc
    have hr : AttemptsSound (appendEvent .inputAnswered (requestPayload r.id r.key .answered)
        (s.putRequest r)).toRunData := h.congr rfl rfl rfl
    exact hr.resume _
  | expireInputs now =>
    obtain ⟨k, hc⟩ := dropResult_eq_ok.1 hc
    obtain ⟨rfl, -⟩ | ⟨-, -, rfl⟩ := expireInputs_cases hc
    · exact h
    · obtain ⟨hrun, hatt, -⟩ := foldl_closeRequest_frame .expired
        ((pendingRequests s).filter fun r => r.deadline ≤ now) s
      exact resume (h.congr hatt (by rw [hrun]) (by rw [hrun])) _
  | claimAction =>
    obtain ⟨r, hc⟩ := dropResult_eq_ok.1 hc
    obtain ⟨actions, rfl⟩ := claimAction_frame hc
    exact h.congr rfl rfl rfl
  | completeAction =>
    obtain ⟨r, hc⟩ := dropResult_eq_ok.1 hc
    obtain ⟨actions, rfl⟩ := completeAction_frame hc
    exact h.congr rfl rfl rfl

theorem prepare (h : AttemptsSound s.toRunData) (now : Time) :
    AttemptsSound (prepared now s).toRunData := by
  unfold prepared
  split_ifs with hq
  · exact h.move rfl (by simp) (by simp) (by simp [hq, terminalStates])
  · exact h

theorem start {hb : ℕ} (h : AttemptsSound s.toRunData) (hs : beginAttempt clk hb s = .ok (a, t)) :
    AttemptsSound t.toRunData := by
  have hp := h.prepare (clk 0)
  have hrun := beginAttempt_run hs
  have hcur : t.run.currentAttempt = s.run.currentAttempt := by simp [hrun]
  refine ⟨fun n c hc => ?_, fun hq => ?_, fun c hc hce => ?_⟩
  · rw [beginAttempt_getAttempt hs] at hc
    rw [hcur]
    split_ifs at hc with hn
    · exact hn.le
    · exact h.le n c hc
  · rw [hrun] at hq
    exact absurd hq (prepared_not_queued (clk 0) s)
  · obtain ⟨hsome, rfl⟩ | ⟨-, rfl, -⟩ := beginAttempt_cases hs
    · exact hp.ended c hc hce
    · rw [hcur, beginAttempt_getAttempt hs, if_pos rfl, some.injEq] at hc
      rw [← hc] at hce
      simp [RunAttempt.starting] at hce

theorem worker {c : WorkerCall} (hc : c.exec clk s = .ok t) (h : AttemptsSound s.toRunData) :
    AttemptsSound t.toRunData := by
  cases c with
  | beginAttempt =>
    obtain ⟨a, hc⟩ := dropResult_eq_ok.1 (raising_eq_ok.1 hc)
    exact h.start hc
  | dispatchPrepare =>
    obtain ⟨spec, hc⟩ := dropResult_eq_ok.1 hc
    obtain ⟨-, rfl, -⟩ | ⟨a, u, -, -, hu, ⟨-, hf⟩ | ⟨-, -, rfl⟩ | ⟨-, sp, -, -, rfl⟩⟩ :=
      dispatchPrepare_cases hc
    · exact h
    · exact (h.start hu).fail hf
    · exact h.start hu
    · exact (h.start hu).put ((beginAttempt_getAttempt hu).trans (if_pos rfl)) rfl .inl
  | dispatchRecord =>
    obtain ⟨stop, hc⟩ := dropResult_eq_ok.1 hc
    obtain ⟨a, ha, -, ⟨-, hb, rfl⟩ | ⟨-, rfl⟩⟩ := dispatchRecord_cases hc
    · exact h.put ha rfl .inl
    · exact h
  | cancelFinish =>
    obtain ⟨late, hc⟩ := dropResult_eq_ok.1 hc
    obtain ⟨-, -, rfl⟩ | ⟨hs, -, -, rfl⟩ | ⟨hs, a, -, -, rfl⟩ := cancelFinish_cases hc
    · exact h
    · exact h.finished rfl (by simp) (by simp [terminalStates])
    · exact h.finished (map_key_put ..) (by simp) (by simp [terminalStates])
  | onDeadJob =>
    obtain ⟨rfl, -⟩ | ⟨-, hs, rfl⟩ | ⟨-, hs, rfl⟩ := onDeadJob_cases (raising_eq_ok.1 hc)
    · exact h
    · exact (h.prepare (clk 0)).fail (failRun_of_watched (prepared_watched hs))
    · exact h.finished rfl (by simp) (by simp [terminalStates])

end AttemptsSound

theorem attemptsSound_invariant (G : Guards) : RunInvariant G AttemptsSound where
  new := by
    intros
    refine ⟨fun n a ha => ?_, fun _ => rfl, fun a ha => ?_⟩
    · cases ha
    · cases ha
  call := AttemptsSound.call
  worker := AttemptsSound.worker

end Crewquarters
