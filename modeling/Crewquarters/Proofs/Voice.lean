import Crewquarters.Voice

/-!
# One voice call at a time

`create` looks for a live session before it awaits the credentials and adds its own after, and
`accept_stream` looks at the session before the handshake and marks it connected after. Where
neither finds the service changed in between, at most one session is live.
-/

namespace Crewquarters

open Option List

namespace Voice

variable {settings : VoiceSettings} {now : Time} {s t : Voice} {a : VoiceAction}
  {v v' : VoiceSession} {m : MediaStream}
variable {id : ℕ} {raised : Option String}

def subject (s : Voice) : VoiceAction → Option VoiceSession
  | .dialed id _ => (Table.get VoiceCreate.id id s.creates).bind fun r => match r.phase with
    | .dialing session => s.session session
    | _ => none
  | .endCall session | .status session _ => s.listed session
  | .endCalled id => (Table.get VoiceEnd.id id s.ends).bind fun r => s.session r.session
  | .signed id _ | .broken id | .start id _ _ | .stopped id | .timeLimit id | .finished id _ =>
    (Table.get MediaStream.id id s.streams).bind fun m => s.session m.session
  | .create _ _ _ _ | .credentials _ _ _ | .connect _ => none

/-- What an action other than the handshake's and the conversation's end writes to a session. -/
inductive Wrote (now : Time) : VoiceAction → VoiceSession → VoiceSession → Prop where
  | unreachable {id : ℕ} {v : VoiceSession} :
      Wrote now (.dialed id .unreachable) v (v.finish now .failed "twilio_unreachable")
  | rejected {id statusCode v error} :
      Wrote now (.dialed id (.rejected statusCode)) v
        { v.finish now .failed "twilio_rejected" with error }
  | accepted {id v sid} : Wrote now (.dialed id (.accepted sid)) v { v with twilioSid := sid }
  | marked {session v} : Wrote now (.endCall session) v { v with hangup := true }
  | hungUp {a : VoiceAction} {v : VoiceSession} (hangup : Bool) :
      Wrote now a v (VoiceSession.hungUp now { v with hangup })
  | reported {session status v} (live : v.state.terminal = false) :
      Wrote now (.status session status) v (v.report now status)
  | stopped {id : ℕ} {v : VoiceSession} : Wrote now (.stopped id) v
      { v with endReason := v.endReason.or (some "caller_hung_up") }
  | timeLimit {id : ℕ} {v : VoiceSession} : Wrote now (.timeLimit id) v
      { v with endReason := some "time_limit" }

/-- Every way a step can go. -/
inductive Did (now : Time) (s : Voice) : VoiceAction → Voice → Prop where
  /-- sessions are dropped from `self.calls`, or nothing changes in the sessions and streams -/
  | kept {a : VoiceAction} {t : Voice} (sessions : t.sessions = s.sessions)
      (calls : t.calls ⊆ s.calls) (streams : t.streams = s.streams) : Did now s a t
  | added {a t u v}
      (quiet : u.active = false ∨ u = s ∧ ∃ id token, a = .credentials id none token)
      (before : u.sessions = s.sessions) (fresh : v.id = s.sessions.length)
      (live : v.state.terminal = false) (sessions : t.sessions = s.sessions ++ [v])
      (calls : t.calls = u.calls ++ [v.id]) (streams : t.streams = s.streams) : Did now s a t
  | wrote {a : VoiceAction} {t : Voice} {v v' : VoiceSession} (subject : s.subject a = some v)
      (session : s.session v.id = some v) (write : Wrote now a v v')
      (sessions : t.sessions = Table.put VoiceSession.id v' s.sessions) (calls : t.calls = s.calls)
      (streams : t.streams = s.streams) : Did now s a t
  | opened {a session phase} (idle : phase ≠ .running) : Did now s a (s.addStream session phase)
  | moved {a m phase} (stream : Table.get MediaStream.id m.id s.streams = some m)
      (idle : phase ≠ .running) : Did now s a (s.gotoStream m phase)
  | started {m v callSid} (stream : Table.get MediaStream.id m.id s.streams = some m)
      (session : s.session m.session = some v) :
      Did now s (.start m.id v.token callSid)
        ((s.setSession (v.connect now callSid)).gotoStream { m with admitted := true } .running)
  | finished {m : MediaStream} {v : VoiceSession} {raised : Option String}
      (stream : Table.get MediaStream.id m.id s.streams = some m) (running : m.phase = .running)
      (session : s.session m.session = some v) :
      Did now s (.finished m.id raised)
        ((s.setSession (v.disconnect now raised)).gotoStream m (.closed 1000))

theorem session_id (h : s.session id = some v) : v.id = id := Table.get_key h

theorem session_of_listed (h : s.listed id = some v) : id ∈ s.calls ∧ s.session id = some v :=
  ite_none_right_eq_some.1 h

theorem onStream_eq_some {phase : StreamPhase} {f : MediaStream → VoiceSession → Voice}
    (h : s.onStream id phase f = some t) :
    ∃ m v, m.id = id ∧ Table.get MediaStream.id m.id s.streams = some m ∧ m.phase = phase
      ∧ s.session m.session = some v ∧ f m v = t := by
  obtain ⟨m, hm, hthen⟩ := bind_eq_some_iff.1 h
  obtain ⟨hphase, hmap⟩ := ite_none_right_eq_some.1 hthen
  obtain ⟨v, hv, rfl⟩ := map_eq_some_iff.1 hmap
  obtain rfl := Table.get_key hm
  exact ⟨m, v, rfl, hm, hphase, hv, rfl⟩

theorem did_create {destination instructions token : String} {simulate : Bool} :
    s.Did now a (s.create settings now destination instructions simulate token) := by
  have hcalls : (s.expire now).calls ⊆ s.calls := filter_subset_self _
  unfold create
  dsimp only
  split_ifs with hlong hactive hsimulate
  · exact .kept rfl hcalls rfl
  · exact .kept rfl hcalls rfl
  · exact .added (u := s.expire now) (.inl (by simpa using hactive)) rfl rfl rfl rfl rfl rfl
  · split
    · exact .kept rfl hcalls rfl
    · exact .kept rfl hcalls rfl

theorem did_credentials {r : VoiceCreate} {missing : Option NoCredentials} {token : String} :
    s.Did now (.credentials id missing token) (s.credentials settings r missing token) := by
  unfold credentials
  split
  · exact .kept rfl (List.Subset.refl _) rfl
  · split_ifs
    · exact .kept rfl (List.Subset.refl _) rfl
    · exact .added (u := s) (.inr ⟨rfl, _, _, rfl⟩) rfl rfl rfl rfl rfl rfl

theorem did_dialed {r : VoiceCreate} {answer : VoiceDial}
    (hsubject : s.subject (.dialed id answer) = some v) (hv : s.session v.id = some v) :
    s.Did now (.dialed id answer) (s.dialed now r v answer) := by
  cases answer with
  | unreachable => exact .wrote hsubject hv .unreachable rfl rfl rfl
  | rejected => exact .wrote hsubject hv .rejected rfl rfl rfl
  | accepted => exact .wrote hsubject hv .accepted rfl rfl rfl

theorem did_of_step (h : (voiceService settings).step (now, a) s = some t) : s.Did now a t := by
  cases a with
  | create =>
    obtain rfl := some.inj h
    exact did_create
  | credentials =>
    obtain ⟨r, hr, hthen⟩ := bind_eq_some_iff.1 h
    split at hthen
    · obtain rfl := some.inj hthen
      exact did_credentials
    · exact absurd hthen nofun
  | dialed =>
    obtain ⟨r, hr, hthen⟩ := bind_eq_some_iff.1 h
    split at hthen
    · obtain ⟨v, hv, rfl⟩ := map_eq_some_iff.1 hthen
      refine did_dialed ?_ (session_id hv ▸ hv)
      simp only [subject, bind_some, *]
    · exact absurd hthen nofun
  | endCall =>
    obtain ⟨v, hv, rfl⟩ := map_eq_some_iff.1 h
    have hsession := (session_of_listed hv).2
    rw [← session_id hsession] at hsession
    unfold endCall
    dsimp only
    split_ifs
    · exact .wrote hv hsession .marked rfl rfl rfl
    · exact .wrote hv hsession (.hungUp true) rfl rfl rfl
  | endCalled =>
    obtain ⟨r, hr, hthen⟩ := bind_eq_some_iff.1 h
    split_ifs at hthen
    obtain ⟨v, hv, rfl⟩ := map_eq_some_iff.1 hthen
    refine .wrote ?_ (session_id hv ▸ hv) (.hungUp v.hangup) rfl rfl rfl
    simp only [subject, hr, bind_some, hv]
  | status =>
    obtain ⟨v, hv, rfl⟩ := map_eq_some_iff.1 h
    have hsession := (session_of_listed hv).2
    rw [← session_id hsession] at hsession
    split_ifs with hover
    · exact .kept rfl (List.Subset.refl _) rfl
    · exact .wrote hv hsession (.reported (by simpa using hover)) rfl rfl rfl
  | connect =>
    obtain rfl := some.inj h
    unfold connect
    split
    · exact .opened nofun
    · split_ifs <;> exact .opened nofun
  | signed =>
    obtain ⟨m, v, rfl, hm, -, -, rfl⟩ := onStream_eq_some h
    refine .moved hm ?_
    split_ifs <;> exact nofun
  | broken =>
    obtain ⟨m, v, rfl, hm, -, -, rfl⟩ := onStream_eq_some h
    exact .moved hm nofun
  | start =>
    obtain ⟨m, v, rfl, hm, -, hv, rfl⟩ := onStream_eq_some h
    unfold start
    split_ifs with htoken
    · exact .moved hm nofun
    · obtain rfl := not_not.1 htoken
      exact .started hm hv
  | stopped =>
    obtain ⟨m, v, rfl, hm, -, hv, rfl⟩ := onStream_eq_some h
    refine .wrote ?_ (session_id hv ▸ hv) .stopped rfl rfl rfl
    simp only [subject, hm, bind_some, hv]
  | timeLimit =>
    obtain ⟨m, v, rfl, hm, -, hv, rfl⟩ := onStream_eq_some h
    refine .wrote ?_ (session_id hv ▸ hv) .timeLimit rfl rfl rfl
    simp only [subject, hm, bind_some, hv]
  | finished =>
    obtain ⟨m, v, rfl, hm, hphase, hv, rfl⟩ := onStream_eq_some h
    exact .finished hm hphase hv

namespace Wrote

variable (h : Wrote now a v v')

include h

theorem same : v'.id = v.id ∧ v'.streamUsed = v.streamUsed := by
  cases h with
  | unreachable | rejected | accepted | marked | stopped | timeLimit => exact ⟨rfl, rfl⟩
  | hungUp =>
    unfold VoiceSession.hungUp
    split_ifs <;> exact ⟨rfl, rfl⟩
  | reported =>
    unfold VoiceSession.report
    split_ifs <;> exact ⟨rfl, rfl⟩

theorem terminal (hv : v.state.terminal = true) : v'.state.terminal = true := by
  cases h with
  | unreachable | rejected => rfl
  | accepted | marked | stopped | timeLimit => exact hv
  | hungUp =>
    unfold VoiceSession.hungUp
    split_ifs
    · rfl
    · exact hv
  | reported live =>
    rw [live] at hv
    exact absurd hv nofun

theorem connected (hv : v.state = .connected ∨ v.state = .failed) :
    v'.state = .connected ∨ v'.state = .failed := by
  cases h with
  | unreachable | rejected => exact .inr rfl
  | accepted | marked | stopped | timeLimit => exact hv
  | hungUp hangup =>
    have hkeep : VoiceSession.hungUp now { v with hangup } = { v with hangup } := by
      refine if_neg fun hne => ?_
      rcases hv with hv | hv
      · exact hne.1 hv
      · exact absurd ((congrArg VoiceState.terminal hv).symm.trans hne.2) nofun
    rw [hkeep]
    exact hv
  | @reported session status v live =>
    have hconnected : v.state = .connected := hv.resolve_right fun hf => by
      rw [hf] at live
      exact absurd live nofun
    have hkeep : v.report now status = v := by
      unfold VoiceSession.report
      rw [if_neg (fun hr => by rw [hconnected] at hr; exact absurd hr.2 nofun),
        if_neg (fun hr => hr.2 hconnected)]
    rw [hkeep]
    exact hv

end Wrote

theorem disconnect_id (v : VoiceSession) : (v.disconnect now raised).id = v.id := by
  unfold VoiceSession.disconnect
  split
  · rfl
  · split_ifs <;> rfl

theorem disconnect_streamUsed (v : VoiceSession) :
    (v.disconnect now raised).streamUsed = v.streamUsed := by
  unfold VoiceSession.disconnect
  split
  · rfl
  · split_ifs <;> rfl

theorem disconnect_terminal (v : VoiceSession) (h : v.state.terminal = true) :
    (v.disconnect now raised).state.terminal = true := by
  unfold VoiceSession.disconnect
  split
  · rfl
  · rw [if_pos h]
    exact h

/-- At most one session is live. -/
def OneLive (s : Voice) : Prop :=
  ∀ v ∈ s.sessions, ∀ w ∈ s.sessions, s.live v = true → s.live w = true → v.id = w.id

/-- Nothing has changed since `create` looked for a live session, nor since `accept_stream` found
its own live. -/
def Undisturbed : Time × VoiceAction → Voice → Prop
  | (_, .credentials _ none _), s => s.active = false
  | (_, .start id token callSid), s => ∀ v, s.subject (.start id token callSid) = some v →
    token = v.token → v.state.terminal = false
  | _, _ => True

theorem live_iff : s.live v = true ↔ v.id ∈ s.calls ∧ v.state.terminal = false := by
  simp [live]

theorem not_live_of_not_active (h : s.active = false) (hv : v ∈ s.sessions) : s.live v = false := by
  rw [active, List.any_eq_false] at h
  simpa using h v hv

theorem OneLive.put (hs : s.OneLive) (hsession : s.session v.id = some v) (hid : v'.id = v.id)
    (hterminal : v.state.terminal = true → v'.state.terminal = true)
    (hsessions : t.sessions = Table.put VoiceSession.id v' s.sessions)
    (hcalls : t.calls = s.calls) :
    t.OneLive := by
  -- a live row after the write has a live row with its id before
  have hbefore : ∀ w ∈ t.sessions, t.live w = true → ∃ x ∈ s.sessions, s.live x = true
      ∧ x.id = w.id := by
    intro w hw hlive
    rw [live_iff, hcalls] at hlive
    rw [hsessions] at hw
    rcases Table.mem_put hw with rfl | ⟨hw, -⟩
    · refine ⟨v, Table.get_mem hsession, live_iff.2 ⟨hid ▸ hlive.1, ?_⟩, hid.symm⟩
      rw [Bool.eq_false_iff]
      intro hv
      rw [hterminal hv] at hlive
      exact absurd hlive.2 nofun
    · exact ⟨w, hw, live_iff.2 hlive, rfl⟩
  intro w hw x hx hlw hlx
  obtain ⟨w₀, hw₀, hlw₀, hwid⟩ := hbefore w hw hlw
  obtain ⟨x₀, hx₀, hlx₀, hxid⟩ := hbefore x hx hlx
  rw [← hwid, ← hxid]
  exact hs w₀ hw₀ x₀ hx₀ hlw₀ hlx₀

theorem OneLive.mono (hs : s.OneLive) (hsessions : t.sessions = s.sessions)
    (hcalls : t.calls ⊆ s.calls) : t.OneLive := by
  intro v hv w hw hlv hlw
  rw [live_iff] at hlv hlw
  rw [hsessions] at hv hw
  exact hs v hv w hw (live_iff.2 ⟨hcalls hlv.1, hlv.2⟩) (live_iff.2 ⟨hcalls hlw.1, hlw.2⟩)

theorem OneLive.added {u : Voice} (hquiet : u.active = false) (hbefore : u.sessions = s.sessions)
    (hsessions : t.sessions = s.sessions ++ [v]) (hcalls : t.calls = u.calls ++ [v.id]) :
    t.OneLive := by
  -- every live session has the new one's id
  have hnew : ∀ w ∈ t.sessions, t.live w = true → w.id = v.id := by
    intro w hw hlive
    rw [live_iff, hcalls, mem_append] at hlive
    rw [hsessions] at hw
    rcases mem_append.1 hw with hw | hw
    · rcases hlive.1 with hmem | hmem
      · have hdead := not_live_of_not_active hquiet (hbefore ▸ hw)
        rw [live_iff.2 ⟨hmem, hlive.2⟩] at hdead
        exact absurd hdead nofun
      · exact mem_singleton.1 hmem
    · rw [mem_singleton.1 hw]
  intro w hw x hx hlw hlx
  rw [hnew w hw hlw, hnew x hx hlx]

theorem OneLive.step {a : Time × VoiceAction} (hs : s.OneLive) (hok : Undisturbed a s)
    (h : (voiceService settings).step a s = some t) : t.OneLive := by
  obtain ⟨now, a⟩ := a
  cases did_of_step h with
  | kept sessions calls => exact hs.mono sessions calls
  | added quiet before fresh live sessions calls =>
    refine OneLive.added ?_ before sessions calls
    rcases quiet with hquiet | ⟨rfl, id, token, rfl⟩
    · exact hquiet
    · exact hok
  | wrote subject session write sessions calls =>
    exact hs.put session write.same.1 write.terminal sessions calls
  | opened | moved => exact hs.mono rfl (List.Subset.refl _)
  | @started m v callSid stream session =>
    have hsubject : s.subject (.start m.id v.token callSid) = some v := by
      simp only [subject, stream, bind_some, session]
    have hlive := hok v hsubject rfl
    have hsession : s.session v.id = some v := by rwa [session_id session]
    have hid : (v.connect now callSid).id = v.id := rfl
    refine hs.put hsession hid (fun hv => ?_) rfl rfl
    rw [hlive] at hv
    cases hv
  | @finished m v raised stream running session =>
    have hsession : s.session v.id = some v := by rwa [session_id session]
    exact hs.put hsession (disconnect_id v) (disconnect_terminal v) rfl rfl

instance : DecidablePred OneLive := fun s =>
  inferInstanceAs (Decidable (∀ v ∈ s.sessions, ∀ w ∈ s.sessions,
    s.live v = true → s.live w = true → v.id = w.id))

/-- Settings under which any number with decimal digits may be called. -/
def openSettings : VoiceSettings :=
  ⟨⟨false, [], Char.isDigit, fun _ => 0⟩, "https://callbacks.example"⟩

/-- A simulated session is made while a call awaits its credentials. -/
def overlapping : List (Time × VoiceAction) :=
  [(0, .create "+15550104567" "" false "a"), (1, .create "" "" true "b"),
    (2, .credentials 0 none "a")]

theorem overlapping_live : ¬ (voiceService openSettings).Along OneLive overlapping empty := by
  decide

/-- In every run whose steps are undisturbed, at most one session is live. -/
theorem oneLive_of_undisturbed (settings : VoiceSettings) (actions : List (Time × VoiceAction))
    (h : (voiceService settings).Meets Undisturbed actions empty) :
    (voiceService settings).Along OneLive actions empty := by
  have hempty : empty.OneLive := fun _ hv => absurd hv not_mem_nil
  exact Machine.along_of_meets (fun _ _ _ hs hok hstep => OneLive.step hs hok hstep) actions
    hempty h

instance decidableUndisturbed :
    ∀ (a : Time × VoiceAction) (s : Voice), Decidable (Undisturbed a s)
  | (_, .credentials _ none _), s => inferInstanceAs (Decidable (s.active = false))
  | (_, .start id token callSid), s => inferInstanceAs (Decidable
      (∀ v, v ∈ s.subject (.start id token callSid) → token = v.token → v.state.terminal = false))
  | (_, .credentials _ (some _) _), _ | (_, .create _ _ _ _), _ | (_, .dialed _ _), _
  | (_, .endCall _), _ | (_, .endCalled _), _ | (_, .status _ _), _ | (_, .connect _), _
  | (_, .signed _ _), _ | (_, .broken _), _ | (_, .stopped _), _ | (_, .timeLimit _), _
  | (_, .finished _ _), _ => isTrue trivial

def twoCalls : List (Time × VoiceAction) :=
  [(0, .create "+15550104567" "" false ""), (1, .credentials 0 none "a"),
    (2, .dialed 0 (.accepted (some "CA0"))), (3, .status 0 .ringing), (4, .connect 0),
    (5, .signed 0 true), (6, .start 0 "a" none), (7, .finished 0 none),
    (8, .create "+15550104567" "" false ""), (9, .credentials 1 none "b")]

theorem twoCalls_oneLive : (voiceService openSettings).Along OneLive twoCalls empty :=
  oneLive_of_undisturbed openSettings twoCalls (by decide +kernel)

end Voice

end Crewquarters
