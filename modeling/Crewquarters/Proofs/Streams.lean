import Crewquarters.Proofs.Voice

/-!
# One stream a voice call, and its end is final

A session is marked used when a stream has shown its token, so it admits one stream if no other was
admitted during the handshake.
-/

namespace Crewquarters

open Option Table List

namespace Voice

variable {settings : VoiceSettings} {now : Time} {s t u : Voice} {a : VoiceAction}
  {v v' : VoiceSession} {m : MediaStream}

/-- A session has one stream at most. -/
def OneStream (s : Voice) : Prop :=
  ∀ m ∈ s.streams, ∀ n ∈ s.streams, m.admitted = true → n.admitted = true →
    m.session = n.session → m.id = n.id

/-- What is over stays as it is. -/
def Final (s t : Voice) : Prop :=
  ∀ id v, s.session id = some v → v.state.terminal = true → ∃ w, t.session id = some w
    ∧ w.state = v.state ∧ w.endedAt = v.endedAt ∧ w.endReason = v.endReason

/-- The handshake ends on a session that is neither used nor over, and a failed dial and a time
limit find their session not over. -/
def Guarded : Time × VoiceAction → Voice → Prop
  | (_, .start id token callSid), s => ∀ v, s.subject (.start id token callSid) = some v →
    token = v.token → v.streamUsed = false ∧ v.state.terminal = false
  | (_, .dialed _ (.accepted _)), _ => True
  | (_, .dialed id answer), s => ∀ v, s.subject (.dialed id answer) = some v →
    v.state.terminal = false
  | (_, .timeLimit id), s => ∀ v, s.subject (.timeLimit id) = some v → v.state.terminal = false
  | _, _ => True

theorem Final.refl (s : Voice) : s.Final s := fun _ v hv _ => ⟨v, hv, rfl, rfl, rfl⟩

theorem Final.trans (h : s.Final t) (h' : t.Final u) : s.Final u := by
  intro id v hv hover
  obtain ⟨w, hw, hstate, hended, hreason⟩ := h id v hv hover
  obtain ⟨x, hx, hstate', hended', hreason'⟩ := h' id w hw (hstate ▸ hover)
  exact ⟨x, hx, hstate'.trans hstate, hended'.trans hended, hreason'.trans hreason⟩

/-- What is known of the sessions and of the streams that passed the handshake. -/
structure Tidy (s : Voice) : Prop where
  ended : ∀ id v, s.session id = some v → v.state.terminal = true →
    v.endReason ≠ none ∧ v.endedAt ≠ none
  used : ∀ m ∈ s.streams, m.admitted = true →
    ∃ v, s.session m.session = some v ∧ v.streamUsed = true
  running : ∀ m ∈ s.streams, m.phase = .running → m.admitted = true
    ∧ ∃ v, s.session m.session = some v ∧ (v.state = .connected ∨ v.state = .failed)
  one : s.OneStream

theorem empty_tidy : empty.Tidy where
  ended _ _ h := absurd h nofun
  used _ h := absurd h not_mem_nil
  running _ h := absurd h not_mem_nil
  one _ h := absurd h not_mem_nil

/-- A session that is used or over stays so. -/
structure Keeps (v v' : VoiceSession) : Prop where
  id : v'.id = v.id
  used : v.streamUsed = true → v'.streamUsed = true
  ended : v'.state.terminal = true → v'.endReason ≠ none ∧ v'.endedAt ≠ none
  final : v.state.terminal = true →
    v'.state = v.state ∧ v'.endedAt = v.endedAt ∧ v'.endReason = v.endReason

theorem finish_ended (v : VoiceSession) (state : VoiceState) (reason : String) :
    (v.finish now state reason).endReason ≠ none ∧ (v.finish now state reason).endedAt ≠ none := by
  simp [VoiceSession.finish]

theorem Keeps.of_live (hid : v'.id = v.id) (hused : v'.streamUsed = v.streamUsed)
    (hlive : v.state.terminal = false)
    (hended : v'.state.terminal = true → v'.endReason ≠ none ∧ v'.endedAt ≠ none) : Keeps v v' := by
  refine ⟨hid, fun hu => hused.trans hu, hended, fun hover => ?_⟩
  rw [hlive] at hover
  exact absurd hover nofun

theorem Keeps.of_same (hid : v'.id = v.id) (hused : v'.streamUsed = v.streamUsed)
    (hended : v.state.terminal = true → v.endReason ≠ none ∧ v.endedAt ≠ none)
    (hstate : v'.state = v.state) (hat : v'.endedAt = v.endedAt)
    (hreason : v'.endReason = v.endReason) : Keeps v v' := by
  refine ⟨hid, fun hu => hused.trans hu, fun hover => ?_, fun _ => ⟨hstate, hat, hreason⟩⟩
  rw [hreason, hat]
  exact hended (hstate ▸ hover)

theorem Wrote.keeps (h : Wrote now a v v') (hsubject : s.subject a = some v)
    (hok : Guarded (now, a) s)
    (hended : v.state.terminal = true → v.endReason ≠ none ∧ v.endedAt ≠ none) : Keeps v v' := by
  obtain ⟨hid, hused⟩ := h.same
  cases h with
  | unreachable => exact .of_live hid hused (hok v hsubject) fun _ => finish_ended v _ _
  | rejected =>
    exact .of_live hid hused (hok v hsubject) fun _ => finish_ended v .failed "twilio_rejected"
  | accepted | marked => exact .of_same hid hused hended rfl rfl rfl
  | hungUp =>
    unfold VoiceSession.hungUp at hid hused ⊢
    split_ifs at hid hused ⊢ with hopen
    · exact .of_live hid hused hopen.2 fun _ => finish_ended _ _ _
    · exact .of_same hid hused hended rfl rfl rfl
  | reported live =>
    refine .of_live hid hused live ?_
    unfold VoiceSession.report
    split
    · exact fun hover => absurd hover nofun
    · split
      · exact fun _ => finish_ended v _ _
      · exact hended
  | stopped =>
    cases hover : v.state.terminal with
    | false => exact .of_live hid hused hover fun h => absurd (hover.symm.trans h) nofun
    | true =>
      have hreason := (hended hover).1
      refine .of_same hid hused hended rfl rfl ?_
      exact or_of_isSome (isSome_iff_ne_none.2 hreason)
  | timeLimit =>
    have hlive := hok v hsubject
    exact .of_live hid hused hlive fun h => absurd (hlive.symm.trans h) nofun

section Put

variable (hk : Keeps v v') (hsession : s.session v.id = some v)
  (hsessions : t.sessions = Table.put VoiceSession.id v' s.sessions)

include hk hsession hsessions

theorem session_put {id : ℕ} :
    t.session id = if id = v.id then some v' else s.session id := by
  have hid := hk.id
  unfold session
  rw [hsessions]
  split_ifs with h
  · subst h
    rw [← hid]
    exact get_put_self (hid ▸ hsession)
  · exact get_put_of_ne (fun heq => h (heq.symm.trans hid))

theorem Keeps.ended_put (hs : s.Tidy) :
    ∀ id w, t.session id = some w → w.state.terminal = true →
      w.endReason ≠ none ∧ w.endedAt ≠ none := by
  intro id w hw hover
  rw [session_put hk hsession hsessions] at hw
  split_ifs at hw
  · obtain rfl := some.inj hw
    exact hk.ended hover
  · exact hs.ended id w hw hover

theorem Keeps.used_put {id : ℕ}
    (h : ∃ w, s.session id = some w ∧ w.streamUsed = true) :
    ∃ w, t.session id = some w ∧ w.streamUsed = true := by
  obtain ⟨w, hw, hused⟩ := h
  rw [session_put hk hsession hsessions]
  split_ifs with hid
  · subst hid
    obtain rfl := some.inj (hsession.symm.trans hw)
    exact ⟨v', rfl, hk.used hused⟩
  · exact ⟨w, hw, hused⟩

theorem Keeps.final_put : s.Final t := by
  intro id w hw hover
  rw [session_put hk hsession hsessions]
  split_ifs with hid
  · subst hid
    obtain rfl := some.inj (hsession.symm.trans hw)
    exact ⟨v', rfl, hk.final hover⟩
  · exact ⟨w, hw, rfl, rfl, rfl⟩

end Put

theorem Tidy.wrote (hs : s.Tidy) (hsession : s.session v.id = some v) (hk : Keeps v v')
    (hconnected : v.state = .connected ∨ v.state = .failed →
      v'.state = .connected ∨ v'.state = .failed)
    (hsessions : t.sessions = Table.put VoiceSession.id v' s.sessions)
    (hstreams : t.streams = s.streams) : t.Tidy := by
  refine ⟨hk.ended_put hsession hsessions hs, ?_, ?_, ?_⟩
  · rw [hstreams]
    exact fun m hm hadmitted => hk.used_put hsession hsessions (hs.used m hm hadmitted)
  · rw [hstreams]
    intro m hm hrunning
    obtain ⟨hadmitted, w, hw, hstate⟩ := hs.running m hm hrunning
    refine ⟨hadmitted, ?_⟩
    rw [session_put hk hsession hsessions]
    split_ifs with hid
    · rw [hid] at hw
      obtain rfl := some.inj (hsession.symm.trans hw)
      exact ⟨v', rfl, hconnected hstate⟩
    · exact ⟨w, hw, hstate⟩
  · have hone := hs.one
    rw [OneStream, ← hstreams] at hone
    exact hone

theorem Tidy.grown (hs : s.Tidy) (hsessions : ∀ id v, s.session id = some v → t.session id = some v)
    (hnew : ∀ id v, t.session id = some v → s.session id = some v ∨ v.state.terminal = false)
    (hstreams : t.streams = s.streams) : t.Tidy ∧ s.Final t := by
  refine ⟨⟨fun id v hv hover => ?_, ?_, ?_, ?_⟩,
    fun id v hv _ => ⟨v, hsessions id v hv, rfl, rfl, rfl⟩⟩
  · rcases hnew id v hv with hv | hlive
    · exact hs.ended id v hv hover
    · rw [hlive] at hover
      exact absurd hover nofun
  · rw [hstreams]
    intro m hm hadmitted
    obtain ⟨v, hv, hused⟩ := hs.used m hm hadmitted
    exact ⟨v, hsessions _ v hv, hused⟩
  · rw [hstreams]
    intro m hm hrunning
    obtain ⟨hadmitted, v, hv, hstate⟩ := hs.running m hm hrunning
    exact ⟨hadmitted, v, hsessions _ v hv, hstate⟩
  · have hone := hs.one
    rw [OneStream, ← hstreams] at hone
    exact hone

theorem Tidy.opened (hs : s.Tidy) {session : ℕ} {phase : StreamPhase} (hidle : phase ≠ .running) :
    (s.addStream session phase).Tidy := by
  have hmem : ∀ m ∈ (s.addStream session phase).streams,
      m ∈ s.streams ∨ m.phase = phase ∧ m.admitted = false := by
    intro m hm
    rcases mem_append.1 hm with hm | hm
    · exact .inl hm
    · rw [mem_singleton.1 hm]
      exact .inr ⟨rfl, rfl⟩
  have hold : ∀ m ∈ (s.addStream session phase).streams, m.admitted = true → m ∈ s.streams := by
    intro m hm hadmitted
    refine (hmem m hm).resolve_right fun h => ?_
    rw [h.2] at hadmitted
    exact absurd hadmitted nofun
  refine { hs with used := ?_, running := ?_, one := ?_ }
  · exact fun m hm hadmitted => hs.used m (hold m hm hadmitted) hadmitted
  · intro m hm hrunning
    exact hs.running m ((hmem m hm).resolve_right fun h => hidle (h.1 ▸ hrunning)) hrunning
  · exact fun m hm n hn hma hna => hs.one m (hold m hm hma) n (hold n hn hna) hma hna

theorem Tidy.moved (hs : s.Tidy) (hm : Table.get MediaStream.id m.id s.streams = some m)
    {phase : StreamPhase} (hidle : phase ≠ .running) : (s.gotoStream m phase).Tidy := by
  -- a stream after the move has one before it that differs in its phase at most
  have hbefore : ∀ n ∈ (s.gotoStream m phase).streams, ∃ n₀ ∈ s.streams, n₀.id = n.id
      ∧ n₀.session = n.session ∧ n₀.admitted = n.admitted ∧ (n.phase = .running → n₀ = n) := by
    intro n hn
    rcases mem_put hn with rfl | ⟨hn, -⟩
    · exact ⟨m, get_mem hm, rfl, rfl, rfl, fun h => absurd h hidle⟩
    · exact ⟨n, hn, rfl, rfl, rfl, fun _ => rfl⟩
  refine { hs with used := ?_, running := ?_, one := ?_ }
  · intro n hn hadmitted
    obtain ⟨n₀, hn₀, -, hsession, hadm, -⟩ := hbefore n hn
    exact hsession ▸ hs.used n₀ hn₀ (hadm.trans hadmitted)
  · intro n hn hrunning
    obtain ⟨n₀, hn₀, -, -, -, heq⟩ := hbefore n hn
    exact heq hrunning ▸ hs.running n₀ hn₀ (heq hrunning ▸ hrunning)
  · intro n hn k hk hna hka hsame
    obtain ⟨n₀, hn₀, hnid, hns, hnadm, -⟩ := hbefore n hn
    obtain ⟨k₀, hk₀, hkid, hks, hkadm, -⟩ := hbefore k hk
    rw [← hnid, ← hkid]
    exact hs.one n₀ hn₀ k₀ hk₀ (hnadm.trans hna) (hkadm.trans hka)
      (hns.trans (hsame.trans hks.symm))

theorem connect_keeps {callSid : Option String} (hlive : v.state.terminal = false) :
    Keeps v (v.connect now callSid) := by
  refine ⟨rfl, fun _ => rfl, fun hover => absurd hover nofun, fun hover => ?_⟩
  rw [hlive] at hover
  exact absurd hover nofun

theorem Tidy.started {callSid : Option String} (hs : s.Tidy) (hv : s.session m.session = some v)
    (hused : v.streamUsed = false) (hlive : v.state.terminal = false) :
    Tidy ((s.setSession (v.connect now callSid)).gotoStream { m with admitted := true }
      .running) := by
  have hid := session_id hv
  have hsession : s.session v.id = some v := by rwa [hid]
  have hk : Keeps v (v.connect now callSid) := connect_keeps hlive
  -- the session has no other stream that was admitted
  have hnone : ∀ n ∈ s.streams, n.admitted = true → n.session ≠ m.session := by
    intro n hn hadmitted heq
    obtain ⟨w, hw, hwused⟩ := hs.used n hn hadmitted
    rw [heq] at hw
    obtain rfl := some.inj (hv.symm.trans hw)
    rw [hused] at hwused
    exact absurd hwused nofun
  have hself : session m.session (s.setSession (v.connect now callSid))
      = some (v.connect now callSid) := by
    rw [session_put hk hsession rfl, if_pos hid.symm]
  refine ⟨hk.ended_put hsession rfl hs, ?_, ?_, ?_⟩
  · intro n hn hadmitted
    rcases mem_put hn with rfl | ⟨hn, -⟩
    · exact ⟨_, hself, rfl⟩
    · exact hk.used_put hsession rfl (hs.used n hn hadmitted)
  · intro n hn hrunning
    rcases mem_put hn with rfl | ⟨hn, -⟩
    · exact ⟨rfl, _, hself, .inl rfl⟩
    · obtain ⟨hadmitted, w, hw, hstate⟩ := hs.running n hn hrunning
      have hne : n.session ≠ v.id := hid ▸ hnone n hn hadmitted
      refine ⟨hadmitted, w, ?_, hstate⟩
      exact (session_put hk hsession rfl).trans ((if_neg hne).trans hw)
  · intro n hn k hk' hna hka hsame
    rcases mem_put hn with rfl | ⟨hn, -⟩ <;> rcases mem_put hk' with rfl | ⟨hk', -⟩
    · rfl
    · exact absurd hsame.symm (hnone k hk' hka)
    · exact absurd hsame (hnone n hn hna)
    · exact hs.one n hn k hk' hna hka hsame

theorem disconnect_keeps {raised : Option String}
    (hended : v.state.terminal = true → v.endReason ≠ none ∧ v.endedAt ≠ none)
    (hstate : v.state = .connected ∨ v.state = .failed) : Keeps v (v.disconnect now raised) := by
  refine ⟨disconnect_id v, fun hu => (disconnect_streamUsed v).trans hu, ?_, ?_⟩
  · unfold VoiceSession.disconnect
    split
    · exact fun _ => finish_ended _ _ _
    · split_ifs
      · exact hended
      · exact fun _ => finish_ended v _ _
  · intro hover
    have hfailed : v.state = .failed := hstate.resolve_left fun h => by
      rw [h] at hover
      exact absurd hover nofun
    obtain ⟨hreason, hat⟩ := hended hover
    unfold VoiceSession.disconnect
    split
    · refine ⟨hfailed.symm, ?_, ?_⟩
      · exact or_of_isSome (isSome_iff_ne_none.2 hat)
      · exact or_of_isSome (isSome_iff_ne_none.2 hreason)
    · rw [if_pos hover]
      exact ⟨rfl, rfl, rfl⟩

theorem Tidy.finished {raised : Option String} (hs : s.Tidy)
    (hm : Table.get MediaStream.id m.id s.streams = some m) (hrunning : m.phase = .running)
    (hv : s.session m.session = some v) (hk : Keeps v (v.disconnect now raised)) :
    Tidy ((s.setSession (v.disconnect now raised)).gotoStream m (.closed 1000)) := by
  have hid := session_id hv
  have hsession : s.session v.id = some v := by rwa [hid]
  have hmem := get_mem hm
  have hadm := (hs.running m hmem hrunning).1
  refine ⟨hk.ended_put hsession rfl hs, ?_, ?_, ?_⟩
  · intro n hn hadmitted
    rcases mem_put hn with rfl | ⟨hn, -⟩
    · exact hk.used_put hsession rfl (hs.used m hmem hadmitted)
    · exact hk.used_put hsession rfl (hs.used n hn hadmitted)
  · intro n hn hphase
    rcases mem_put hn with rfl | ⟨hn, hne⟩
    · exact absurd hphase nofun
    · obtain ⟨hadmitted, w, hw, hstate⟩ := hs.running n hn hphase
      -- another stream that runs belongs to another session
      have hother : n.session ≠ v.id := by
        rw [hid]
        exact fun heq => hne (hs.one n hn m hmem hadmitted hadm heq)
      refine ⟨hadmitted, w, ?_, hstate⟩
      exact (session_put hk hsession rfl).trans ((if_neg hother).trans hw)
  · intro n hn k hk' hna hka hsame
    rcases mem_put hn with rfl | ⟨hn, -⟩ <;> rcases mem_put hk' with rfl | ⟨hk', -⟩
    · rfl
    · exact hs.one m hmem k hk' hna hka hsame
    · exact hs.one n hn m hmem hna hka hsame
    · exact hs.one n hn k hk' hna hka hsame

/-- A guarded step leaves what is over as it is. -/
theorem Tidy.step {a : Time × VoiceAction} (hs : s.Tidy) (hok : Guarded a s)
    (h : (voiceService settings).step a s = some t) : t.Tidy ∧ s.Final t := by
  obtain ⟨now, a⟩ := a
  cases did_of_step h with
  | kept sessions calls streams =>
    have hsame : ∀ id, t.session id = s.session id := fun id => by rw [session, session, sessions]
    exact hs.grown (fun id v hv => (hsame id).trans hv)
      (fun id v hv => .inl ((hsame id).symm.trans hv))
      streams
  | @added _ _ u v quiet before fresh live sessions calls streams =>
    have hget : ∀ id, t.session id = (s.session id).or (Table.get VoiceSession.id id [v]) :=
      fun id => by rw [session, session, sessions, get_append]
    refine hs.grown (fun id w hw => ?_) (fun id w hw => ?_) streams
    · rw [hget, hw]
      rfl
    · rw [hget] at hw
      rcases or_eq_some_iff.1 hw with hw | ⟨-, hw⟩
      · exact .inl hw
      · rw [mem_singleton.1 (get_mem hw)]
        exact .inr live
  | wrote subject session write sessions calls streams =>
    have hk := write.keeps subject hok (hs.ended _ _ session)
    exact ⟨hs.wrote session hk write.connected sessions streams, hk.final_put session sessions⟩
  | opened idle => exact ⟨hs.opened idle, .refl _⟩
  | moved stream idle => exact ⟨hs.moved stream idle, .refl _⟩
  | @started m v callSid stream session =>
    have hsubject : s.subject (.start m.id v.token callSid) = some v := by
      simp only [subject, stream, bind_some, session]
    obtain ⟨hused, hlive⟩ := hok v hsubject rfl
    have hsession : s.session v.id = some v := by rwa [session_id session]
    have hk : Keeps v (v.connect now callSid) := connect_keeps hlive
    exact ⟨hs.started session hused hlive, hk.final_put hsession rfl⟩
  | @finished m v raised stream running session =>
    obtain ⟨-, w, hw, hstate⟩ := hs.running m (get_mem stream) running
    obtain rfl := some.inj (session.symm.trans hw)
    have hsession : s.session v.id = some v := by rwa [session_id session]
    have hk : Keeps v (v.disconnect now raised) := disconnect_keeps (hs.ended _ v session) hstate
    exact ⟨hs.finished stream running session hk, hk.final_put hsession rfl⟩

instance : DecidablePred OneStream := fun s =>
  inferInstanceAs (Decidable (∀ m ∈ s.streams, ∀ n ∈ s.streams, m.admitted = true →
    n.admitted = true → m.session = n.session → m.id = n.id))

/-- Two connections are in the handshake at once, and both have the token. -/
def bothStart : List (Time × VoiceAction) :=
  [(0, .create "" "" true "token"), (1, .connect 0), (2, .connect 0), (3, .start 0 "token" none),
    (4, .start 1 "token" none)]

/-- The owner ends the session while a connection is in the handshake. -/
def endedFirst : List (Time × VoiceAction) :=
  [(0, .create "" "" true "token"), (1, .connect 0), (2, .endCall 0)]

/-- Both streams are admitted; and a session that ended is connected again. -/
theorem bothStart_admitted : ¬ (voiceService openSettings).Along OneStream bothStart empty
    ∧ ∃ s t, (voiceService openSettings).run endedFirst empty = some s
      ∧ (voiceService openSettings).run [(3, .start 0 "token" none)] s = some t ∧ ¬ s.Final t := by
  refine ⟨by decide, _, _, rfl, rfl, fun hfinal => ?_⟩
  obtain ⟨w, hw, hstate, -⟩ := hfinal 0 _ rfl rfl
  obtain rfl := some.inj hw
  exact absurd hstate nofun

/-- In every run whose steps are guarded, a session admits one stream and its end is final. -/
theorem oneStream_of_guarded (settings : VoiceSettings) (actions : List (Time × VoiceAction))
    (h : (voiceService settings).Meets Guarded actions empty) :
    (voiceService settings).Along OneStream actions empty
    ∧ ∀ as bs s t, as ++ bs = actions → (voiceService settings).run as empty = some s →
      (voiceService settings).run bs s = some t → s.Final t := by
  constructor
  · have htidy := Machine.along_of_meets
      (fun _ _ _ hs hok hstep => (Tidy.step hs hok hstep).1) actions empty_tidy h
    exact htidy.mono fun _ hs => hs.one
  · rintro as bs s t rfl has hbs
    obtain ⟨hmas, hmbs⟩ := h.append has
    have hrun : ∀ as {s t : Voice}, s.Tidy → (voiceService settings).Meets Guarded as s →
        (voiceService settings).run as s = some t → t.Tidy ∧ s.Final t :=
      Machine.run_relates (fun s => Final.refl s) (fun h h' => h.trans h')
        (fun _ _ _ hs hok hstep => Tidy.step hs hok hstep)
    obtain ⟨hs, -⟩ := hrun as empty_tidy hmas has
    exact (hrun bs hs hmbs hbs).2

instance decidableGuarded : ∀ (a : Time × VoiceAction) (s : Voice), Decidable (Guarded a s)
  | (_, .start id token callSid), s => inferInstanceAs (Decidable
      (∀ v, v ∈ s.subject (.start id token callSid) →
        token = v.token → v.streamUsed = false ∧ v.state.terminal = false))
  | (_, .dialed id .unreachable), s => inferInstanceAs (Decidable
      (∀ v, v ∈ s.subject (.dialed id .unreachable) → v.state.terminal = false))
  | (_, .dialed id (.rejected code)), s => inferInstanceAs (Decidable
      (∀ v, v ∈ s.subject (.dialed id (.rejected code)) → v.state.terminal = false))
  | (_, .timeLimit id), s => inferInstanceAs (Decidable
      (∀ v, v ∈ s.subject (.timeLimit id) → v.state.terminal = false))
  | (_, .dialed _ (.accepted _)), _ | (_, .credentials _ _ _), _ | (_, .create _ _ _ _), _
  | (_, .endCall _), _ | (_, .endCalled _), _ | (_, .status _ _), _ | (_, .connect _), _
  | (_, .signed _ _), _ | (_, .broken _), _ | (_, .stopped _), _ | (_, .finished _ _), _ =>
    isTrue trivial

theorem twoCalls_oneStream : (voiceService openSettings).Along OneStream twoCalls empty :=
  (oneStream_of_guarded openSettings twoCalls (by decide +kernel)).1

end Voice

end Crewquarters
