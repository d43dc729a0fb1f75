import Crewquarters.Proofs.Callbacks

/-!
# What the agent is told of a call

A view reports `IN_DOUBT` as `failed`, with the code `OUTCOME_UNKNOWN`, so what the agent was told
can be taken back although the stored state never goes back: a late callback adopts the row. A call
that was reported as over with any other code stays over, unless Twilio rejects a call that it has
called back for: `_set` overwrites whatever the row holds, and a callback that is adopting the row
does not see that it has failed.
-/

namespace Crewquarters

open CallState TelephonyCall List

namespace CallState

variable {x y : CallState}

theorem reported_terminal (h : x.reported.terminal = true) : x.terminal = true ∨ x = inDoubt := by
  cases x <;> simp_all [reported, terminal]

theorem reported_of_terminal (h : x.terminal = true) : x.reported = x := by
  cases x <;> first | rfl | cases h

theorem advanced_of_terminal (h : x.terminal = true) (y : CallState) :
    (if x.advances y then y else x) = x := by
  rw [if_neg]
  intro hadv
  rw [(advances_iff.1 hadv).1] at h
  cases h

theorem ne_inDoubt_of_advances (h : x.advances y = true) : y ≠ inDoubt := by
  rintro rfl
  obtain ⟨-, -, hterminal | hlt⟩ := advances_iff.1 h
  · exact absurd hterminal nofun
  · exact absurd hlt (not_lt.2 x.rank_getD_nonneg)

theorem advanced_ne_inDoubt (h : x ≠ inDoubt) (y : CallState) :
    (if x.advances y then y else x) ≠ inDoubt := by
  split_ifs with hadv
  · exact ne_inDoubt_of_advances hadv
  · exact h

end CallState

/-- The view says that the call is over, and not only that its outcome is unknown. -/
def CallView.over (view : CallView) : Prop :=
  view.state.terminal = true ∧ view.errorCode ≠ some "OUTCOME_UNKNOWN"

instance : DecidablePred CallView.over := fun _ => inferInstanceAs (Decidable (_ ∧ _))

theorem TelephonyCall.stored_eq_ok {c : TelephonyCall} {view : CallView}
    (h : c.stored = .ok view) : view = c.view := by
  unfold TelephonyCall.stored at h
  split_ifs at h
  exact (Except.ok.inj h).symm

namespace PlacedCall

variable {s t : PlacedCall} {a : PlacedAction} {d : Delivery}

/-- A call reported as over has that state in every later view. -/
def StaysOver (s : PlacedCall) : Prop :=
  s.views.Pairwise fun v w => v.over → w.state = v.state

/-- Twilio does not reject a call that it has reported as over or is calling back for. -/
def Steady : PlacedAction → PlacedCall → Prop
  | .answer .rejected _, s =>
    s.call.state.terminal = false ∧ ∀ d ∈ s.deliveries, d.phase ≠ .adopting
  | _, _ => True

/-- The views agree with the row. Without a CallSid the row is new, in doubt or rejected; it is in
doubt only then and with the code that says so, and no callback adopts it once it is rejected. -/
structure Agrees (s : PlacedCall) : Prop where
  fresh : s.create = .sent → s.call.providerSid = none → s.call.state = .creating
  doubt : s.call.state = .inDoubt →
    s.call.providerSid = none ∧ s.call.errorCode = some "OUTCOME_UNKNOWN"
  rejected : s.call.providerSid = none → s.call.state.terminal = true →
    ∀ d ∈ s.deliveries, d.phase ≠ .adopting
  found : ∀ d ∈ s.deliveries, d.phase = .found → s.call.providerSid ≠ none
  views : ∀ v ∈ s.views, v.over → s.call.state.terminal = true ∧ v.state = s.call.state
  stays : s.StaysOver

theorem placed_agrees (id : ℕ) (runId : RunId) (key last4 : String) :
    (placed id runId key last4).Agrees where
  fresh _ _ := rfl
  doubt h := by cases h
  rejected _ h := by cases h
  found _ h := absurd h not_mem_nil
  views _ h := absurd h not_mem_nil
  stays := .nil

namespace Agrees

variable (hs : s.Agrees)

include hs

theorem not_doubt (h : s.create = .sent ∨ s.call.providerSid ≠ none) :
    s.call.state ≠ .inDoubt := by
  intro hdoubt
  obtain ⟨hrow, -⟩ := hs.doubt hdoubt
  rw [hs.fresh (h.resolve_right (not_not_intro hrow)) hrow] at hdoubt
  cases hdoubt

/-- Nothing was reported as over while the row is open. -/
theorem views_of_open (h : s.call.state.terminal = false) {x : CallState} :
    ∀ v ∈ s.views, v.over → x.terminal = true ∧ v.state = x := by
  intro v hv hover
  rw [(hs.views v hv hover).1] at h
  cases h

theorem views_of_advances {x : CallState} :
    ∀ v ∈ s.views, v.over →
      (if s.call.state.advances x then x else s.call.state).terminal = true
        ∧ v.state = if s.call.state.advances x then x else s.call.state := by
  intro v hv hover
  rw [advanced_of_terminal (hs.views v hv hover).1]
  exact hs.views v hv hover

theorem recorded {answer : DialAnswer} {taken : Bool} (hsent : s.create = .sent)
    (hok : Steady (.answer answer taken) s) :
    Agrees { s with call := s.call.answered answer, create := .recorded answer } := by
  have hdoubt := hs.not_doubt (.inl hsent)
  cases answer with
  | accepted sid state =>
    exact { hs with
      fresh := fun h => by cases h
      doubt := fun h => absurd h (advanced_ne_inDoubt hdoubt state)
      rejected := fun h => by cases h
      found := fun _ _ _ h => by cases h
      views := hs.views_of_advances }
  | rejected =>
    obtain ⟨hopen, hnone⟩ := hok
    exact { hs with
      fresh := fun h => by cases h
      doubt := fun h => by cases h
      rejected := fun _ _ => hnone
      views := hs.views_of_open hopen }
  | unknown =>
    simp only [TelephonyCall.answered]
    split_ifs with hrow
    · have hnone : s.call.providerSid = none := by simpa using hrow
      have hopen : s.call.state.terminal = false := by
        rw [hs.fresh hsent hnone]
        rfl
      exact { hs with
        fresh := fun h => by cases h
        doubt := fun _ => ⟨hnone, rfl⟩
        rejected := fun _ h => by cases h
        views := hs.views_of_open hopen }
    · exact { hs with fresh := fun h => by cases h }

theorem goto {phase : DeliveryPhase} (hfound : phase = .found → s.call.providerSid ≠ none)
    (hadopting : phase = .adopting → s.call.state.terminal = false) : (s.goto d phase).Agrees := by
  refine { hs with rejected := fun hrow hover x hx hphase => ?_, found := fun x hx hphase => ?_ }
  · rcases Table.mem_put hx with rfl | ⟨hx, -⟩
    · exact absurd ((hadopting hphase).symm.trans hover) Bool.false_ne_true
    · exact hs.rejected hrow hover x hx hphase
  · rcases Table.mem_put hx with rfl | ⟨hx, -⟩
    · exact hfound hphase
    · exact hs.found x hx hphase

theorem adopt {sid : String} (hd : d ∈ s.deliveries) (hphase : d.phase = .adopting) :
    (s.setCall (s.call.adopt sid)).Agrees := by
  by_cases hrow : s.call.providerSid = none
  · have hopen : s.call.state.terminal = false :=
      Bool.eq_false_iff.2 fun hover => hs.rejected hrow hover d hd hphase
    have hcall : s.call.adopt sid
        = { s.call with providerSid := some sid, state := .queued, errorCode := none } := by
      simp [TelephonyCall.adopt, hrow]
    rw [hcall]
    exact { hs with
      fresh := fun _ h => by cases h
      doubt := fun h => by cases h
      rejected := fun h => by cases h
      found := fun _ _ _ h => by cases h
      views := hs.views_of_open hopen }
  · have hcall : s.call.adopt sid = s.call := by simp [TelephonyCall.adopt, hrow]
    rw [hcall]
    exact hs

theorem report {c : Callback} (hsome : s.call.providerSid ≠ none) :
    Agrees { s with call := s.call.reported c.report, applied := s.applied ++ [c] } := by
  have hsid := reported_sid (c := s.call) c.report
  have hdoubt := hs.not_doubt (.inr hsome)
  have hstate := reported_state (c := s.call) c.report
  refine { hs with fresh := ?_, doubt := ?_, rejected := ?_, found := ?_, views := ?_ }
  · exact fun _ h => absurd (hsid.symm.trans h) hsome
  · rw [hstate]
    cases c.report with
    | voice | gather => exact fun h => absurd h hdoubt
    | status new => exact fun h => absurd h (advanced_ne_inDoubt hdoubt new)
  · exact fun h => absurd (hsid.symm.trans h) hsome
  · intro d hd hphase
    rw [hsid]
    exact hsome
  · rw [hstate]
    cases c.report with
    | voice | gather => exact hs.views
    | status => exact hs.views_of_advances

/-- A view of the row that says it is over is the row's own state. -/
theorem view_over (h : s.call.view.over) :
    s.call.state.terminal = true ∧ s.call.view.state = s.call.state := by
  rcases reported_terminal h.1 with hterminal | hdoubt
  · exact ⟨hterminal, reported_of_terminal hterminal⟩
  · exact absurd (hs.doubt hdoubt).2 h.2

theorem tell {answer : Except PlatformError CallView}
    (h : ∀ view, answer = .ok view → view = s.call.view) : (s.tell answer).Agrees := by
  cases answer with
  | error => exact hs
  | ok view =>
    obtain rfl := h view rfl
    refine { hs with views := fun v hv hover => ?_, stays := ?_ }
    · rcases mem_append.1 hv with hv | hv
      · exact hs.views v hv hover
      · rw [mem_singleton.1 hv] at hover ⊢
        exact hs.view_over hover
    · refine pairwise_append.2
        ⟨hs.stays, pairwise_singleton .., fun v hv w hw hover => ?_⟩
      obtain ⟨hterminal, hstate⟩ := hs.views v hv hover
      rw [mem_singleton.1 hw, hstate]
      exact reported_of_terminal hterminal

theorem step (hok : Steady a s) (h : placement.step a s = some t) : t.Agrees := by
  cases did_of_step h with
  | recorded sent => exact hs.recorded sent hok
  | crashed => exact { hs with fresh := fun h => by cases h }
  | @settled answer recorded =>
    have hended : Agrees { s with create := .ended answer } :=
      { hs with fresh := fun h => by cases h }
    refine hended.tell fun view hview => ?_
    cases answer with
    | accepted | rejected => exact (Except.ok.inj hview).symm
    | unknown => exact stored_eq_ok hview
  | arrived =>
    refine { hs with rejected := fun hrow hover x hx => ?_, found := fun x hx hphase => ?_ }
    · rcases mem_append.1 hx with hx | hx
      · exact hs.rejected hrow hover x hx
      · rw [mem_singleton.1 hx]
        exact nofun
    · rcases mem_append.1 hx with hx | hx
      · exact hs.found x hx hphase
      · rw [mem_singleton.1 hx] at hphase
        cases hphase
  | @went _ d phase delivery goes =>
    cases goes with
    | adopting _ adoptable =>
      refine hs.goto (fun h => by cases h) fun _ => ?_
      simp only [TelephonyCall.adoptable, Bool.and_eq_true, Bool.or_eq_true,
        decide_eq_true_eq] at adoptable
      rcases adoptable.1.1.2 with h | h <;> rw [h] <;> rfl
    | found answers =>
      refine hs.goto (fun _ hnone => ?_) fun h => by cases h
      simp [TelephonyCall.answersTo, hnone] at answers
    | refused => exact hs.goto (fun h => by cases h) fun h => by cases h
  | clashed => exact hs.goto (fun h => by cases h) fun h => by cases h
  | @adopted d delivery adopting =>
    exact (hs.adopt (Table.get_mem delivery) adopting).goto (fun h => by cases h)
      fun h => by cases h
  | @applied d delivery found =>
    exact (hs.report (hs.found d (Table.get_mem delivery) found)).goto (fun h => by cases h)
      fun h => by cases h
  | told answers =>
    refine hs.tell fun view hview => ?_
    rcases answers with rfl | rfl
    · exact (Except.ok.inj hview).symm
    · exact stored_eq_ok hview

end Agrees

/-- The outcome is unknown, the agent looks, and then Twilio calls back. -/
def calledBackLate : List PlacedAction :=
  [.answer .unknown false, .settle, .getCall, .arrive ringing, .read 0, .adopt 0 false, .getCall]

/-- The agent sees `failed` first and `queued` afterwards. -/
theorem calledBackLate_rises :
    ¬ placement.Along (fun s => s.views.Pairwise fun v w => v.state.terminal = true →
      w.state = v.state) calledBackLate (placed 0 0 "call" "4567") := by
  decide

/-- Whatever callbacks come and whenever the agent looks: a call reported as over stays over, if it
was not its outcome that was unknown. -/
theorem staysOver_of_steady (id : ℕ) (runId : RunId) (key last4 : String)
    (actions : List PlacedAction)
    (h : placement.Meets Steady actions (placed id runId key last4)) :
    placement.Along StaysOver actions (placed id runId key last4) := by
  have hagrees := Machine.along_of_meets (fun _ _ _ hs hok hstep => Agrees.step hs hok hstep)
    actions (placed_agrees id runId key last4) h
  exact hagrees.mono fun _ hs => hs.stays

instance decidableSteady : ∀ (a : PlacedAction) (s : PlacedCall), Decidable (Steady a s)
  | .answer .rejected _, _ => inferInstanceAs (Decidable (_ ∧ _))
  | .answer (.accepted _ _) _, _ | .answer .unknown _, _ | .settle, _ | .arrive _, _ | .read _, _
  | .adopt _ _, _ | .reread _, _ | .apply _, _ | .getCall, _ | .createCall, _ => isTrue trivial

def hungUp : Callback :=
  ⟨"CA0123456789abcdef0123456789abcdef", "+15550104567", .status .completed (some 12) none⟩

/-- The late callback goes on to ring, the call is completed, and a callback that was overtaken
comes last; the agent looks each time. -/
theorem staysOver_of_calledBackLate :
    placement.Along StaysOver
      (calledBackLate ++ [.reread 0, .apply 0, .getCall, .arrive hungUp, .read 1, .apply 1,
        .getCall, .arrive ringing, .read 2, .apply 2, .getCall])
      (placed 0 0 "call" "4567") :=
  staysOver_of_steady 0 0 "call" "4567" _ (by decide)

end PlacedCall

end Crewquarters
