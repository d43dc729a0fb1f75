import Crewquarters.ChatStream

/-!
# No reply is left streaming, unless its stream is cut off where nothing finishes it

The generator stores the reply where the loop over the gateway's events ends. An interruption before
the loop or during the store leaves the reply as it was committed, and one in the loop after a
`done` event stores a reply that is complete as stopped. Any other leaves a reply that is settled
(`Sound`); after one of these nothing settles it any more (`Lost`).
-/

namespace Crewquarters

namespace ChatStream

def deltaText : GatewayEvent → Option String
  | .delta text => some text
  | _ => none

def finalText : GatewayEvent → Option (Option String)
  | .done text => some text
  | _ => none

def isDone (event : GatewayEvent) : Bool := (finalText event).isSome

/-- The text of the last `done` event, if it has one. -/
def doneText (events : List GatewayEvent) : Option String :=
  (events.filterMap finalText).getLast?.join

/-- A final status, `complete` iff there was a `done` event, and the text of that event or else of
the deltas. -/
structure Settled (events : List GatewayEvent) (message : Message) : Prop where
  final : message.1 = .complete ∨ message.1 = .stopped ∨ message.1 = .failed
  complete : message.1 = .complete ↔ events.any isDone = true
  content : message.2 = (doneText events).getD (String.join (events.filterMap deltaText))

/-- The variables of the loop after these events. -/
structure Received (events : List GatewayEvent) (reply : Reply) : Prop where
  parts : reply.parts = events.filterMap deltaText
  finalText : reply.finalText = doneText events
  status : reply.status = if events.any isDone then .complete else .failed

variable {events : List GatewayEvent} {event : GatewayEvent} {reply : Reply}

theorem Received.receive (h : Received events reply) :
    Received (events ++ [event]) (reply.receive event) := by
  obtain ⟨hparts, htext, hstatus⟩ := h
  constructor <;> cases event <;>
    simp [Reply.receive, deltaText, ChatStream.finalText, doneText, isDone, hparts, htext, hstatus]

theorem doneText_of_not_any (h : events.any isDone = false) : doneText events = none := by
  have hnone : events.filterMap finalText = [] := by
    rw [List.filterMap_eq_nil_iff]
    simpa [isDone] using h
  rw [doneText, hnone]
  rfl

theorem Received.settled (h : Received events reply) :
    Settled events (reply.status, reply.finalText.getD (String.join reply.parts)) := by
  rw [h.parts, h.finalText, h.status]
  refine ⟨?_, by simp, rfl⟩
  dsimp only
  split_ifs <;> simp

theorem Received.settled_stopped (h : Received events reply) :
    Settled events (.stopped, String.join reply.parts) ↔ events.any isDone = false := by
  constructor
  · intro hsettled
    refine Bool.eq_false_iff.2 fun hdone => ?_
    cases hsettled.complete.2 hdone
  · intro hnone
    exact ⟨.inr (.inl rfl), by simp [hnone], by rw [doneText_of_not_any hnone, h.parts]; rfl⟩

theorem not_settled_asCommitted : ¬ Settled events asCommitted := fun h => by
  rcases h.final with h | h | h <;> cases h

namespace Chat

variable {c c' : Chat} {input : Input}

def Settled (c : Chat) : Prop :=
  if c.answerLocally then c.stored = (.complete, notFoundAnswer)
  else ChatStream.Settled c.events c.stored

/-- Interruptions come after the store, or in the loop and before any `done` event. -/
def Harmless : Input → Chat → Prop
  | .interrupt, c => c.point = .last ∨ c.point.inTry = true ∧ c.events.any isDone = false
  | _, _ => True

instance (input : Input) (c : Chat) : Decidable (Harmless input c) := by
  cases input <;> unfold Harmless <;> infer_instance

/-- What holds at each point while nothing is lost. -/
def At (c : Chat) : Point → Prop
  | .unstarted | .message => c.stored = asCommitted
  | .localDelta | .localFinish => c.stored = asCommitted ∧ c.answerLocally = true
  | .gateway | .delta | .finishing => c.stored = asCommitted ∧ c.answerLocally = false
  | .stopping =>
    (c.stored = asCommitted ∧ c.answerLocally = false) ∧ c.events.any isDone = false
  | .last | .ended => c.Settled

/-- Nothing is lost so far. -/
structure Sound (c : Chat) : Prop where
  received : Received c.events c.reply
  holds : c.At c.point

/-- The reply is not settled, and will not be. -/
structure Lost (c : Chat) : Prop where
  received : Received c.events c.reply
  unsettled : ¬ c.Settled
  ending : c.point = .ended
    ∨ c.point = .stopping ∧ c.answerLocally = false ∧ c.events.any isDone = true

theorem not_settled_of_stored (h : c.stored = asCommitted) : ¬ c.Settled := by
  rw [Settled, h]
  split_ifs
  · decide
  · exact not_settled_asCommitted

theorem settled_of_gateway (hgateway : c.answerLocally = false)
    (h : ChatStream.Settled c.events c.stored) : c.Settled := by
  rwa [Settled, if_neg (Bool.eq_false_iff.1 hgateway)]

theorem Sound.of_inTry (h : c.Sound) (htry : c.point.inTry = true) :
    c.stored = asCommitted ∧ c.answerLocally = false := by
  obtain ⟨-, hat⟩ := h
  generalize c.point = p at *
  cases p with
  | gateway | delta => exact hat
  | _ => cases htry

theorem Sound.stored (h : c.Sound) (hlast : c.point ≠ .last) (hended : c.point ≠ .ended) :
    c.stored = asCommitted := by
  obtain ⟨-, hat⟩ := h
  generalize c.point = p at *
  cases p with
  | unstarted | message => exact hat
  | localDelta | localFinish | gateway | delta | finishing => exact hat.1
  | stopping => exact hat.1.1
  | last => exact absurd rfl hlast
  | ended => exact absurd rfl hended

theorem Sound.resume (h : c.Sound) (hstep : c.resume = some c') : c'.Sound := by
  obtain ⟨hreceived, hat⟩ := h
  unfold Chat.resume at hstep
  generalize c.point = p at *
  cases p with
  | unstarted | last =>
    obtain rfl := Option.some.inj hstep
    exact ⟨hreceived, hat⟩
  | message =>
    obtain rfl := Option.some.inj hstep
    refine ⟨hreceived, ?_⟩
    dsimp only
    split_ifs with hlocal
    · exact ⟨hat, hlocal⟩
    · exact ⟨hat, Bool.eq_false_iff.2 hlocal⟩
  | localDelta | delta =>
    obtain rfl := Option.some.inj hstep
    exact ⟨hreceived, hat⟩
  | localFinish =>
    obtain rfl := Option.some.inj hstep
    exact ⟨hreceived, (if_pos hat.2).mpr rfl⟩
  | stopping =>
    obtain rfl := Option.some.inj hstep
    exact ⟨hreceived, settled_of_gateway hat.1.2 (hreceived.settled_stopped.2 hat.2)⟩
  | finishing =>
    obtain rfl := Option.some.inj hstep
    exact ⟨hreceived, settled_of_gateway hat.2 hreceived.settled⟩
  | gateway | ended => cases hstep

theorem Sound.interrupt (h : c.Sound) (hharmless : Harmless .interrupt c)
    (hstep : c.step .interrupt = some c') : c'.Sound := by
  obtain ⟨-, hthen⟩ := Option.ite_none_left_eq_some.1 hstep
  obtain rfl := Option.some.inj hthen
  refine ⟨h.received, ?_⟩
  rcases hharmless with hlast | ⟨htry, hnone⟩
  · have hat := h.holds
    rw [hlast] at hat
    rw [hlast]
    exact hat
  · have hstored := h.of_inTry htry
    dsimp only
    rw [if_pos htry]
    exact ⟨hstored, hnone⟩

theorem Sound.step (h : c.Sound) (hharmless : Harmless input c) (hstep : c.step input = some c') :
    c'.Sound := by
  cases input with
  | resume => exact h.resume hstep
  | interrupt => exact h.interrupt hharmless hstep
  | event event =>
    obtain ⟨hpoint, hthen⟩ := Option.ite_none_right_eq_some.1 hstep
    obtain rfl := Option.some.inj hthen
    have hat := h.of_inTry (by rw [hpoint]; rfl)
    refine ⟨h.received.receive, ?_⟩
    cases event <;> exact hat
  | exhausted | platformError =>
    obtain ⟨hpoint, hthen⟩ := Option.ite_none_right_eq_some.1 hstep
    obtain rfl := Option.some.inj hthen
    exact ⟨h.received, h.of_inTry (by rw [hpoint]; rfl)⟩

/-- A harmful interruption loses the reply. -/
theorem Sound.lost (h : c.Sound) (hharm : ¬ Harmless input c) (hstep : c.step input = some c') :
    c'.Lost := by
  cases input with
  | interrupt =>
    obtain ⟨hended, hthen⟩ := Option.ite_none_left_eq_some.1 hstep
    obtain rfl := Option.some.inj hthen
    obtain ⟨hlast, hdone⟩ := not_or.1 hharm
    refine ⟨h.received, not_settled_of_stored (h.stored hlast hended), ?_⟩
    dsimp only
    split_ifs with htry
    · refine .inr ⟨rfl, (h.of_inTry htry).2, ?_⟩
      exact Bool.eq_true_of_not_eq_false fun hnone => hdone ⟨htry, hnone⟩
    · exact .inl rfl
  | resume | event | exhausted | platformError => exact absurd trivial hharm

/-- The handler makes of a reply that is complete one that is stopped. -/
theorem Lost.step (h : c.Lost) (hstep : c.step input = some c') : c'.Lost := by
  obtain ⟨hreceived, hunsettled, hended | ⟨hstopping, hgateway, hdone⟩⟩ := h
  · cases input <;> simp [Chat.step, Chat.resume, hended] at hstep
  · cases input with
    | resume =>
      simp only [Chat.step, Chat.resume, hstopping, Option.some.injEq] at hstep
      subst hstep
      refine ⟨hreceived, fun hsettled => ?_, .inl rfl⟩
      have hstopped := (if_neg (Bool.eq_false_iff.1 hgateway)).mp hsettled
      rw [hreceived.settled_stopped.1 hstopped] at hdone
      cases hdone
    | interrupt =>
      simp only [Chat.step, hstopping, reduceCtorEq, ↓reduceIte, Option.some.injEq] at hstep
      subst hstep
      exact ⟨hreceived, hunsettled, .inl rfl⟩
    | event | exhausted | platformError => simp [Chat.step, hstopping] at hstep

end Chat

open Chat

theorem settled_iff_of_sound : ∀ (inputs : List Input) {c c' : Chat}, c.Sound →
    stream.run inputs c = some c' → c'.point = .ended →
      (c'.Settled ↔ stream.Meets Harmless inputs c)
  | [], c, c', h, hrun, hended => by
    obtain rfl := Option.some.inj hrun
    have hat := h.holds
    rw [hended] at hat
    exact iff_of_true hat trivial
  | input :: inputs, c, c', h, hrun, hended => by
    obtain ⟨u, hstep, hrest⟩ := Machine.run_cons.1 hrun
    rw [Machine.meets_cons hstep]
    by_cases hharmless : Harmless input c
    · rw [settled_iff_of_sound inputs (h.step hharmless hstep) hrest hended]
      exact (and_iff_right hharmless).symm
    · have hlost : c'.Lost := Machine.run_keeps (I := Lost)
        (fun _ _ _ hlost hnext => hlost.step hnext) inputs (h.lost hharmless hstep) hrest
      exact iff_of_false hlost.unsettled fun hmeets => hharmless hmeets.1

/-- However a request runs to its end, its reply is settled iff each interruption comes after the
store, or in the loop and before any `done` event. -/
theorem settled_iff (answerLocally : Bool) (inputs : List Input) {c : Chat}
    (hrun : stream.run inputs { answerLocally } = some c) (hended : c.point = .ended) :
    c.Settled ↔ stream.Meets Harmless inputs { answerLocally } :=
  settled_iff_of_sound inputs ⟨⟨rfl, rfl, rfl⟩, rfl⟩ hrun hended

/-- The client closes in the loop, before any `done` event. -/
theorem settled_iff_stopped : Chat.Settled
    ⟨false, .ended, ⟨["Hi"], .failed, none⟩, (.stopped, "Hi"), [.delta "Hi"]⟩ :=
  (settled_iff false [.resume, .resume, .event (.delta "Hi"), .interrupt, .resume] rfl rfl).2
    (by decide)

/-- The client is gone before the first event is consumed; and it closes once the `done` event is
there, which stores a complete reply as stopped. -/
theorem not_settled :
    (∃ c, stream.run [.interrupt] { answerLocally := false } = some c
      ∧ c.point = .ended ∧ c.stored.1 = .streaming)
    ∧ ∃ c, stream.run [.resume, .resume, .event (.delta "Hi"), .resume,
        .event (.done (some "Hi.")), .interrupt, .resume] { answerLocally := false } = some c
      ∧ c.point = .ended ∧ ¬ ChatStream.Settled c.events c.stored :=
  ⟨⟨_, rfl, rfl, rfl⟩, _, rfl, rfl, fun h => by cases h.complete.2 rfl⟩

end ChatStream

end Crewquarters
