import Crewquarters.Callbacks

/-!
# What the callbacks of a call make of its row

A state is never left for one that does not advance it, so the state of a row is one of those it was
told, and none of them advances it (`Topmost`). That leaves one state for each set of statuses with
at most one terminal status, in whatever order they came.
-/

namespace Crewquarters

open List Option Table CallState TelephonyCall

namespace CallState

variable {x y z : CallState}

def level (x : CallState) : ℤ := if x.terminal then 5 else x.rank.getD (-1)

def twilio : CallState → Bool
  | queued | initiated | ringing | inProgress | completed | busy | noAnswer | failed | canceled =>
    true
  | creating | inDoubt | other _ => false

theorem advances_iff : x.advances y = true ↔ x.terminal = false ∧ y ≠ other ""
    ∧ (y.terminal = true ∨ x.rank.getD 0 < y.rank.getD (-1)) := by
  unfold advances
  split_ifs with h₁ h₂
  · simp only [Bool.or_eq_true, decide_eq_true_eq] at h₁
    simp only [false_iff, not_and, ne_eq]
    rintro hx hy
    rcases h₁ with h | h
    · simp [h] at hx
    · exact absurd h hy
  · simp only [Bool.or_eq_true, decide_eq_true_eq, not_or, Bool.not_eq_true] at h₁
    simp [h₁, h₂]
  · simp only [Bool.or_eq_true, decide_eq_true_eq, not_or, Bool.not_eq_true] at h₁
    simp [h₁, h₂]

theorem rank_getD_le (x : CallState) : x.rank.getD (-1) ≤ x.rank.getD 0 := by
  cases x <;> simp [rank]

theorem rank_getD_nonneg (x : CallState) : 0 ≤ x.rank.getD 0 := by
  cases x <;> simp [rank]

theorem not_advances_self (x : CallState) : x.advances x = false := by
  cases x <;> simp [advances, terminal, rank]

theorem not_advances_of_advances (h : x.advances y = true) (hz : x.advances z = false) :
    y.advances z = false := by
  obtain ⟨hx, -, hxy⟩ := advances_iff.1 h
  rw [Bool.eq_false_iff] at hz ⊢
  intro hyz
  obtain ⟨hy, hne, hlt⟩ := advances_iff.1 hyz
  refine hz (advances_iff.2 ⟨hx, hne, hlt.imp_right fun hlt => ?_⟩)
  have hxy' : x.rank.getD 0 < y.rank.getD (-1) := hxy.resolve_left (by simp [hy])
  exact (hxy'.trans_le y.rank_getD_le).trans hlt

theorem level_le_of_advances (h : x.advances y = true) : x.level ≤ y.level := by
  obtain ⟨hx, -, hxy⟩ := advances_iff.1 h
  have hlevel : x.level = x.rank.getD (-1) := by simp [level, hx]
  rw [hlevel, level]
  split_ifs with hy
  · cases x <;> simp [rank]
  · exact (x.rank_getD_le.trans_lt (hxy.resolve_left hy)).le

theorem advances_of_twilio (h : y.twilio = true) : creating.advances y = true := by
  cases y <;> simp_all [twilio, advances, terminal, rank]

theorem not_advances_queued (h : y.twilio = true) : y.advances queued = false := by
  cases y <;> simp_all [twilio, advances, terminal, rank]

theorem eq_of_rank (hx : 1 ≤ x.rank.getD 0) (h : x.rank.getD 0 = y.rank.getD 0) : x = y := by
  cases x <;> simp [rank] at hx <;> cases y <;> simp [rank] at h <;> rfl

theorem rank_of_not_advances_queued (h : x.advances queued = false) (hx : x.terminal = false) :
    1 ≤ x.rank.getD 0 ∧ x.rank.getD (-1) = x.rank.getD 0 := by
  cases x <;> simp_all [advances, terminal, rank]

theorem eq_of_not_advances (hx : x.advances queued = false) (hy : y.advances queued = false)
    (hxy : x.advances y = false) (hyx : y.advances x = false)
    (hone : x.terminal = true → y.terminal = true → x = y) : x = y := by
  have hterminal : x.terminal = y.terminal := by
    by_contra hne
    rw [Bool.eq_false_iff, ne_eq, advances_iff] at hxy hyx
    cases hxt : x.terminal <;> cases hyt : y.terminal <;> rw [hxt, hyt] at hne
    · exact hne rfl
    · exact hxy ⟨hxt, fun h => by simp [h, terminal] at hyt, .inl hyt⟩
    · exact hyx ⟨hyt, fun h => by simp [h, terminal] at hxt, .inl hxt⟩
    · exact hne rfl
  cases hxt : x.terminal with
  | true => exact hone hxt (hterminal ▸ hxt)
  | false =>
    obtain ⟨hx1, hx2⟩ := rank_of_not_advances_queued hx hxt
    obtain ⟨hy1, hy2⟩ := rank_of_not_advances_queued hy (hterminal ▸ hxt)
    rw [Bool.eq_false_iff, ne_eq, advances_iff] at hxy hyx
    refine eq_of_rank hx1 (le_antisymm ?_ ?_)
    · by_contra hlt
      refine hyx ⟨hterminal ▸ hxt, fun h => ?_, .inr (by omega)⟩
      simp [h, rank] at hx1
    · by_contra hlt
      refine hxy ⟨hxt, fun h => ?_, .inr (by omega)⟩
      simp [h, rank] at hy1

def Topmost (x : CallState) (told : List CallState) : Prop :=
  x ∈ told ∧ ∀ y ∈ told, x.advances y = false

theorem Topmost.tell {told told' : List CallState} (h : x.Topmost told)
    (hmem : ∀ z, z ∈ told' ↔ z = y ∨ z ∈ told) :
    (if x.advances y then y else x).Topmost told' := by
  split_ifs with hxy
  · refine ⟨(hmem y).2 (.inl rfl), fun z hz => ?_⟩
    rcases (hmem z).1 hz with rfl | hz
    · exact not_advances_self _
    · exact not_advances_of_advances hxy (h.2 z hz)
  · refine ⟨(hmem x).2 (.inr h.1), fun z hz => ?_⟩
    rcases (hmem z).1 hz with rfl | hz
    · simpa using hxy
    · exact h.2 z hz

theorem Topmost.eq {told told' : List CallState} (hx : x.Topmost told) (hy : y.Topmost told')
    (hmem : ∀ z, z ∈ told ↔ z ∈ told') (hq : queued ∈ told)
    (hone : ∀ u ∈ told, ∀ v ∈ told, u.terminal = true → v.terminal = true → u = v) : x = y := by
  have hx' := (hmem x).1 hx.1
  have hy' := (hmem y).2 hy.1
  exact eq_of_not_advances (hx.2 _ hq) (hy.2 _ ((hmem _).1 hq)) (hx.2 y hy') (hy.2 x hx')
    (hone x hx.1 y hy')

end CallState

namespace TelephonyCall

variable {c d e : TelephonyCall}

theorem adopt_sid_ne_none {sid : String} : (c.adopt sid).providerSid ≠ none := by
  unfold adopt
  split_ifs with h
  · exact nofun
  · simpa using h

/-- The row never goes back. -/
structure Follows (c d : TelephonyCall) : Prop where
  level : c.state.level ≤ d.state.level
  terminal : c.state.terminal = true → d.state = c.state
  sid : ∀ x, c.providerSid = some x → d.providerSid = some x
  transcript : ∀ x, c.transcript = some x → d.transcript = some x

theorem Follows.refl (c : TelephonyCall) : c.Follows c :=
  ⟨le_rfl, fun _ => rfl, fun _ h => h, fun _ h => h⟩

theorem Follows.trans (h : c.Follows d) (h' : d.Follows e) : c.Follows e where
  level := h.level.trans h'.level
  terminal ht := by
    have hd := h.terminal ht
    rw [h'.terminal (hd ▸ ht), hd]
  sid x hx := h'.sid x (h.sid x hx)
  transcript x hx := h'.transcript x (h.transcript x hx)

theorem Follows.of_advances {new : CallState}
    (hstate : d.state = if c.state.advances new then new else c.state)
    (hsid : ∀ x, c.providerSid = some x → d.providerSid = some x)
    (htranscript : d.transcript = c.transcript) : c.Follows d := by
  refine ⟨?_, fun ht => ?_, hsid, fun x hx => htranscript.trans hx⟩
  · rw [hstate]
    split_ifs with h
    · exact level_le_of_advances h
    · exact le_rfl
  · rw [hstate, if_neg]
    intro h
    simp [(advances_iff.1 h).1] at ht

theorem created_follows (sid : String) (state : CallState) : c.Follows (c.created sid state) :=
  .of_advances rfl (fun x hx => by simp [created, hx]) rfl

theorem reported_state (r : Report) : (c.reported r).state = match r with
    | .status new _ _ => if c.state.advances new then new else c.state
    | .voice | .gather _ => c.state := by
  cases r with
  | voice => rfl
  | gather | status =>
    simp only [reported]
    split_ifs <;> rfl

theorem reported_sid (r : Report) : (c.reported r).providerSid = c.providerSid := by
  cases r with
  | voice => rfl
  | gather | status =>
    simp only [reported]
    split_ifs <;> rfl

theorem reported_follows (r : Report) : c.Follows (c.reported r) := by
  cases r with
  | voice => exact .refl c
  | gather =>
    simp only [reported]
    split_ifs with h
    · refine ⟨le_rfl, fun _ => rfl, fun _ hx => hx, fun x hx => ?_⟩
      simp [hx] at h
    · exact .refl c
  | status =>
    refine .of_advances (reported_state _) (fun x hx => (reported_sid _).trans hx) ?_
    simp only [reported]
    split_ifs <;> rfl

end TelephonyCall

def Report.told : Report → Option CallState
  | status new _ _ => some new
  | voice | gather _ => none

def Report.speech : Report → Option String
  | gather speech => if speech = "" then none else some speech
  | voice | status _ _ _ => none

def DialAnswer.status : DialAnswer → Option CallState
  | accepted _ state => some state
  | rejected | unknown => none

namespace PlacedCall

variable {s t : PlacedCall} {a : PlacedAction} {d : Delivery} {sid : String}

/-- Where a delivery can go on to. -/
inductive Goes (s : PlacedCall) (d : Delivery) : DeliveryPhase → Prop where
  | adopting (at_ : d.phase = .arrived) (adoptable : s.call.adoptable d.callback = true) :
      Goes s d .adopting
  | found (answers : s.call.answersTo d.callback = true) : Goes s d .found
  | refused (at_ : d.phase = .rereading ∨ s.call.adoptable d.callback = false)
      (answers : s.call.answersTo d.callback = false) : Goes s d .refused

/-- Every way a step can go. -/
inductive Did (s : PlacedCall) : PlacedAction → PlacedCall → Prop where
  | recorded {answer taken} (sent : s.create = .sent) :
      Did s (.answer answer taken)
        { s with call := s.call.answered answer, create := .recorded answer }
  | crashed {answer taken} (sent : s.create = .sent)
      (clash : taken = true ∧ answer.accepts = true) :
      Did s (.answer answer taken) { s with create := .crashed }
  | settled {answer} (recorded : s.create = .recorded answer) :
      Did s .settle (tell (s.settled answer) { s with create := .ended answer })
  | arrived {callback} :
      Did s (.arrive callback)
        { s with deliveries := s.deliveries ++ [⟨s.deliveries.length, callback, .arrived⟩] }
  | went {a d phase} (delivery : Table.get Delivery.id d.id s.deliveries = some d)
      (goes : Goes s d phase) : Did s a (s.goto d phase)
  | clashed {d : Delivery} (delivery : Table.get Delivery.id d.id s.deliveries = some d) :
      Did s (.adopt d.id true) (s.goto d .rereading)
  | adopted {d : Delivery} (delivery : Table.get Delivery.id d.id s.deliveries = some d)
      (adopting : d.phase = .adopting) :
      Did s (.adopt d.id false) ((s.setCall (s.call.adopt d.callback.sid)).goto d .rereading)
  | applied {d : Delivery} (delivery : Table.get Delivery.id d.id s.deliveries = some d)
      (found : d.phase = .found) :
      Did s (.apply d.id) { (s.setCall (s.call.reported d.callback.report)).goto d .applied with
        applied := s.applied ++ [d.callback] }
  | told {a answer} (answers : answer = .ok s.call.view ∨ answer = s.call.stored) :
      Did s a (s.tell answer)

theorem did_find (hd : Table.get Delivery.id d.id s.deliveries = some d)
    (hat : d.phase = .rereading ∨ s.call.adoptable d.callback = false) : s.Did a (s.find d) := by
  unfold find
  split_ifs with h
  · exact .went hd (.found h)
  · exact .went hd (.refused hat (by simpa using h))

theorem onDelivery_eq_some {id : ℕ} {phase : DeliveryPhase} {f : Delivery → PlacedCall}
    (h : s.onDelivery id phase f = some t) :
    ∃ d, d.id = id ∧ Table.get Delivery.id d.id s.deliveries = some d ∧ d.phase = phase
      ∧ f d = t := by
  obtain ⟨d, hd, hthen⟩ := bind_eq_some_iff.1 h
  obtain ⟨hphase, hf⟩ := ite_none_right_eq_some.1 hthen
  obtain rfl := get_key hd
  exact ⟨d, rfl, hd, hphase, some.inj hf⟩

theorem did_of_step (h : placement.step a s = some t) : s.Did a t := by
  cases a with
  | answer =>
    simp only [placement, step] at h
    split at h
    · obtain rfl := some.inj h
      unfold record
      split_ifs with hclash
      · simp only [Bool.and_eq_true] at hclash
        exact .crashed ‹_› ⟨hclash.1.1, hclash.2⟩
      · exact .recorded ‹_›
    all_goals exact absurd h nofun
  | settle =>
    simp only [placement, step] at h
    split at h
    · obtain rfl := some.inj h
      exact .settled ‹_›
    all_goals exact absurd h nofun
  | arrive =>
    obtain rfl := some.inj h
    exact .arrived
  | read =>
    obtain ⟨d, rfl, hd, hphase, rfl⟩ := onDelivery_eq_some h
    split_ifs with hadopt
    · exact .went hd (.adopting hphase hadopt)
    · exact did_find hd (.inr (by simpa using hadopt))
  | adopt id taken =>
    obtain ⟨d, rfl, hd, hphase, rfl⟩ := onDelivery_eq_some h
    cases taken with
    | true => exact .clashed hd
    | false => exact .adopted hd hphase
  | reread =>
    obtain ⟨d, rfl, hd, hphase, rfl⟩ := onDelivery_eq_some h
    exact did_find hd (.inl hphase)
  | apply =>
    obtain ⟨d, rfl, hd, hphase, rfl⟩ := onDelivery_eq_some h
    exact .applied hd hphase
  | getCall =>
    obtain rfl := some.inj h
    exact .told (.inl rfl)
  | createCall =>
    obtain rfl := some.inj h
    exact .told (.inr rfl)

@[simp] theorem tell_call (answer : Except PlatformError CallView) :
    (s.tell answer).call = s.call := by
  cases answer <;> rfl

def told (s : PlacedCall) : List CallState :=
  (s.create.answer.bind DialAnswer.status).toList
    ++ s.applied.filterMap fun c => c.report.told

/-- The first speech that a callback reported. -/
def firstSpeech (s : PlacedCall) : Option String :=
  (s.applied.filterMap fun c => c.report.speech).head?

/-- The actions on one placed call: every answer and callback has its CallSid, which no other call
has, the callbacks its number, and Twilio's answer is no rejection. -/
def OfCall (sid : String) : PlacedAction → PlacedCall → Prop
  | .answer (.accepted answered state) taken, _ =>
    answered = sid ∧ state.twilio = true ∧ taken = false
  | .answer .rejected _, _ => False
  | .answer .unknown _, _ => True
  | .arrive c, s => c.sid = sid
    ∧ (last4 c.destination = "" ∨ last4 c.destination = s.call.destinationLast4)
  | .adopt _ taken, _ => taken = false
  | _, _ => True

instance decidableOfCall (sid : String) :
    ∀ (a : PlacedAction) (s : PlacedCall), Decidable (OfCall sid a s)
  | .answer (.accepted _ _) _, _ => inferInstanceAs (Decidable (_ ∧ _ ∧ _))
  | .answer .rejected _, _ => isFalse id
  | .answer .unknown _, _ => isTrue trivial
  | .arrive _, _ => inferInstanceAs (Decidable (_ ∧ (_ ∨ _)))
  | .adopt _ _, _ => inferInstanceAs (Decidable (_ = _))
  | .settle, _ | .read _, _ | .reread _, _ | .apply _, _ | .getCall, _ | .createCall, _ =>
    isTrue trivial

/-- The row of a call whose callbacks are its own: what it says is the topmost of what was told. -/
structure Sound (sid : String) (s : PlacedCall) : Prop where
  ids : s.deliveries.map Delivery.id = List.range s.deliveries.length
  callbacks : ∀ d ∈ s.deliveries, d.callback.sid = sid
    ∧ (last4 d.callback.destination = ""
      ∨ last4 d.callback.destination = s.call.destinationLast4)
  phases : ∀ d ∈ s.deliveries, d.phase ≠ .refused
  early : s.call.providerSid = none → ∀ d ∈ s.deliveries, d.phase = .arrived ∨ d.phase = .adopting
  answer : ∀ answer, s.create.answer = some answer →
    answer = .unknown ∨ ∃ state, answer = .accepted sid state ∧ state.twilio = true
  own : ∀ x, s.call.providerSid = some x → x = sid
  unplaced : s.call.providerSid = none → s.applied = []
    ∧ (s.create.answer = none ∧ s.call.state = .creating
      ∨ s.create.answer = some .unknown ∧ s.call.state = .inDoubt)
  placed : s.call.providerSid ≠ none → s.call.state.Topmost (.queued :: s.told)
  origin : s.call.providerSid ≠ none →
    s.deliveries ≠ [] ∨ ∃ state, s.create.answer = some (.accepted sid state)
  written : ∀ d ∈ s.deliveries, d.phase = .applied → d.callback ∈ s.applied
  delivered : ∀ c ∈ s.applied, c ∈ s.deliveries.map Delivery.callback
  transcript : s.call.transcript = s.firstSpeech

theorem told_sent (hsent : s.create = .sent) :
    s.told = s.applied.filterMap fun c => c.report.told := by
  simp [told, hsent, CreatePhase.answer]

theorem placed_sound (id : ℕ) (runId : RunId) (key last4 sid : String) :
    (placed id runId key last4).Sound sid where
  ids := rfl
  callbacks _ h := absurd h not_mem_nil
  phases _ h := absurd h not_mem_nil
  early _ _ h := absurd h not_mem_nil
  answer _ h := absurd h nofun
  own _ h := absurd h nofun
  unplaced _ := ⟨rfl, .inl ⟨rfl, rfl⟩⟩
  placed h := absurd rfl h
  origin h := absurd rfl h
  written _ h := absurd h not_mem_nil
  delivered _ h := absurd h not_mem_nil
  transcript := rfl

namespace Sound

variable (hs : s.Sound sid)

include hs

theorem nodup : (s.deliveries.map Delivery.id).Nodup := by
  rw [hs.ids]
  exact nodup_range

theorem goto (hd : Table.get Delivery.id d.id s.deliveries = some d) {phase : DeliveryPhase}
    (hphase : phase ≠ .refused) (hwritten : phase = .applied → d.callback ∈ s.applied)
    (hearly : s.call.providerSid = none → phase = .arrived ∨ phase = .adopting) :
    (s.goto d phase).Sound sid := by
  have hmem := get_mem hd
  have hmap : (s.goto d phase).deliveries.map Delivery.callback
      = s.deliveries.map Delivery.callback := map_put_of_eq _ hs.nodup hd rfl
  refine { hs with
    ids := ?_, callbacks := ?_, phases := ?_, early := ?_, origin := ?_, written := ?_,
    delivered := ?_ }
  · have hlen : (s.goto d phase).deliveries.length = s.deliveries.length := length_map ..
    rw [hlen]
    exact (map_key_put _ _).trans hs.ids
  · intro x hx
    rcases mem_put hx with rfl | ⟨hx, -⟩
    · exact hs.callbacks d hmem
    · exact hs.callbacks x hx
  · intro x hx
    rcases mem_put hx with rfl | ⟨hx, -⟩
    · exact hphase
    · exact hs.phases x hx
  · intro hnone x hx
    rcases mem_put hx with rfl | ⟨hx, -⟩
    · exact hearly hnone
    · exact hs.early hnone x hx
  · intro hsome
    refine (hs.origin hsome).imp_left fun hne h => hne ?_
    simpa [PlacedCall.goto, Table.put] using h
  · intro x hx happlied
    rcases mem_put hx with rfl | ⟨hx, -⟩
    · exact hwritten happlied
    · exact hs.written x hx happlied
  · intro c hc
    rw [hmap]
    exact hs.delivered c hc

theorem accepted {state : CallState} (hsent : s.create = .sent) (htwilio : state.twilio = true) :
    Sound sid { s with
      call := s.call.created sid state, create := .recorded (.accepted sid state) } := by
  refine { hs with early := nofun, answer := ?_, own := ?_, unplaced := nofun, placed := ?_,
                   origin := ?_ }
  · rintro answer ⟨⟩
    exact .inr ⟨state, rfl, htwilio⟩
  · rintro x ⟨⟩
    cases hrow : s.call.providerSid with
    | none => rfl
    | some x => exact hs.own x hrow
  · intro _
    have htold := told_sent hsent
    by_cases hrow : s.call.providerSid = none
    · obtain ⟨happlied, hstate⟩ := hs.unplaced hrow
      have hcreating : s.call.state = .creating := by
        rcases hstate with ⟨-, h⟩ | ⟨h, -⟩
        · exact h
        · rw [hsent] at h
          exact absurd h nofun
      have hadv : s.call.state.advances state = true :=
        hcreating ▸ advances_of_twilio htwilio
      simp only [TelephonyCall.created, if_pos hadv, told, CreatePhase.answer, bind_some,
        DialAnswer.status, happlied]
      exact ⟨by simp, by simp [not_advances_queued htwilio, not_advances_self]⟩
    · refine (hs.placed hrow).tell fun z => ?_
      rw [htold]
      simp [told, CreatePhase.answer, DialAnswer.status]
      tauto
  · exact fun _ => .inr ⟨state, rfl⟩

theorem doubted (hsent : s.create = .sent) :
    Sound sid { s with call := s.call.answered .unknown, create := .recorded .unknown } := by
  have htold : told { s with call := s.call.answered .unknown, create := .recorded .unknown }
      = s.told := (told_sent hsent).symm ▸ rfl
  have hanswer : ∀ answer, CreatePhase.answer (.recorded .unknown) = some answer →
      answer = .unknown ∨ ∃ state, answer = .accepted sid state ∧ state.twilio = true := by
    rintro answer ⟨⟩
    exact .inl rfl
  cases hrow : s.call.providerSid with
  | none =>
    have happlied := (hs.unplaced hrow).1
    have hcall : s.call.answered .unknown
        = { s.call with state := .inDoubt, errorCode := some "OUTCOME_UNKNOWN" } := by
      simp [TelephonyCall.answered, hrow]
    rw [hcall]
    exact { hs with
      early := fun _ => hs.early hrow
      answer := hanswer
      unplaced := fun _ => ⟨happlied, .inr ⟨rfl, rfl⟩⟩
      placed := fun h => absurd hrow h
      origin := fun h => absurd hrow h }
  | some =>
    have hsome : s.call.providerSid ≠ none := by simp [hrow]
    have hcall : s.call.answered .unknown = s.call := by simp [TelephonyCall.answered, hrow]
    rw [hcall] at htold ⊢
    refine { hs with answer := hanswer, unplaced := fun h => absurd h hsome, placed := ?_,
                     origin := ?_ }
    · intro _
      rw [htold]
      exact hs.placed hsome
    · intro _
      refine .inl ((hs.origin hsome).resolve_right ?_)
      rintro ⟨state, h⟩
      rw [hsent] at h
      exact absurd h nofun

theorem adopt (hne : s.deliveries ≠ []) : (s.setCall (s.call.adopt sid)).Sound sid := by
  cases hrow : s.call.providerSid with
  | none =>
    have hcall : s.call.adopt sid
        = { s.call with providerSid := some sid, state := .queued, errorCode := none } := by
      simp [TelephonyCall.adopt, hrow]
    rw [hcall]
    obtain ⟨happlied, hanswer⟩ := hs.unplaced hrow
    have htold : s.told = [] := by
      rcases hanswer with ⟨h, -⟩ | ⟨h, -⟩ <;> simp [told, h, happlied, DialAnswer.status]
    refine { hs with early := nofun, own := ?_, unplaced := nofun, placed := ?_,
                     origin := fun _ => .inl hne }
    · rintro x ⟨⟩
      rfl
    · intro _
      refine ⟨mem_cons_self, fun y hy => ?_⟩
      have hq : y = .queued := by
        rcases mem_cons.1 hy with rfl | hy
        · rfl
        · exact absurd (htold ▸ hy) not_mem_nil
      exact hq ▸ not_advances_self _
  | some =>
    have hcall : s.call.adopt sid = s.call := by simp [TelephonyCall.adopt, hrow]
    rw [hcall]
    exact hs

theorem report {c : Callback} (hsome : s.call.providerSid ≠ none)
    (hc : c ∈ s.deliveries.map Delivery.callback) :
    Sound sid { s with call := s.call.reported c.report, applied := s.applied ++ [c] } := by
  have hsid := reported_sid (c := s.call) c.report
  have hlast4 : (s.call.reported c.report).destinationLast4 = s.call.destinationLast4 := by
    cases c.report <;> simp only [TelephonyCall.reported] <;> split_ifs <;> rfl
  refine { hs with
    callbacks := ?_, early := ?_, own := ?_, unplaced := ?_, placed := ?_, origin := ?_,
    written := ?_, delivered := ?_, transcript := ?_ }
  · rw [hlast4]
    exact hs.callbacks
  · rw [hsid]
    exact hs.early
  · rw [hsid]
    exact hs.own
  · rw [hsid]
    exact fun h => absurd h hsome
  · intro _
    have hplaced := hs.placed hsome
    rw [reported_state]
    cases hreport : c.report with
    | voice | gather => simpa [told, hreport, Report.told] using hplaced
    | status =>
      refine hplaced.tell fun z => ?_
      simp only [told, filterMap_append, filterMap_cons, filterMap_nil, hreport,
        Report.told, mem_cons, mem_append]
      tauto
  · rw [hsid]
    exact hs.origin
  · intro x hx happlied
    exact mem_append_left _ (hs.written x hx happlied)
  · intro x hx
    rcases mem_append.1 hx with hx | hx
    · exact hs.delivered x hx
    · exact mem_singleton.1 hx ▸ hc
  · have htranscript := hs.transcript
    simp only [firstSpeech, filterMap_append, filterMap_cons, filterMap_nil,
      head?_append] at htranscript ⊢
    rw [← htranscript]
    cases hreport : c.report with
    | voice => simp [TelephonyCall.reported, Report.speech]
    | gather speech =>
      by_cases hempty : speech = ""
      · simp [TelephonyCall.reported, Report.speech, hempty]
      · cases ht : s.call.transcript <;>
          simp [TelephonyCall.reported, Report.speech, hempty, ht]
    | status =>
      simp only [TelephonyCall.reported, Report.speech]
      split_ifs <;> simp

theorem tell {answer : Except PlatformError CallView} : (s.tell answer).Sound sid := by
  cases answer with
  | error => exact hs
  | ok => exact { hs with }

theorem ended {answer : DialAnswer} (h : s.create = .recorded answer) :
    Sound sid { s with create := .ended answer } := by
  have hanswer : s.create.answer = (CreatePhase.ended answer).answer := by rw [h]; rfl
  have hunplaced := hs.unplaced
  have hplaced := hs.placed
  have horigin := hs.origin
  rw [told] at hplaced
  rw [hanswer] at hunplaced hplaced horigin
  exact { hs with
    answer := fun x hx => hs.answer x (hanswer.trans hx)
    unplaced := hunplaced
    placed := hplaced
    origin := horigin }

theorem arrive {c : Callback} (hok : OfCall sid (.arrive c) s) :
    Sound sid { s with
      deliveries := s.deliveries ++ [⟨s.deliveries.length, c, .arrived⟩] } := by
  refine { hs with
    ids := ?_, callbacks := ?_, phases := ?_, early := ?_, origin := fun _ => .inl (by simp),
    written := ?_, delivered := ?_ }
  · rw [map_append, hs.ids, length_append, length_singleton, range_succ]
    rfl
  · intro d hd
    rcases mem_append.1 hd with hd | hd
    · exact hs.callbacks d hd
    · rw [mem_singleton.1 hd]
      exact hok
  · intro d hd
    rcases mem_append.1 hd with hd | hd
    · exact hs.phases d hd
    · rw [mem_singleton.1 hd]
      exact nofun
  · intro hnone d hd
    rcases mem_append.1 hd with hd | hd
    · exact hs.early hnone d hd
    · rw [mem_singleton.1 hd]
      exact .inl rfl
  · intro d hd happlied
    rcases mem_append.1 hd with hd | hd
    · exact hs.written d hd happlied
    · rw [mem_singleton.1 hd] at happlied
      exact absurd happlied nofun
  · intro x hx
    rw [map_append]
    exact mem_append_left _ (hs.delivered x hx)

theorem not_refused (hsid : callSid sid = true) (hd : d ∈ s.deliveries)
    (hat : d.phase = .rereading ∨ s.call.adoptable d.callback = false) :
    s.call.answersTo d.callback = true := by
  obtain ⟨hown, hfits⟩ := hs.callbacks d hd
  cases hrow : s.call.providerSid with
  | none =>
    -- a row without a CallSid is still open, so the callback would have been adopted
    have hopen : s.call.state = .creating ∨ s.call.state = .inDoubt :=
      (hs.unplaced hrow).2.imp And.right And.right
    have hadopt : s.call.adoptable d.callback = true := by
      simp [TelephonyCall.adoptable, hrow, hopen, hown, hsid, hfits]
    rcases hat with hat | hat
    · rcases hs.early hrow d hd with h | h <;> rw [hat] at h <;> exact absurd h nofun
    · rw [hadopt] at hat
      exact absurd hat nofun
  | some x =>
    have hne : sid ≠ "" := by
      rintro rfl
      exact absurd hsid (by decide)
    simp [TelephonyCall.answersTo, hrow, hs.own x hrow, hown, hne]

theorem step (hsid : callSid sid = true) (hok : OfCall sid a s) (h : placement.step a s = some t) :
    t.Sound sid := by
  cases did_of_step h with
  | @recorded answer taken sent =>
    cases answer with
    | accepted =>
      obtain ⟨rfl, htwilio, -⟩ := hok
      exact hs.accepted sent htwilio
    | rejected => exact hok.elim
    | unknown => exact hs.doubted sent
  | @crashed answer taken sent clash =>
    cases answer with
    | accepted =>
      obtain ⟨-, -, rfl⟩ := hok
      exact absurd clash.1 nofun
    | rejected => exact hok.elim
    | unknown => exact absurd clash.2 nofun
  | settled recorded => exact (hs.ended recorded).tell
  | @arrived callback => exact hs.arrive hok
  | @went _ d phase delivery goes =>
    have hd := get_mem delivery
    cases goes with
    | adopting => exact hs.goto delivery nofun nofun fun _ => .inr rfl
    | found answers =>
      refine hs.goto delivery nofun nofun fun hnone => ?_
      simp [TelephonyCall.answersTo, hnone] at answers
    | refused at_ answers =>
      rw [hs.not_refused hsid hd at_] at answers
      exact absurd answers nofun
  | clashed => exact absurd hok nofun
  | @adopted d delivery =>
    have hd := get_mem delivery
    obtain ⟨hown, -⟩ := hs.callbacks d hd
    rw [hown]
    refine (hs.adopt (ne_nil_of_mem hd)).goto delivery nofun nofun fun hnone => ?_
    exact absurd hnone adopt_sid_ne_none
  | @applied d delivery found =>
    have hd := get_mem delivery
    have hsome : s.call.providerSid ≠ none := fun hnone => by
      rcases hs.early hnone d hd with h | h <;> rw [found] at h <;> exact absurd h nofun
    have hreport := hs.report hsome (mem_map_of_mem hd)
    refine hreport.goto delivery nofun (fun _ => ?_) fun hnone => ?_
    · exact mem_append_right _ (mem_singleton_self _)
    · exact absurd ((reported_sid _).symm.trans hnone) hsome
  | told => exact hs.tell

theorem follows (hok : OfCall sid a s) (h : placement.step a s = some t) :
    s.call.Follows t.call := by
  have hopen : s.call.providerSid = none →
      s.call.state.terminal = false ∧ s.call.state.level ≤ 0 := by
    intro hnone
    rcases (hs.unplaced hnone).2 with ⟨-, h⟩ | ⟨-, h⟩ <;> rw [h] <;> decide
  cases did_of_step h with
  | @recorded answer taken sent =>
    cases answer with
    | accepted => exact created_follows _ _
    | rejected => exact hok.elim
    | unknown =>
      simp only [TelephonyCall.answered]
      split_ifs with hrow
      · obtain ⟨hterminal, hlevel⟩ := hopen (by simpa using hrow)
        refine ⟨hlevel, fun h => ?_, fun _ hx => hx, fun _ hx => hx⟩
        rw [hterminal] at h
        exact absurd h nofun
      · exact .refl _
  | @adopted d delivery =>
    change s.call.Follows (s.call.adopt d.callback.sid)
    unfold TelephonyCall.adopt
    split_ifs with hrow
    · have hnone : s.call.providerSid = none := by simpa using hrow
      obtain ⟨hterminal, hlevel⟩ := hopen hnone
      have hqueued : (0 : ℤ) ≤ CallState.queued.level := by decide
      refine ⟨hlevel.trans hqueued, fun h => ?_, fun x hx => ?_, fun _ hx => hx⟩
      · rw [hterminal] at h
        exact absurd h nofun
      · rw [hnone] at hx
        exact absurd hx nofun
    · exact .refl _
  | applied => exact reported_follows _
  | settled | told =>
    rw [tell_call]
    exact .refl _
  | crashed | arrived | went | clashed => exact .refl _

end Sound

/-- Every callback that came has been written or refused, and the create request has its answer. -/
def Complete (s : PlacedCall) : Prop :=
  s.create.answer ≠ none ∧ ∀ d ∈ s.deliveries, d.phase = .applied ∨ d.phase = .refused

/-- The statuses of the create answer and of the callbacks that came. -/
def statuses (s : PlacedCall) : List CallState :=
  (s.create.answer.bind DialAnswer.status).toList
    ++ s.deliveries.filterMap fun d => d.callback.report.told

theorem Sound.told_iff (hs : s.Sound sid) (hc : s.Complete) (x : CallState) :
    x ∈ s.told ↔ x ∈ s.statuses := by
  have happlied : ∀ c, c ∈ s.applied ↔ ∃ d ∈ s.deliveries, d.callback = c := by
    refine fun c => ⟨fun h => mem_map.1 (hs.delivered c h), ?_⟩
    rintro ⟨d, hd, rfl⟩
    exact hs.written d hd ((hc.2 d hd).resolve_right (hs.phases d hd))
  simp only [told, statuses, mem_append, mem_filterMap, happlied]
  refine or_congr_right ⟨?_, ?_⟩
  · rintro ⟨c, ⟨d, hd, rfl⟩, h⟩
    exact ⟨d, hd, h⟩
  · rintro ⟨d, hd, h⟩
    exact ⟨_, ⟨d, hd, rfl⟩, h⟩

/-- A complete call has no CallSid if nothing came and the outcome of the create request is
unknown. -/
theorem Sound.unplaced_iff (hs : s.Sound sid) (hc : s.Complete) : s.call.providerSid = none ↔
    s.deliveries.map Delivery.callback = [] ∧ s.create.answer = some .unknown := by
  rw [map_eq_nil_iff]
  constructor
  · intro hrow
    refine ⟨eq_nil_iff_forall_not_mem.2 fun d hd => ?_, ?_⟩
    · rcases hc.2 d hd with h | h <;> rcases hs.early hrow d hd with h' | h' <;>
        rw [h] at h' <;> exact absurd h' nofun
    · exact ((hs.unplaced hrow).2.resolve_left fun h => hc.1 h.1).1
  · rintro ⟨hempty, hunknown⟩
    by_contra hsome
    rcases hs.origin hsome with h | ⟨state, h⟩
    · exact h hempty
    · rw [hunknown] at h
      exact absurd h nofun

theorem Sound.state_eq (hs : s.Sound sid) (ht : t.Sound sid) (hcs : s.Complete) (hct : t.Complete)
    (hanswer : s.create.answer = t.create.answer)
    (hsame : (s.deliveries.map Delivery.callback).Perm (t.deliveries.map Delivery.callback))
    (hone : ∀ x ∈ s.statuses, ∀ y ∈ s.statuses, x.terminal = true → y.terminal = true → x = y) :
    s.call.state = t.call.state := by
  have hiff : s.call.providerSid = none ↔ t.call.providerSid = none := by
    rw [hs.unplaced_iff hcs, ht.unplaced_iff hct, hanswer]
    refine and_congr_left fun _ => ⟨fun h => ?_, fun h => ?_⟩
    · rw [h] at hsame
      exact hsame.nil_eq.symm
    · rw [h] at hsame
      exact hsame.eq_nil
  have hstatuses : ∀ x, x ∈ s.statuses ↔ x ∈ t.statuses := by
    have hmap : ∀ u : PlacedCall, (u.deliveries.filterMap fun d => d.callback.report.told)
        = (u.deliveries.map Delivery.callback).filterMap fun c => c.report.told := by
      intro u
      rw [filterMap_map]
      rfl
    intro x
    simp only [statuses, hanswer, hmap, mem_append]
    exact or_congr_right (hsame.filterMap _).mem_iff
  by_cases hrow : s.call.providerSid = none
  · have hs' := (hs.unplaced hrow).2.resolve_left fun h => hcs.1 h.1
    have ht' := (ht.unplaced (hiff.1 hrow)).2.resolve_left fun h => hct.1 h.1
    rw [hs'.2, ht'.2]
  · refine (hs.placed hrow).eq (ht.placed (mt hiff.2 hrow)) (fun x => ?_) mem_cons_self ?_
    · rw [mem_cons, mem_cons, hs.told_iff hcs, ht.told_iff hct, hstatuses]
    · intro x hx y hy hxt hyt
      have hmem : ∀ z ∈ CallState.queued :: s.told, z.terminal = true → z ∈ s.statuses := by
        intro z hz hzt
        rcases mem_cons.1 hz with rfl | hz
        · exact absurd hzt nofun
        · exact (hs.told_iff hcs z).1 hz
      exact hone x (hmem x hx hxt) y (hmem y hy hyt) hxt hyt

/-- Along every run of one placed call the row never goes back and keeps the first speech, and every
order of the same answer and callbacks ends in the same state. -/
theorem status_converges (sid : String) (hsid : callSid sid = true) (id : ℕ) (runId : RunId)
    (key last4 : String) :
    (∀ as bs s t, placement.Meets (OfCall sid) (as ++ bs) (placed id runId key last4) →
      placement.run as (placed id runId key last4) = some s → placement.run bs s = some t →
      s.call.Follows t.call ∧ t.call.transcript = t.firstSpeech)
    ∧ ∀ as bs s t, placement.Meets (OfCall sid) as (placed id runId key last4) →
      placement.Meets (OfCall sid) bs (placed id runId key last4) →
      placement.run as (placed id runId key last4) = some s →
      placement.run bs (placed id runId key last4) = some t → s.Complete → t.Complete →
      s.create.answer = t.create.answer →
      (s.deliveries.map Delivery.callback).Perm (t.deliveries.map Delivery.callback) →
      (∀ x ∈ s.statuses, ∀ y ∈ s.statuses, x.terminal = true → y.terminal = true → x = y) →
      s.call.state = t.call.state := by
  have hrun : ∀ as {s t : PlacedCall}, s.Sound sid → placement.Meets (OfCall sid) as s →
      placement.run as s = some t → t.Sound sid ∧ s.call.Follows t.call :=
    Machine.run_relates (R := fun s t : PlacedCall => s.call.Follows t.call)
      (fun s => .refl s.call) (fun h h' => h.trans h')
      (fun _ _ _ hs hok h => ⟨Sound.step hs hsid hok h, Sound.follows hs hok h⟩)
  have hstart := placed_sound id runId key last4 sid
  constructor
  · intro as bs s t hmeets has hbs
    obtain ⟨hmas, hmbs⟩ := hmeets.append has
    obtain ⟨hs, -⟩ := hrun as hstart hmas has
    obtain ⟨ht, hfollows⟩ := hrun bs hs hmbs hbs
    exact ⟨hfollows, ht.transcript⟩
  · intro as bs s t hmas hmbs has hbs hcs hct hanswer hsame hone
    exact (hrun as hstart hmas has).1.state_eq
      (hrun bs hstart hmbs hbs).1 hcs hct hanswer hsame hone

def ringing : Callback :=
  ⟨"CA0123456789abcdef0123456789abcdef", "+15550104567", .status .ringing none none⟩

/-- The callback comes before Twilio's answer to the create request. -/
def ringingFirst : List PlacedAction :=
  [.arrive ringing, .read 0, .adopt 0 false, .reread 0, .apply 0,
    .answer (.accepted ringing.sid .queued) false]

def ringingLast : List PlacedAction :=
  [.answer (.accepted ringing.sid .queued) false, .arrive ringing, .read 0, .apply 0]

theorem ringing_converges : ∃ s t, placement.run ringingFirst (placed 0 0 "call" "4567") = some s
    ∧ placement.run ringingLast (placed 0 0 "call" "4567") = some t
    ∧ s.call.state = t.call.state := by
  have hsid : callSid ringing.sid = true := by decide
  have hconverges :=
    (status_converges ringing.sid hsid 0 0 "call" "4567").2 ringingFirst ringingLast
  have hfirst : placement.Meets (OfCall ringing.sid) ringingFirst (placed 0 0 "call" "4567") := by
    decide
  have hlast : placement.Meets (OfCall ringing.sid) ringingLast (placed 0 0 "call" "4567") := by
    decide
  refine ⟨_, _, rfl, rfl, hconverges _ _ hfirst hlast rfl rfl ⟨nofun, ?_⟩ ⟨nofun, ?_⟩ rfl
    (.refl _) ?_⟩
  · decide
  · decide
  · decide

end PlacedCall

end Crewquarters
