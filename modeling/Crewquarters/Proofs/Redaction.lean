import Crewquarters.Redaction
import Crewquarters.Proofs.Idempotency

/-!
# What a completed action replays

`complete_action` stores what redaction leaves of the result, so the result that is replayed is the
one that was sent exactly if redaction leaves it alone: no text in it has a bearer token or a phone
number, and no key in it looks secret.
-/

namespace Crewquarters

open List Option Matcher

variable (D : Digits)

def cleanText (value : String) : Bool :=
  !bearerAt.occurs value.toList && !(phoneAt D).occurs value.toList

def isMask : Json → Bool
  | .str s => s = "[REDACTED]"
  | _ => false

mutual

/-- All texts are clean, and the keys that look secret have the value that stands for one. -/
def clean : Json → Bool
  | .obj kvs => cleanFields kvs
  | .arr xs => cleanItems xs
  | .str s => cleanText D s
  | .null | .bool _ | .num _ => true

def cleanItems : List Json → Bool
  | [] => true
  | x :: xs => clean x && cleanItems xs

def cleanFields : List (String × Json) → Bool
  | [] => true
  | (k, v) :: kvs =>
    (if secretKey k then isMask v else clean v) && cleanFields kvs

end

variable {D}
variable {a c : Char} {cs : List Char} {n : ℕ}

def tally (a : Char) (cs : List Char) : ℤ := cs.count a

theorem tally_append (a : Char) (xs ys : List Char) :
    tally a (xs ++ ys) = tally a xs + tally a ys := by
  simp [tally]

theorem tally_eq_zero (h : a ∉ cs) : tally a cs = 0 := by
  simp [tally, count_eq_zero_of_not_mem h]

theorem afterWord_eq_some : ∀ {word cs rest : List Char},
    afterWord word cs = some rest → (∀ letter ∈ word, ignoringCase letter a = false) →
    a ∉ cs.take word.length ∧ cs.drop word.length = rest
  | [], cs, rest, h, _ => by
    obtain rfl := some.inj h
    simp
  | _ :: _, [], _, h, _ => absurd h nofun
  | letter :: word, c :: cs, rest, h, ha => by
    simp only [afterWord] at h
    split_ifs at h with hc
    obtain ⟨hnot, hdrop⟩ := afterWord_eq_some h fun l hl => ha l (mem_cons_of_mem _ hl)
    refine ⟨?_, hdrop⟩
    rw [length_cons, take_succ_cons, mem_cons, not_or]
    refine ⟨?_, hnot⟩
    rintro rfl
    rw [ha letter mem_cons_self] at hc
    exact absurd hc nofun

theorem not_mem_takeWhile {p : Char → Bool} (ha : p a = false) (cs : List Char) :
    a ∉ cs.takeWhile p := by
  intro h
  rw [all_eq_true.1 all_takeWhile a h] at ha
  exact absurd ha nofun

theorem bearerAt_bracket (h : bearerAt (c :: cs) = some n) : '[' ∉ c :: cs.take n := by
  obtain ⟨rest, hrest, hthen⟩ := bind_eq_some_iff.1 h
  obtain ⟨hword, hdrop⟩ := afterWord_eq_some (a := '[') hrest (by simp [ignoringCase])
  dsimp only at hthen
  split_ifs at hthen
  obtain rfl := some.inj hthen
  set spaces := rest.takeWhile isSpace with hspaces
  set token := (rest.drop spaces.length).takeWhile tokenChar with htoken
  have hlength : 5 + spaces.length + token.length + 1
      = "bearer".toList.length + (spaces.length + token.length) := by
    have hword : "bearer".toList.length = 6 := by decide
    omega
  have hparts : c :: cs.take (5 + spaces.length + token.length)
      = (c :: cs).take "bearer".toList.length ++ (spaces ++ token) := by
    rw [← take_succ_cons, hlength, take_add, hdrop, take_add, hspaces,
      take_takeWhile, ← hspaces, htoken, take_takeWhile]
  rw [hparts, mem_append, mem_append, not_or, not_or]
  exact ⟨hword, not_mem_takeWhile (by decide) rest,
    not_mem_takeWhile (by decide) _⟩

theorem Digits.not_decimal (hascii : c.toNat < 128) (h : c.isDigit = false) : D.decimal c = false :=
  (D.ascii c hascii).trans h

theorem phoneAt_eq_some (h : phoneAt D (c :: cs) = some n) :
    c = '+' ∧ ∀ x ∈ cs.take n, D.decimal x = true := by
  unfold phoneAt at h
  split at h
  · rename_i rest heq
    obtain ⟨rfl, rfl⟩ := cons.inj heq
    dsimp only at h
    split_ifs at h
    obtain rfl := some.inj h
    refine ⟨rfl, fun x hx => ?_⟩
    have htaken := take_prefix 15 (cs.takeWhile D.decimal)
    have hwhile := takeWhile_prefix D.decimal (l := cs)
    rw [← prefix_iff_eq_take.1 (htaken.trans hwhile)] at hx
    exact all_eq_true.1 all_takeWhile x (mem_of_mem_take hx)
  · exact absurd h nofun

theorem not_mem_maskPhone (ha : D.decimal a = false) (hstar : a ≠ '*') (value : List Char) :
    a ∉ maskPhone D value := by
  have hstars : a ∉ "***".toList := by
    rw [show "***".toList = ['*', '*', '*'] by decide]
    simp [hstar]
  unfold maskPhone
  dsimp only
  split_ifs
  · rw [mem_append, not_or]
    refine ⟨hstars, fun h => ?_⟩
    rw [(mem_filter.1 (mem_of_mem_drop h)).2] at ha
    exact absurd ha nofun
  · exact hstars

theorem bracket_not_decimal : D.decimal '[' = false := D.not_decimal (by decide) (by decide)

theorem plus_not_decimal : D.decimal '+' = false := D.not_decimal (by decide) (by decide)

theorem phone_bracket (h : phoneAt D (c :: cs) = some n) :
    tally '[' (c :: cs.take n) ≤ tally '[' (maskPhone D (c :: cs.take n)) := by
  obtain ⟨rfl, hdigits⟩ := phoneAt_eq_some h
  have hnot : '[' ∉ '+' :: cs.take n := by
    rw [mem_cons, not_or]
    refine ⟨by decide, fun hmem => ?_⟩
    exact absurd ((hdigits '[' hmem).symm.trans bracket_not_decimal) nofun
  rw [tally_eq_zero hnot, tally_eq_zero (not_mem_maskPhone bracket_not_decimal (by decide) _)]

theorem phone_plus (h : phoneAt D (c :: cs) = some n) :
    -tally '+' (c :: cs.take n) < -tally '+' (maskPhone D (c :: cs.take n)) := by
  obtain ⟨rfl, -⟩ := phoneAt_eq_some h
  rw [tally_eq_zero (not_mem_maskPhone plus_not_decimal (by decide) _), tally,
    count_cons_self]
  push_cast
  linarith [Int.natCast_nonneg (List.count '+' (cs.take n))]

theorem redactText_eq_self_iff (value : String) :
    redactText D value = value ↔ cleanText D value = true := by
  have hbearer : ∀ c cs n, bearerAt (c :: cs) = some n →
      tally '[' (c :: cs.take n) < tally '[' bearerMask := by
    intro c cs n h
    rw [tally_eq_zero (bearerAt_bracket h)]
    decide
  have hplus : ∀ xs ys, -tally '+' (xs ++ ys) = -tally '+' xs + -tally '+' ys := by
    intro xs ys
    rw [tally_append]
    ring
  have hlist : redactText D value = value ↔ (phoneAt D).replace (maskPhone D)
      (bearerAt.replace (fun _ => bearerMask) value.toList) = value.toList := by
    unfold redactText
    constructor
    · intro h
      rw [← String.toList_ofList (l := (phoneAt D).replace _ _), h]
    · intro h
      rw [h, String.ofList_toList]
  rw [hlist, cleanText, Bool.and_eq_true, Bool.not_eq_true', Bool.not_eq_true']
  constructor
  · intro h
    -- a bearer token would leave one bracket more
    have hno : bearerAt.occurs value.toList = false := by
      rw [Bool.eq_false_iff]
      intro hocc
      have hlt : tally '[' value.toList < tally '[' (bearerAt.replace _ value.toList) :=
        measure_lt_replace (f := fun _ => bearerMask) (tally_append '[') hbearer hocc
      have hle := measure_le_replace (tally_append '[') (fun _ _ _ => phone_bracket (D := D))
        (bearerAt.replace (fun _ => bearerMask) value.toList)
      rw [h] at hle
      exact absurd hlt (not_lt.2 hle)
    rw [replace_eq_self hno] at h
    refine ⟨hno, ?_⟩
    exact (replace_eq_self_iff (μ := fun cs => -tally '+' cs) hplus
      fun _ _ _ => phone_plus).1 h
  · rintro ⟨hbearer, hphone⟩
    rw [replace_eq_self hbearer, replace_eq_self hphone]

theorem eq_mask_iff (v : Json) : Json.str "[REDACTED]" = v ↔ isMask v = true := by
  cases v <;> simp [isMask, eq_comm]

mutual

theorem redact_eq_self_iff : ∀ value : Json, redact D value = value ↔ clean D value = true
  | .obj kvs => by
    rw [redact, clean, Json.obj.injEq]
    exact redactFields_eq_self_iff kvs
  | .arr xs => by
    rw [redact, clean, Json.arr.injEq]
    exact redactItems_eq_self_iff xs
  | .str s => by
    rw [redact, clean, Json.str.injEq]
    exact redactText_eq_self_iff s
  | .null => by simp [redact, clean]
  | .bool b => by simp [redact, clean]
  | .num n => by simp [redact, clean]

theorem redactItems_eq_self_iff :
    ∀ xs : List Json, redactItems D xs = xs ↔ cleanItems D xs = true
  | [] => by simp [redactItems, cleanItems]
  | x :: xs => by
    rw [redactItems, cleanItems, cons.injEq, Bool.and_eq_true, redact_eq_self_iff x,
      redactItems_eq_self_iff xs]

theorem redactFields_eq_self_iff :
    ∀ kvs : List (String × Json), redactFields D kvs = kvs ↔ cleanFields D kvs = true
  | [] => by simp [redactFields, cleanFields]
  | (k, v) :: kvs => by
    rw [redactFields, cleanFields, cons.injEq, Bool.and_eq_true, redactFields_eq_self_iff kvs,
      Prod.mk.injEq]
    refine and_congr_left fun _ => ?_
    simp only [true_and]
    split_ifs
    · exact eq_mask_iff v
    · exact redact_eq_self_iff v

end

/-- How an agent's result is stored and read back. -/
structure ResultType (α : Type) where
  encode : α → Json
  decode : Json → Option α

/-- What `once` returns to the agent. -/
def OncePhase.value {α : Type} (T : ResultType α) : OncePhase → Option α
  | .returned result => T.decode (Json.ofOption result)
  | _ => none

/-- A request for the key by the run's current attempt is answered with the encoded value, and
`once` returns the value. -/
def Db.Returns {α : Type} (G : Guards) (T : ResultType α) (v : α) (q : ActionRequest) (db : Db) :
    Prop :=
  ∃ d, db.getRun q.runId = some d ∧ (q.attempt = d.run.currentAttempt →
    ∀ clk, ∃ answer db', db.serve G clk q = .ok (answer, db')
      ∧ answer = .completed (some (T.encode v))
      ∧ (OnceCall.afterClaim (.ok answer)).value T = some v)

namespace OnceState

variable {G : Guards} {settings : Settings}
variable {w : OnceState} {x : ActionReply}

theorem mem_replies_arrive {clk : Clock} {q : ActionRequest} (hx : x ∈ w.replies) :
    x ∈ (w.arrive G clk q).replies := by
  unfold arrive
  split <;> exact mem_append_left _ hx

theorem mem_replies_step {a : OnceAction} {w' : OnceState} (hx : x ∈ w.replies)
    (h : step G settings a w = some w') : x ∈ w'.replies := by
  cases a with
  | platform =>
    obtain ⟨_, -, rfl⟩ := map_eq_some_iff.1 h
    exact hx
  | call =>
    simp only [step] at h
    split_ifs at h
    obtain rfl := some.inj h
    exact hx
  | arrive =>
    obtain ⟨q, -, rfl⟩ := map_eq_some_iff.1 h
    exact mem_replies_arrive hx
  | read =>
    obtain ⟨r, -, h⟩ := bind_eq_some_iff.1 h
    obtain ⟨c, -, h⟩ := bind_eq_some_iff.1 h
    unfold OnceState.read at h
    split at h
    · obtain rfl := some.inj h
      unfold invoke
      split <;> exact hx
    · obtain rfl := some.inj h
      exact hx
    · cases h
  | fnReturns =>
    obtain ⟨c, -, h⟩ := bind_eq_some_iff.1 h
    split at h
    · obtain rfl := some.inj h
      exact hx
    · cases h
  | fail =>
    obtain ⟨c, -, rfl⟩ := map_eq_some_iff.1 h
    exact hx

theorem replays_after {result : Option Json} {w' : OnceState} (hw : Sound w) (hx : x ∈ w.replies)
    (hanswer : x.answer = .ok (.completed result)) {after : List OnceAction}
    (h : (onceSystem G settings).run after w = some w') {p : ActionRequest}
    (hp : p.On x.request.runId x.request.key) : w'.platform.db.Replays G result p := by
  have hkeep : Sound w' ∧ x ∈ w'.replies :=
    Machine.run_keeps (I := fun w : OnceState => Sound w ∧ x ∈ w.replies)
      (fun a u t hu hstep => ⟨hu.1.step hstep, mem_replies_step hu.2 hstep⟩) after ⟨hw, hx⟩ h
  exact hkeep.1.guarded.replayed x hkeep.2 ⟨rfl, rfl⟩ result hanswer p hp

end OnceState

theorem serve_first {G : Guards} {clk : Clock} {q : ActionRequest} {result : Json} {db db' : Db}
    {answer : ActionAnswer} (hbody : q.body = .complete result)
    (hopen : db.Fact q.runId fun d => ∀ a, d.getAction q.key = some a → a.state ≠ .completed)
    (h : db.serve G clk q = .ok (answer, db')) : answer = .completed (some (G.redact result)) := by
  obtain ⟨d, hd, hopen⟩ := hopen
  obtain ⟨d', u, hd', hu, -⟩ := Db.withRun_eq_ok h
  obtain rfl := some.inj (hd.symm.trans hd')
  have hu := raising_eq_ok.1 hu
  rw [hbody] at hu
  obtain ⟨-, a, ha, ⟨hdone, -⟩ | ⟨-, rfl, -⟩⟩ := completeAction_cases hu
  · exact absurd hdone (hopen a ha)
  · rfl

section Replay

variable {α : Type} {T : ResultType α} {v : α} {G : Guards} {db : Db} {q : ActionRequest}

theorem returns_of_replays (hround : T.decode (T.encode v) = some v)
    (h : db.Replays G (some (T.encode v)) q) : db.Returns G T v q := by
  obtain ⟨d, hd, hserve⟩ := h
  refine ⟨d, hd, fun hcur clk => ?_⟩
  have hserve := hserve clk
  rw [if_pos hcur] at hserve
  obtain ⟨db', hok⟩ := hserve
  exact ⟨_, db', hok, rfl, hround⟩

theorem decode_of_returns (hcur : db.Fact q.runId fun d => d.run.currentAttempt = q.attempt)
    (h : db.Returns G T v q) : T.decode (T.encode v) = some v := by
  obtain ⟨d, hd, hreturns⟩ := h
  obtain ⟨d', hd', hcur⟩ := hcur
  obtain rfl := some.inj (hd.symm.trans hd')
  obtain ⟨answer, db', -, rfl, hvalue⟩ := hreturns hcur.symm fun _ => 0
  exact hvalue

/-- A key that was first completed with a value replays it, in the answer and from then on, exactly
if redaction leaves its encoding alone and the result type reads it back. -/
theorem replays_value_iff (D : Digits) (hredact : G.redact = redact D) {settings : Settings}
    {before : List OnceAction} {w : OnceState} {i : ℕ} {clk : Clock} {answer : ActionAnswer}
    {db' : Db} (hw : (onceSystem G settings).run before OnceState.init = some w)
    (hq : w.sent[i]? = some q) (hbody : q.body = .complete (T.encode v))
    (hopen : w.platform.db.Fact q.runId fun d =>
      ∀ a, d.getAction q.key = some a → a.state ≠ .completed)
    (hserve : w.platform.db.serve G clk q = .ok (answer, db')) :
    (answer = .completed (some (T.encode v))
      ∧ ∀ after w', (onceSystem G settings).run (.arrive i clk :: after) w = some w' →
        ∀ p : ActionRequest, p.On q.runId q.key → w'.platform.db.Returns G T v p)
    ↔ clean D (T.encode v) = true ∧ T.decode (T.encode v) = some v := by
  have hsound : OnceState.Sound w :=
    Machine.run_keeps (fun a u t hu hstep => hu.step hstep) before .init hw
  have harrive : (onceSystem G settings).step (.arrive i clk) w = some (w.arrive G clk q) := by
    change w.sent[i]?.map _ = _
    rw [hq]
    rfl
  have hmem : (⟨q, .ok answer⟩ : ActionReply) ∈ (w.arrive G clk q).replies := by
    unfold OnceState.arrive
    rw [hserve]
    exact mem_append_right _ mem_cons_self
  have hanswer := serve_first hbody hopen hserve
  rw [hredact] at hanswer
  rw [← redact_eq_self_iff]
  constructor
  · rintro ⟨hfirst, hlater⟩
    rw [hfirst] at hanswer
    refine ⟨(some.inj (ActionAnswer.completed.inj hanswer)).symm, ?_⟩
    have hdb : (w.arrive G clk q).platform.db = db' := by
      unfold OnceState.arrive
      rw [hserve]
    -- the next claim of the current attempt returns the value
    obtain ⟨d, u, hd, rfl, hturn, -, -⟩ := serve_spec hserve
    have hfact := System.fact_store (P := fun d => d.run.currentAttempt = u.run.currentAttempt) hd
      hturn.kept.id rfl
    have hreturns := hlater [] _ (Machine.run_cons.2 ⟨_, harrive, rfl⟩)
      ⟨q.token, q.runId, u.run.currentAttempt, q.key, .claim⟩ ⟨rfl, rfl⟩
    rw [hdb] at hreturns
    exact decode_of_returns hfact hreturns
  · rintro ⟨hclean, hround⟩
    rw [hclean] at hanswer
    refine ⟨hanswer, fun after w' hrun p hp => returns_of_replays hround ?_⟩
    obtain ⟨u, hu, hafter⟩ := Machine.run_cons.1 hrun
    obtain rfl := some.inj (harrive.symm.trans hu)
    exact OnceState.replays_after (hsound.arrive (mem_of_getElem? hq)) hmem
      (congrArg Except.ok hanswer) hafter hp

end Replay

def redactingGuards : Guards := { plainGuards with redact := redact asciiDigits }

def textResult : ResultType String where
  encode := .str
  decode
    | .str s => some s
    | _ => none

def actOnce (value : String) : List OnceAction :=
  [.platform (.client (fun _ => 0) createPlain), .platform (.claim "w" [] 0), .platform (go 0 0),
    .call "first" 0 1 "call", .arrive 0 (fun _ => 0), .read 0, .fnReturns "first" (.str value)]

/-- The key is completed, the run fails, and its second attempt calls `once` with the key again. -/
def actAgain : List OnceAction :=
  [.arrive 1 (fun _ => 0), .read 1,
    .platform (.client (fun _ => 0) (.call 0 (.failRun "AGENT_ERROR" "" true false []))),
    .platform (.client (fun _ => 0) (.call 0 .retry)), .call "second" 0 2 "call",
    .arrive 2 (fun _ => 0), .read 2]

/-- The first attempt returned the number it called; the second gets a masked one. -/
theorem number_masked :
    ((onceSystem redactingGuards plainSettings).run (actOnce "called +15550104567" ++ actAgain)
      OnceState.init).map (fun w => w.calls.map fun c => c.phase.value textResult)
      = some [some "called +15550104567", some "called ***4567"] := by
  decide

/-- What `actOnce` comes to: the second request completes a key that is not completed yet. -/
def Completing (value : String) (w : OnceState) : Prop :=
  w.sent[1]? = some ⟨"first", 0, 1, "call", .complete (.str value)⟩
    ∧ ((w.platform.db.getRun 0).bind fun d => (d.getAction "call").map IdempotencyAction.state)
      = some .claimed
    ∧ ∃ answer db', w.platform.db.serve redactingGuards (fun _ => 0)
      ⟨"first", 0, 1, "call", .complete (.str value)⟩ = .ok (answer, db')

/-- A text without a number comes back. -/
theorem plain_replayed : ∃ w q answer db',
    (onceSystem redactingGuards plainSettings).run (actOnce "sent") OnceState.init = some w
    ∧ w.sent[1]? = some q ∧ w.platform.db.serve redactingGuards (fun _ => 0) q = .ok (answer, db')
    ∧ answer = .completed (some (.str "sent"))
    ∧ ∀ after w', (onceSystem redactingGuards plainSettings).run (.arrive 1 (fun _ => 0) :: after) w
        = some w' → ∀ p : ActionRequest, p.On q.runId q.key →
          w'.platform.db.Returns redactingGuards textResult "sent" p := by
  obtain ⟨w, hw, hq, hclaimed, answer, db', hserve⟩ : ∃ w, (onceSystem redactingGuards
      plainSettings).run (actOnce "sent") OnceState.init = some w ∧ Completing "sent" w :=
    ⟨_, rfl, rfl, rfl, _, _, rfl⟩
  have hopen : w.platform.db.Fact 0 fun d => ∀ a, d.getAction "call" = some a →
      a.state ≠ .completed := by
    obtain ⟨d, hd, hstate⟩ := bind_eq_some_iff.1 hclaimed
    refine ⟨d, hd, fun a ha => ?_⟩
    rw [ha] at hstate
    rw [some.inj hstate]
    decide
  have h := (replays_value_iff asciiDigits rfl hw hq (T := textResult) (v := "sent") rfl hopen
    hserve).2 ⟨by decide, rfl⟩
  exact ⟨w, _, answer, db', hw, hq, hserve, h⟩

end Crewquarters
