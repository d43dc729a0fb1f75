import Crewquarters.Idempotency
import Crewquarters.Proofs.Steps

/-!
# A guarded effect happens at most once

The row of a key keeps the claim token it was created with, whatever happens to its run
(`ActionsKept`), and only claims with that token are answered `claimed`. Tokens belong to one call
each, and a call invokes `fn` when it reads the first answer to its claim. So of all calls of `once`
with one key of one run at most one invokes `fn`, and it invokes it once.
-/

namespace Crewquarters

open List Option Table

variable {G : Guards} {settings : Settings} {runId : RunId} {key : String}
variable {d d' : RunData} {q : ActionRequest} {db : Db}

def ActionRequest.On (runId : RunId) (key : String) (q : ActionRequest) : Prop :=
  q.runId = runId ∧ q.key = key

/-- The request is answered `completed` with `result`, or refused if its attempt is not the run's
current one. -/
def Db.Replays (G : Guards) (result : Option Json) (q : ActionRequest) (db : Db) : Prop :=
  ∃ d, db.getRun q.runId = some d
    ∧ ∀ clk, if q.attempt = d.run.currentAttempt
      then ∃ db', db.serve G clk q = .ok (.completed result, db')
      else ∃ e, db.serve G clk q = .error (.platform e) ∧ e.code = "STALE_ATTEMPT"

namespace OnceState

def invocations (runId : RunId) (key : String) (w : OnceState) : List OnceCall :=
  w.invoked.filter fun c => c.runId = runId ∧ c.key = key

/-- One call at most invokes `fn` for the key, and every answer is its result. -/
structure Guarded (G : Guards) (runId : RunId) (key : String) (w : OnceState) : Prop where
  once : (w.invocations runId key).length ≤ 1
  claimant : ∀ x ∈ w.replies, ∀ y ∈ w.replies, x.request.On runId key → y.request.On runId key →
    x.answer = .ok .claimed → y.answer = .ok .claimed → x.request.token = y.request.token
  replayed : ∀ x ∈ w.replies, x.request.On runId key → ∀ result,
    x.answer = .ok (.completed result) →
    ∀ q : ActionRequest, q.On runId key → w.platform.db.Replays G result q

end OnceState

def RunData.getAction (key : String) (d : RunData) : Option IdempotencyAction :=
  Table.get IdempotencyAction.key key d.actions

def ClaimedBy (key token : String) (d : RunData) : Prop :=
  ∃ a, d.getAction key = some a ∧ a.claimToken = some token

def CompletedWith (key : String) (result : Option Json) (d : RunData) : Prop :=
  ∃ a, d.getAction key = some a ∧ a.state = .completed ∧ a.result = result

theorem ClaimedBy.later {token : String} (h : Later d d') (hc : ClaimedBy key token d) :
    ClaimedBy key token d' := by
  obtain ⟨a, ha, htoken⟩ := hc
  obtain ⟨b, hb, htoken', -⟩ := h.actions key a ha
  exact ⟨b, hb, htoken'.trans htoken⟩

theorem CompletedWith.later {result : Option Json} (h : Later d d')
    (hc : CompletedWith key result d) : CompletedWith key result d' := by
  obtain ⟨a, ha, hdone, hresult⟩ := hc
  obtain ⟨b, hb, -, hsame⟩ := h.actions key a ha
  rw [hsame hdone] at hb
  exact ⟨a, hb, hdone, hresult⟩

def Answered (q : ActionRequest) (d : RunData) : ActionAnswer → Prop
  | .claimed => ClaimedBy q.key q.token d
  | .inDoubt => True
  | .completed result => CompletedWith q.key result d

theorem Answered.later {answer : ActionAnswer} (h : Later d d') (ha : Answered q d answer) :
    Answered q d' answer := by
  cases answer with
  | claimed => exact ClaimedBy.later h ha
  | inDoubt => trivial
  | completed => exact CompletedWith.later h ha

theorem serve_spec {clk : Clock} {db' : Db} {answer : ActionAnswer}
    (h : db.serve G clk q = .ok (answer, db')) :
    ∃ d u, db.getRun q.runId = some d ∧ db' = db.store u ∧ Turn (db.session d) u
      ∧ (AttemptsSound d → AttemptsSound u.toRunData) ∧ Answered q u.toRunData answer := by
  obtain ⟨d, u, hd, hu, rfl⟩ := Db.withRun_eq_ok h
  refine ⟨d, u, hd, rfl, ?_⟩
  have hu := raising_eq_ok.1 hu
  split at hu
  · have hcall : (RunCall.claimAction q.attempt q.key (some q.token)).exec G clk (db.session d)
        = .ok u := dropResult_eq_ok.2 ⟨_, hu⟩
    refine ⟨turn_claimAction hu, AttemptsSound.call hcall, ?_⟩
    obtain ⟨-, ⟨hnone, rfl, rfl⟩ | ⟨a, ha, ⟨hdone, rfl, rfl⟩ | ⟨-, htoken, rfl, rfl⟩ |
      ⟨-, rfl, rfl⟩⟩⟩ := claimAction_cases hu
    · refine ⟨⟨q.key, .claimed, q.attempt, none, some q.token, none⟩, ?_, rfl⟩
      exact get_append_self (a := IdempotencyAction.mk q.key .claimed q.attempt none
        (some q.token) none) hnone
    · exact ⟨a, ha, hdone, rfl⟩
    · exact ⟨a, ha, htoken⟩
    · trivial
  · rename_i result _
    have hcall : (RunCall.completeAction q.attempt q.key result).exec G clk (db.session d)
        = .ok u := dropResult_eq_ok.2 ⟨_, hu⟩
    refine ⟨turn_completeAction hu, AttemptsSound.call hcall, ?_⟩
    obtain ⟨-, a, ha, ⟨hdone, rfl, rfl⟩ | ⟨-, rfl, rfl⟩⟩ := completeAction_cases hu
    · exact ⟨a, ha, hdone, rfl⟩
    · have hkey : a.key = q.key := get_key ha
      refine ⟨{ a with
        state := .completed, result := some (G.redact result), completedAt := some (clk 0) },
        ?_, rfl, rfl⟩
      unfold RunData.getAction
      rw [← hkey]
      exact get_put_self (a := { a with
        state := .completed, result := some (G.redact result), completedAt := some (clk 0) })
        (by rw [hkey]; exact ha)

theorem serve_completed {clk : Clock} {a : IdempotencyAction} (hd : db.getRun q.runId = some d)
    (ha : d.getAction q.key = some a) (hdone : a.state = .completed) :
    db.serve G clk q = raising (requireAttempt q.attempt (db.session d)) >>= fun _ =>
      .ok (.completed a.result, db.store (db.session d)) := by
  have ha' : Table.get IdempotencyAction.key q.key (db.session d).actions = some a := ha
  unfold Db.serve Db.withRun
  rw [hd]
  cases hreq : requireAttempt q.attempt (db.session d) <;>
    cases q.body <;> simp [claimAction, completeAction, hreq, ha', hdone] <;> rfl

theorem replays_of_completed {result : Option Json}
    (h : db.Fact q.runId (CompletedWith q.key result)) : db.Replays G result q := by
  obtain ⟨d, hd, a, ha, hdone, rfl⟩ := h
  refine ⟨d, hd, fun clk => ?_⟩
  rw [serve_completed hd ha hdone]
  split_ifs with hcur
  · have hok : requireAttempt q.attempt (db.session d) = .ok () := requireAttempt_eq_ok.2 hcur
    rw [hok]
    exact ⟨_, rfl⟩
  · unfold requireAttempt
    rw [if_pos (show q.attempt ≠ (db.session d).run.currentAttempt from hcur)]
    exact ⟨_, rfl, rfl⟩

namespace OnceState

variable {w w' : OnceState} {c : OnceCall}
variable {q : ActionRequest}

/-- Who invoked `fn` was told that the claim is its own. -/
structure Sound (w : OnceState) : Prop where
  platform : w.platform.Sound
  tokens : (w.calls.map OnceCall.token).Nodup
  sent : ∀ q ∈ w.sent, ∃ c ∈ w.calls, c.token = q.token ∧ q.On c.runId c.key
  replies : ∀ x ∈ w.replies, x.request ∈ w.sent
  answers : ∀ x ∈ w.replies, ∀ answer, x.answer = .ok answer →
    w.platform.db.Fact x.request.runId fun d => Answered x.request d answer
  invoked : ∀ c ∈ w.invoked, ∃ x ∈ w.replies, x.request.token = c.token
    ∧ x.request.On c.runId c.key ∧ x.answer = .ok .claimed
  waiting : ∀ c ∈ w.calls, c.phase = .claiming → ∀ k ∈ w.invoked, k.token ≠ c.token
  invokedOnce : (w.invoked.map OnceCall.token).Nodup

theorem Sound.claimant (h : Sound w) {x y : ActionReply} (hx : x ∈ w.replies) (hy : y ∈ w.replies)
    (hxk : x.request.On runId key) (hyk : y.request.On runId key) (hxc : x.answer = .ok .claimed)
    (hyc : y.answer = .ok .claimed) : x.request.token = y.request.token := by
  obtain ⟨d, hd, a, ha, hxa⟩ := h.answers x hx _ hxc
  have hya := h.answers y hy _ hyc
  rw [hyk.1, ← hxk.1] at hya
  obtain ⟨b, hb, hyb⟩ := hya.get hd
  rw [hyk.2, ← hxk.2] at hb
  obtain rfl := some.inj (ha.symm.trans hb)
  exact some.inj (hxa.symm.trans hyb)

theorem Sound.guarded (h : Sound w) : w.Guarded G runId key where
  once := by
    refine length_le_one_of_nodup_map (h.invokedOnce.sublist (filter_sublist.map _))
      fun a ha b hb => ?_
    obtain ⟨ha, hak⟩ := mem_filter.1 ha
    obtain ⟨hb, hbk⟩ := mem_filter.1 hb
    simp only [decide_eq_true_eq] at hak hbk
    obtain ⟨x, hx, hxt, hxk, hxc⟩ := h.invoked a ha
    obtain ⟨y, hy, hyt, hyk, hyc⟩ := h.invoked b hb
    rw [hak.1, hak.2] at hxk
    rw [hbk.1, hbk.2] at hyk
    rw [← hxt, ← hyt]
    exact h.claimant hx hy hxk hyk hxc hyc
  claimant x hx y hy hxk hyk hxc hyc := h.claimant hx hy hxk hyk hxc hyc
  replayed x hx hxk result hxc q hq := by
    refine replays_of_completed ?_
    have hfact : w.platform.db.Fact x.request.runId (CompletedWith x.request.key result) :=
      h.answers x hx _ hxc
    rwa [hxk.1, hxk.2, ← hq.1, ← hq.2] at hfact

theorem Sound.onPlatform {platform : System} (h : Sound w) (hs : platform.Sound)
    (he : w.platform.db.Evolves platform.db) : Sound { w with platform } :=
  { h with
    platform := hs
    answers := fun x hx answer ha =>
      (h.answers x hx answer ha).evolves he fun hl => Answered.later hl }

theorem Sound.reply {answer : Except JobError ActionAnswer} (h : Sound w) (hq : q ∈ w.sent)
    (ha : ∀ r, answer = .ok r → w.platform.db.Fact q.runId fun d => Answered q d r) :
    Sound { w with replies := w.replies ++ [⟨q, answer⟩] } where
  platform := h.platform
  tokens := h.tokens
  sent := h.sent
  replies x hx := by
    rcases mem_append.1 hx with hx | hx
    · exact h.replies x hx
    · rw [mem_singleton.1 hx]
      exact hq
  answers x hx r hr := by
    rcases mem_append.1 hx with hx | hx
    · exact h.answers x hx r hr
    · rw [mem_singleton.1 hx] at hr ⊢
      exact ha r hr
  invoked c hc := by
    obtain ⟨x, hx, hrest⟩ := h.invoked c hc
    exact ⟨x, mem_append_left _ hx, hrest⟩
  waiting := h.waiting
  invokedOnce := h.invokedOnce

theorem Sound.arrive {clk : Clock} (h : Sound w) (hq : q ∈ w.sent) : Sound (w.arrive G clk q) := by
  unfold OnceState.arrive
  split
  · rename_i answer db hserve
    obtain ⟨d, u, hd, rfl, hturn, ha, hanswer⟩ := serve_spec hserve
    have hu := ha (h.platform.db.run hd).attempts
    have hs := h.onPlatform (h.platform.turn hd hturn hu)
      (Db.Evolves.store hd hturn.moves.later)
    refine hs.reply hq fun r hr => ?_
    rw [← Except.ok.inj hr]
    exact System.fact_store hd hturn.kept.id hanswer
  · exact h.reply hq nofun

theorem Sound.goto {phase : OncePhase} (h : Sound w) (hc : c ∈ w.calls)
    (hphase : phase ≠ .claiming) : Sound (w.goto c phase) where
  platform := h.platform
  tokens := by
    show ((Table.put OnceCall.token { c with phase } w.calls).map OnceCall.token).Nodup
    rw [map_key_put]
    exact h.tokens
  sent q hq := by
    obtain ⟨k, hk, htoken, hon⟩ := h.sent q hq
    by_cases hkc : k.token = c.token
    · obtain rfl : k = c := inj_on_of_nodup_map h.tokens hk hc hkc
      exact ⟨{ k with phase }, mem_put_self (a := { k with phase }) hk rfl, htoken, hon⟩
    · exact ⟨k, mem_put_of_mem hk hkc, htoken, hon⟩
  replies := h.replies
  answers := h.answers
  invoked := h.invoked
  waiting k hk hpc := by
    rcases mem_put hk with rfl | ⟨hk, -⟩
    · exact absurd hpc hphase
    · exact h.waiting k hk hpc
  invokedOnce := h.invokedOnce

theorem mem_goto {phase : OncePhase} (hc : c ∈ w.calls) :
    { c with phase } ∈ (w.goto c phase).calls := by
  have hput : { c with phase } ∈ Table.put OnceCall.token { c with phase } w.calls :=
    mem_put_self hc rfl
  exact hput

theorem Sound.send (h : Sound w) (hq : ∃ c ∈ w.calls, c.token = q.token ∧ q.On c.runId c.key) :
    Sound (w.send q) :=
  { h with
    sent := fun p hp => by
      rcases mem_append.1 hp with hp | hp
      · exact h.sent p hp
      · rw [mem_singleton.1 hp]
        exact hq
    replies := fun x hx => mem_append_left _ (h.replies x hx) }

theorem Sound.invoke (h : Sound w)
    (hwait : ∀ k ∈ w.calls, k.phase = .claiming → k.token ≠ c.token)
    (hnew : ∀ k ∈ w.invoked, k.token ≠ c.token) (hreply : ∃ x ∈ w.replies,
      x.request.token = c.token ∧ x.request.On c.runId c.key ∧ x.answer = .ok .claimed) :
    Sound { w with invoked := w.invoked ++ [c] } :=
  { h with
    invoked := fun k hk => by
      rcases mem_append.1 hk with hk | hk
      · exact h.invoked k hk
      · rw [mem_singleton.1 hk]
        exact hreply
    waiting := fun k hk hpc l hl => by
      rcases mem_append.1 hl with hl | hl
      · exact h.waiting k hk hpc l hl
      · rw [mem_singleton.1 hl]
        exact (hwait k hk hpc).symm
    invokedOnce := by
      rw [map_append, nodup_append]
      refine ⟨h.invokedOnce, by simp, fun a ha b hb => ?_⟩
      obtain ⟨k, hk, rfl⟩ := mem_map.1 ha
      obtain rfl : b = c.token := by simpa using hb
      exact hnew k hk }

theorem Sound.read {r : ActionReply} (h : Sound w) (hr : r ∈ w.replies) (hc : c ∈ w.calls)
    (htoken : c.token = r.request.token) (hread : w.read c r = some w') : Sound w' := by
  unfold OnceState.read at hread
  split at hread
  · rename_i hphase _
    rw [some.injEq] at hread
    subst hread
    unfold OnceState.invoke
    split
    · rename_i hanswer
      have hacting : OnceCall.afterClaim r.answer = .acting := by rw [hanswer]; rfl
      refine (h.goto hc (by rw [hacting]; nofun)).invoke (fun k hk hpc => ?_)
        (h.waiting c hc hphase) ⟨r, hr, htoken.symm, ?_, hanswer⟩
      · rcases mem_put hk with rfl | ⟨-, hne⟩
        · have hpc : OnceCall.afterClaim r.answer = .claiming := hpc
          rw [hacting] at hpc
          cases hpc
        · exact hne
      · obtain ⟨k, hk, hkt, hon⟩ := h.sent _ (h.replies r hr)
        obtain rfl : k = c := inj_on_of_nodup_map h.tokens hk hc (hkt.trans htoken.symm)
        exact hon
    · refine h.goto hc ?_
      rcases r.answer with e | answer
      · nofun
      · cases answer <;> nofun
  · rw [some.injEq] at hread
    subst hread
    refine h.goto hc ?_
    cases r.answer <;> nofun
  · cases hread

theorem Sound.call {token : String} {attempt : ℕ} (h : Sound w) (hnew : w.getCall token = none) :
    Sound { w.send (OnceCall.request .claim ⟨token, runId, attempt, key, .claiming⟩) with
      calls := w.calls ++ [⟨token, runId, attempt, key, .claiming⟩] } where
  platform := h.platform
  tokens := by
    rw [map_append, nodup_append]
    refine ⟨h.tokens, by simp, fun a ha b hb => ?_⟩
    obtain ⟨k, hk, rfl⟩ := mem_map.1 ha
    obtain rfl : b = token := by simpa using hb
    exact Table.get_eq_none.1 hnew k hk
  sent q hq := by
    rcases mem_append.1 hq with hq | hq
    · obtain ⟨k, hk, hrest⟩ := h.sent q hq
      exact ⟨k, mem_append_left _ hk, hrest⟩
    · rw [mem_singleton.1 hq]
      exact ⟨_, mem_append_right _ (mem_singleton.2 rfl), rfl, rfl, rfl⟩
  replies x hx := mem_append_left _ (h.replies x hx)
  answers := h.answers
  invoked := h.invoked
  waiting k hk hpc l hl := by
    rcases mem_append.1 hk with hk | hk
    · exact h.waiting k hk hpc l hl
    · rw [mem_singleton.1 hk]
      -- who invoked `fn` had a call before, and this token is new
      obtain ⟨x, hx, hxt, -⟩ := h.invoked l hl
      obtain ⟨m, hm, hmt, -⟩ := h.sent _ (h.replies x hx)
      rw [← hxt, ← hmt]
      exact Table.get_eq_none.1 hnew m hm
  invokedOnce := h.invokedOnce

theorem Sound.step {a : OnceAction} (h : Sound w) (hstep : step G settings a w = some w') :
    Sound w' := by
  cases a with
  | platform =>
    obtain ⟨s, hs, rfl⟩ := map_eq_some_iff.1 hstep
    have hdid := System.did_of_step h.platform hs
    exact h.onPlatform (h.platform.did hdid) (hdid.evolves h.platform)
  | call =>
    simp only [OnceState.step] at hstep
    split_ifs at hstep with hnew
    rw [some.injEq] at hstep
    exact hstep ▸ h.call (not_isSome_iff_eq_none.1 hnew)
  | arrive =>
    obtain ⟨q, hq, rfl⟩ := map_eq_some_iff.1 hstep
    exact h.arrive (mem_of_getElem? hq)
  | read =>
    obtain ⟨r, hr, hstep⟩ := bind_eq_some_iff.1 hstep
    obtain ⟨c, hc, hread⟩ := bind_eq_some_iff.1 hstep
    exact h.read (mem_of_getElem? hr) (get_mem hc) (get_key hc) hread
  | fnReturns token value =>
    obtain ⟨c, hc, hstep⟩ := bind_eq_some_iff.1 hstep
    have hmem : c ∈ w.calls := get_mem hc
    split at hstep
    · rw [some.injEq] at hstep
      subst hstep
      have hgoto : Sound (w.goto c (.completing value)) := h.goto hmem nofun
      exact hgoto.send ⟨_, mem_goto hmem, rfl, rfl, rfl⟩
    · cases hstep
  | fail =>
    obtain ⟨c, hc, rfl⟩ := map_eq_some_iff.1 hstep
    exact h.goto (get_mem hc) nofun

theorem Sound.init : Sound init where
  platform := .init
  tokens := by simp [OnceState.init]
  sent := by simp [OnceState.init]
  replies := by simp [OnceState.init]
  answers := by simp [OnceState.init]
  invoked := by simp [OnceState.init]
  waiting := by simp [OnceState.init]
  invokedOnce := by simp [OnceState.init]

end OnceState

/-- In every state of every run, whatever is lost, repeated or reordered and whoever dies, `fn` was
invoked at most once for each key of a run, one call at most was answered `claimed`, and a completed
key replays its result. -/
theorem once_guarded (G : Guards) (settings : Settings) (actions : List OnceAction) :
    (onceSystem G settings).Along (fun w => ∀ runId key, w.Guarded G runId key) actions
      OnceState.init := by
  have halong : (onceSystem G settings).Along OnceState.Sound actions OnceState.init :=
    Machine.along_of_step (fun a w w' h hstep => h.step hstep) actions .init
  exact halong.mono fun w h runId key => h.guarded

/-- The response to a claim is lost and the claim sent again; a second call comes too late. -/
example : ((onceSystem plainGuards plainSettings).run
    [.platform (.client (fun _ => 0) createPlain), .call "a" 0 1 "mail", .arrive 0 (fun _ => 0),
      .arrive 0 (fun _ => 0), .read 1, .call "b" 0 1 "mail", .arrive 1 (fun _ => 0), .read 2,
      .fnReturns "a" .null, .arrive 2 (fun _ => 0), .read 3] OnceState.init).map
      (fun w => (w.invocations 0 "mail").map OnceCall.token) = some ["a"] := by
  decide

end Crewquarters
