import Crewquarters.Broker
import Crewquarters.Proofs.Steps

/-!
# The token in a container

A dispatch mints a token for the attempt, stores its id and then starts the container with it; a
repeated dispatch mints again, while the runtime keeps the container it has. The container of the
current attempt of an active run has the stored token exactly as long as no dispatch mints for an
attempt whose container is there, and no container is created with a token that was replaced since.
-/

namespace Crewquarters

open Option List
open RunState (activeStates)

namespace System

variable {settings : Settings} {s t : System} {a : Action} {r : RunId} {spec : RunSpec}

/-- The container of every active run's current attempt has the token the attempt stores, and the
broker lets it through. -/
def TokensAccepted (s : System) : Prop :=
  ∀ d ∈ s.db.runs, d.run.state ∈ activeStates →
    ∀ c ∈ s.containers, c.ref = ⟨d.run.id, d.run.currentAttempt⟩ →
      d.tokenOf d.run.currentAttempt = some c.token.tokenId
        ∧ (authorize c.token false s.db).isOk = true

instance : DecidablePred TokensAccepted := fun s =>
  inferInstanceAs (Decidable (∀ d ∈ s.db.runs, _))

/-- A container created from `spec` would have the token its attempt stores, if that still
matters. -/
def StartsCurrent (spec : RunSpec) (s : System) : Prop :=
  s.hasContainer spec.ref = true ∨ ∀ d ∈ s.db.runs, d.run.id = spec.runId →
    d.run.currentAttempt = spec.attempt → d.run.state ∈ activeStates →
    d.tokenOf spec.attempt = some spec.token.tokenId

/-- The next step of the handler does not create a container with a token that was replaced. -/
def CreatesCurrent (h : Handler) (s : System) : Prop :=
  match h.pc with
  | .startRun spec => s.StartsCurrent spec
  | _ => True

/-- No dispatch mints for an attempt whose container is there, and no container is created with a
token that was replaced. -/
def KeepsToken (settings : Settings) : Action → System → Prop
  | .advance id catalog clk _, s => ∀ h ∈ s.getHandler id,
    (∀ spec ∈ s.mints settings catalog clk h, s.hasContainer spec.ref = false)
      ∧ s.CreatesCurrent h
  | .raise id created, s => created = true → ∀ h ∈ s.getHandler id, s.CreatesCurrent h
  | _, _ => True

def TokensMatch (s : System) : Prop :=
  ∀ d ∈ s.db.runs, d.run.state ∈ activeStates →
    ∀ c ∈ s.containers, c.ref = ⟨d.run.id, d.run.currentAttempt⟩ →
      d.tokenOf d.run.currentAttempt = some c.token.tokenId

theorem tokensAccepted_iff (hs : Sound s) : s.TokensAccepted ↔ s.TokensMatch := by
  refine ⟨fun h d hd hactive c hc href => (h d hd hactive c hc href).1,
    fun h d hd hactive c hc href => ⟨h d hd hactive c hc href, ?_⟩⟩
  have htoken := h d hd hactive c hc href
  obtain ⟨hsound, -⟩ := hs.containers c hc
  have hget : s.db.getRun c.token.runId = some d := by
    rw [hsound.runId, href]
    exact hs.db.getRun hd
  have hattempt : c.token.attempt = d.run.currentAttempt := by rw [hsound.attempt, href]
  have hinst : c.token.installationId = d.run.installationId :=
    (hsound.run.get (by rw [href]; exact hs.db.getRun hd)).2.1
  unfold authorize
  rw [hget]
  dsimp only
  split_ifs with hreplaced hinactive
  · rcases hreplaced with hn | hn | hn
    · exact absurd htoken hn
    · exact absurd hattempt.symm hn
    · exact absurd hinst.symm hn
  · exact absurd hactive hinactive.1
  · rfl

namespace TokensMatch

theorem store {d : RunData} {u : Session} (h : s.TokensMatch) (hd : s.db.getRun r = some d)
    (hid : u.run.id = d.run.id)
    (hu : u.run.state ∈ activeStates →
      (d.run.state ∈ activeStates ∧ u.run.currentAttempt = d.run.currentAttempt
        ∧ u.tokenOf d.run.currentAttempt = d.tokenOf d.run.currentAttempt)
      ∨ ∀ c ∈ s.containers, c.ref ≠ ⟨u.run.id, u.run.currentAttempt⟩) :
    (s.withDb (s.db.store u)).TokensMatch := by
  intro e he hactive c hc href
  rcases Table.mem_put he with rfl | ⟨he, -⟩
  · rcases hu hactive with ⟨hd', hcur, htoken⟩ | hnone
    · rw [hid, hcur] at href
      rw [hcur, htoken]
      exact h d (Table.get_mem hd) hd' c hc href
    · exact absurd href (hnone c hc)
  · exact h e he hactive c hc href

theorem turn {d : RunData} {u : Session} (h : s.TokensMatch) (hd : s.db.getRun r = some d)
    (ht : Turn (s.db.session d) u) : (s.withDb (s.db.store u)).TokensMatch := by
  have hwatched : ∀ {state : RunState}, state ∈ RunState.watchedStates →
      state ∈ activeStates := by
    intro state hw
    revert hw
    cases state <;> decide
  have htokens := ht.kept.tokens d.run.currentAttempt
  refine h.store hd ht.kept.id fun hactive => ?_
  cases ht with
  | silent kept attempt ends jobs move =>
    refine .inl ⟨?_, attempt, htokens⟩
    rcases move with heq | ⟨hw, -⟩ | ⟨-, htarget⟩
    · rwa [heq] at hactive
    · exact hwatched hw
    · simp [htarget, activeStates] at hactive
  | unqueue kept attempt ends jobs source target =>
    simp [target, activeStates] at hactive
  | cancel kept attempt ends jobs source =>
    exact .inl ⟨hwatched source, attempt, htokens⟩
  | retry kept attempt ends jobs source target =>
    simp [target, activeStates] at hactive
  | fail kept attempt ends jobs source target =>
    rcases target with target | target <;> simp [target, activeStates] at hactive

theorem turns {db db' : Db} (h : Db.Turns db db') :
    (s.withDb db).TokensMatch → (s.withDb db').TokensMatch := by
  intro hm
  induction h with
  | refl => exact hm
  | turn run turn sound _ ih => exact ih (hm.turn run turn)

theorem extend (h : s.TokensMatch)
    (hruns : ∀ d ∈ t.db.runs, d ∈ s.db.runs ∨ d.run.state ∉ activeStates)
    (hcontainers : ∀ c ∈ t.containers, c ∈ s.containers
      ∨ ∀ d ∈ s.db.runs, d.run.state ∈ activeStates →
        c.ref = ⟨d.run.id, d.run.currentAttempt⟩ →
        d.tokenOf d.run.currentAttempt = some c.token.tokenId) : t.TokensMatch := by
  intro d hd hactive c hc href
  have hd' := (hruns d hd).resolve_right (not_not.2 hactive)
  rcases hcontainers c hc with hc | hc
  · exact h d hd' hactive c hc href
  · exact hc d hd' hactive href

theorem startContainer (h : s.TokensMatch) (hspec : s.StartsCurrent spec) :
    (s.startContainer spec).TokensMatch := by
  unfold System.startContainer
  split_ifs with hhas
  · exact h
  · refine h.extend (fun d hd => .inl hd) fun c hc => ?_
    rcases mem_append.1 hc with hc | hc
    · exact .inl hc
    · obtain rfl := mem_singleton.1 hc
      right
      intro d hd hactive href
      have hr : spec.runId = d.run.id := congrArg RuntimeRef.runId href
      have hn : spec.attempt = d.run.currentAttempt := congrArg RuntimeRef.attempt href
      rw [← hn]
      exact hspec.resolve_left hhas d hd hr.symm hn.symm hactive

end TokensMatch

theorem tokensMatch_did (hm : s.TokensMatch) (hok : KeepsToken settings a s)
    (hdid : Did settings s a t) : t.TokensMatch := by
  have hcreates : ∀ {h : Handler} {spec : RunSpec}, h.pc = .startRun spec → s.CreatesCurrent h →
      s.StartsCurrent spec := by
    intro h spec hpc hc
    unfold CreatesCurrent at hc
    rw [hpc] at hc
    exact hc
  cases hdid with
  | refused => exact hm
  | call run turn => exact hm.turn run turn
  | create new =>
    refine hm.extend (fun e he => ?_) fun c hc => .inl hc
    rcases mem_append.1 he with he | he
    · exact .inl he
    · rw [mem_singleton.1 he, new.state]
      exact .inr (by decide)
  | claim => exact hm
  | pass handler pc job run turn => exact hm.turn run turn
  | @mint id catalog clk random h d u spec handler pc job run mint sound minted =>
    refine hm.store run mint.id fun _ => .inr fun c hc href => ?_
    have hnone := (hok h handler).1 spec minted
    have hspec : c.ref = spec.ref := by
      rw [href, mint.id, mint.currentAttempt, ← mint.runId, ← mint.attempt]
      rfl
    have hhas : s.hasContainer spec.ref = true :=
      any_eq_true.2 ⟨c, hc, decide_eq_true hspec⟩
    rw [hnone] at hhas
    cases hhas
  | @start id catalog clk random h spec handler pc =>
    exact hm.startContainer (hcreates pc (hok h handler).2)
  | record handler pc run record =>
    refine hm.store run (by rw [record.run]; rfl) fun hactive => .inl ?_
    rw [record.run] at hactive ⊢
    exact ⟨hactive, rfl, record.tokens _⟩
  | stop =>
    exact hm.extend (fun d hd => .inl hd) fun c hc => .inl (mem_of_mem_filter hc)
  | readCancel => exact hm
  | @cancel id catalog clk random h r read late d u handler pc run cancelled sound =>
    have hstore : (s.withDb (s.db.store u)).TokensMatch := by
      refine hm.store run cancelled.kept.id fun hactive => ?_
      simp [cancelled.target, activeStates] at hactive
    refine hstore.extend (fun e he => .inl ?_) fun c hc => .inl ?_
    · rcases late with _ | late <;> exact he
    · rcases late with _ | late
      · exact hc
      · exact mem_of_mem_filter hc
  | cancelOver handler pc run => exact hm.turn run .refl
  | readStop => exact hm
  | failed => exact hm
  | raise => exact hm
  | @raiseStarted id h spec handler pc =>
    exact hm.startContainer (hcreates pc (hok rfl h handler))
  | crash => exact hm
  | giveUp => exact hm
  | complete => exact hm
  | requeue => exact hm
  | die handler pc dead job run turn =>
    exact TokensMatch.turn (s := s.buried _ _) hm run turn
  | keepLease => exact hm
  | tick tick turns => exact TokensMatch.turns turns hm
  | reap => exact hm
  | removed =>
    exact hm.extend (fun d hd => .inl hd) fun c hc => .inl (mem_of_mem_filter hc)

theorem createsCurrent_of {h : Handler} (hpc : ∀ spec, h.pc ≠ .startRun spec) :
    s.CreatesCurrent h := by
  unfold CreatesCurrent
  split
  · exact absurd ‹_› (hpc _)
  · trivial

theorem keepsToken_of {id : ℕ} {catalog : Catalog} {clk : Clock} {random : ℚ} {h : Handler}
    (hh : s.getHandler id = some h) (hmints : s.mints settings catalog clk h = none)
    (hpc : ∀ spec, h.pc ≠ .startRun spec) :
    KeepsToken settings (.advance id catalog clk random) s := by
  intro k hk
  obtain rfl : h = k := some.inj (hh.symm.trans hk)
  refine ⟨fun spec hspec => ?_, ?_⟩
  · rw [hmints] at hspec
    cases hspec
  · exact createsCurrent_of hpc

theorem not_tokensMatch_startContainer (hspec : ¬ s.StartsCurrent spec) :
    ¬ (s.startContainer spec).TokensMatch := by
  intro hm
  simp only [StartsCurrent, not_or, not_forall] at hspec
  obtain ⟨hhas, d, hd, hr, hn, hactive, htoken⟩ := hspec
  unfold startContainer at hm
  rw [if_neg hhas] at hm
  refine htoken ?_
  rw [← hn]
  exact hm d hd hactive ⟨spec.ref, spec.token⟩ (mem_append_right _ (mem_singleton.2 rfl))
    (by rw [hr, hn]; rfl)

theorem not_tokensMatch_mint {d : RunData} {u : Session} {h : Handler} {pc : Pc} (hs : Sound s)
    (hd : s.db.getRun spec.runId = some d) (hm : Mint (s.db.session d) u spec)
    (hhas : s.hasContainer spec.ref = true) :
    ¬ ((s.withDb (s.db.store u)).goto h pc).TokensMatch := by
  intro hmatch
  obtain ⟨c, hc, href⟩ : ∃ c ∈ s.containers, c.ref = spec.ref := by
    simpa [hasContainer] using hhas
  have hid : u.run.id = spec.runId := hm.id.trans hm.runId.symm
  have hcur : u.run.currentAttempt = spec.attempt := hm.currentAttempt.trans hm.attempt.symm
  have hmem : u.toRunData ∈ (s.db.store u).runs :=
    Table.get_mem (Db.getRun_store (by rw [hid]; exact hd))
  have htoken := hmatch u.toRunData hmem (by rw [hm.target]; decide) c hc
    (by rw [href, hid, hcur]; rfl)
  rw [hcur, hm.tokens, if_pos rfl, some.injEq, hm.tokenId] at htoken
  have hlt := (hs.containers c hc).1.tokenId
  exact absurd htoken.symm hlt.ne

theorem not_tokensMatch_did (hs : Sound s) (hbad : ¬ KeepsToken settings a s)
    (hdid : Did settings s a t) : ¬ t.TokensMatch := by
  cases hdid with
  | refused action =>
    rcases action with ⟨clk, op, rfl⟩ | ⟨clk, locked, rfl⟩ <;> exact absurd trivial hbad
  | pass handler pc job run turn sound passed mintless =>
    exact absurd (keepsToken_of handler mintless (by simp [pc])) hbad
  | @mint id catalog clk random h d u spec handler pc job run mint sound minted =>
    refine not_tokensMatch_mint hs run mint ?_
    by_contra hnone
    refine hbad fun k hk => ?_
    obtain rfl : h = k := some.inj (handler.symm.trans hk)
    refine ⟨fun spec' hspec' => ?_, ?_⟩
    · obtain rfl : spec = spec' := some.inj (minted.symm.trans hspec')
      exact Bool.not_eq_true _ ▸ hnone
    · exact createsCurrent_of (by simp [pc])
  | @start id catalog clk random h spec handler pc =>
    refine not_tokensMatch_startContainer fun hspec => hbad fun k hk => ?_
    obtain rfl : h = k := some.inj (handler.symm.trans hk)
    refine ⟨fun spec' hspec' => ?_, ?_⟩
    · rw [mints_of_pc (by simp [pc])] at hspec'
      cases hspec'
    · unfold CreatesCurrent
      rw [pc]
      exact hspec
  | record handler pc =>
    exact absurd (keepsToken_of handler (mints_of_pc (by simp [pc])) (by simp [pc])) hbad
  | @stop id catalog clk random h ref pc handler stops =>
    refine absurd (keepsToken_of handler (mints_of_pc ?_) fun spec hpc => ?_) hbad
    · intro hpc
      rw [hpc] at stops
      cases stops
    · rw [hpc] at stops
      cases stops
  | readCancel handler pc job =>
    exact absurd (keepsToken_of handler (mints_of_type job (by decide)) (by simp [pc])) hbad
  | cancel handler pc | cancelOver handler pc =>
    exact absurd (keepsToken_of handler (mints_of_pc (by simp [pc])) (by simp [pc])) hbad
  | readStop handler pc job =>
    exact absurd (keepsToken_of handler (mints_of_type job (by decide)) (by simp [pc])) hbad
  | failed handler pc job mintless =>
    exact absurd (keepsToken_of handler mintless (by simp [pc])) hbad
  | raise handler quiet =>
    refine absurd (fun hcreated k hk => ?_) hbad
    obtain rfl := some.inj (handler.symm.trans hk)
    exact createsCurrent_of (quiet hcreated)
  | @raiseStarted id h spec handler pc =>
    refine not_tokensMatch_startContainer fun hspec => hbad fun _ k hk => ?_
    obtain rfl : h = k := some.inj (handler.symm.trans hk)
    unfold CreatesCurrent
    rw [pc]
    exact hspec
  | crash handler action =>
    rcases action with rfl | ⟨created, rfl, hpc⟩
    · exact absurd trivial hbad
    · refine absurd (fun _ k hk => ?_) hbad
      obtain rfl := some.inj (handler.symm.trans hk)
      exact createsCurrent_of hpc
  | giveUp handler pc | complete handler pc | requeue handler pc | die handler pc =>
    exact absurd (keepsToken_of handler (mints_of_pc (by simp [pc])) (by simp [pc])) hbad
  | _ => exact absurd trivial hbad

end System

/-- Over any run of the system, the containers of active attempts have the tokens the broker accepts
exactly if every step meets `KeepsToken`. -/
theorem tokens_accepted_iff_keeps (G : Guards) (settings : Settings) (actions : List Action) :
    (system G settings).Along System.TokensAccepted actions System.init
      ↔ (system G settings).Meets (System.KeepsToken settings) actions System.init := by
  refine Machine.along_iff_meets (I := System.Sound) (fun a s t hs hstep => hs.step hstep)
    (fun a s t hs hP hok hstep => ?_) (fun a s t hs _ hbad hstep => ?_) actions .init
    (fun d hd => ?_)
  · have hdid := System.did_of_step hs hstep
    exact (System.tokensAccepted_iff (hs.did hdid)).2
      (System.tokensMatch_did ((System.tokensAccepted_iff hs).1 hP) hok hdid)
  · have hdid := System.did_of_step hs hstep
    rw [System.tokensAccepted_iff (hs.did hdid)]
    exact System.not_tokensMatch_did hs hbad hdid
  · simp [System.init, Db.empty] at hd

/-- `start_run` creates the container and raises; the job is tried again and mints. -/
def raisedStart : List Action :=
  [.client (fun _ => 0) createPlain, .claim "w" [] 0, go 0 0, .raise 0 true, go 0 0,
    .claim "w" [] 10, go 1 10]

/-- The first worker loses its lease before `start_run`, and starts the container after the second
has minted. -/
def overtakenStart : List Action :=
  [.client (fun _ => 0) createPlain, .claim "w" [] 0, go 0 0, .gatewayReap 50, .claim "v" [] 50,
    go 1 50, go 0 50]

/-- The container keeps the first token, the attempt stores the second. -/
theorem replaced_token_in_container :
    ¬ (system plainGuards plainSettings).Along System.TokensAccepted raisedStart System.init
    ∧ ¬ (system plainGuards plainSettings).Along System.TokensAccepted overtakenStart
      System.init := by
  decide +kernel

end Crewquarters
