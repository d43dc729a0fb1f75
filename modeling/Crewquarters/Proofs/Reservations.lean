import Crewquarters.Proofs.Inference

/-!
# Reservations are given back

Once every request is over, the counters are back to zero and no stream holds its key. The one
exception is a stream dropped between `prepare()` and the first iteration of its body: nothing ever
gives back what it has reserved, and its key stays claimed until the entry is stale.
-/

namespace Crewquarters

open Table List

namespace Keyed

variable {ttl : ℚ} {maxEntries : ℕ} {s s' : Keyed} {a : KeyedAction} {k : KeyedRequest}
  {k : KeyedRequest}

def Quiet (phase : KeyedPhase) : Prop := phase.isStreaming = false ∧ phase ≠ .ended .abandoned

theorem Did.origin (hdid : s.Did ttl maxEntries a s') (hk : k ∈ s'.requests) :
    k ∈ s.requests ∨ Quiet k.phase
      ∨ (k.phase.isStreaming = true ∧ k.id = s.requests.length ∧ ∃ key print, a = .stream key print)
      ∨ ∃ id, a = .abandon id := by
  have happend : ∀ {new : KeyedRequest}, k ∈ s.requests ++ [new] → k ∈ s.requests ∨ k = new := by
    intro new h
    rcases mem_append.1 h with h | h
    · exact .inl h
    · exact .inr (mem_singleton.1 h)
  have hput : ∀ {new : KeyedRequest}, k ∈ Table.put KeyedRequest.id new s.requests →
      k ∈ s.requests ∨ k = new := by
    intro new h
    rcases mem_put h with rfl | ⟨h, -⟩
    · exact .inr rfl
    · exact .inl h
  cases hdid with
  | advanced => exact .inl hk
  | runRefused | waited | invoked | streamRefused =>
    rcases happend hk with h | rfl
    · exact .inl h
    · exact .inr (.inl ⟨rfl, nofun⟩)
  | finished | woke | cancelled | streamEnded =>
    rcases hput hk with h | rfl
    · exact .inl h
    · exact .inr (.inl ⟨rfl, nofun⟩)
  | claimed | unclaimed =>
    rcases happend hk with h | rfl
    · exact .inl h
    · exact .inr (.inr (.inl ⟨rfl, rfl, _, _, rfl⟩))
  | abandoned => exact .inr (.inr (.inr ⟨_, rfl⟩))

theorem Sound.not_quiet (hs : s.Sound) {e : KeyedEntry} (he : e ∈ s.entries)
    (hstreaming : e.streaming = true) : ∃ k ∈ s.requests, ¬ Quiet k.phase := by
  obtain ⟨k, hk, -, -, -, hfits⟩ := hs.owners e he
  refine ⟨k, hk, fun hquiet => ?_⟩
  unfold Fits at hfits
  split at hfits
  · exact absurd (hstreaming.symm.trans hfits.1) nofun
  · exact absurd (hstreaming.symm.trans hfits.2.1) nofun
  · rename_i hphase
    exact absurd (hphase ▸ hquiet.1) nofun
  · rename_i hphase
    exact hquiet.2 hphase
  · exact hfits

end Keyed

namespace Inference

variable {settings : InferenceSettings} {s s' : Inference} {a : LlmAction} {r r' : LlmRequest}
  {tokens : Option ℕ} {touch : Option KeyedAction}

theorem storeAfter_origin {store : Keyed} (hk : k ∈ (storeAfter settings touch store).requests)
    (htouch : ∀ key print, touch ≠ some (.stream key print))
    (hkept : ∀ id, touch ≠ some (.abandon id)) : k ∈ store.requests ∨ Keyed.Quiet k.phase := by
  unfold storeAfter at hk
  cases touch with
  | none => exact .inl hk
  | some action =>
    dsimp only at hk
    cases hstep : Keyed.step settings.idempotencyTtlSeconds settings.idempotencyMaxEntries action
        store with
    | none => rw [hstep] at hk; exact .inl hk
    | some store' =>
      rw [hstep] at hk
      rcases (Keyed.did_of_step hstep).origin hk with h | h | ⟨-, -, key, print, rfl⟩ | ⟨id, rfl⟩
      · exact .inl h
      · exact .inr h
      · exact absurd rfl (htouch key print)
      · exact absurd rfl (hkept id)

theorem not_streaming_of_endStream {store : Keyed} (hs : store.Sound)
    (hk : k ∈ (storeAfter settings (some (.endStream k.id)) store).requests) :
    k.phase.isStreaming = false := by
  simp only [storeAfter] at hk
  cases hstep : Keyed.step settings.idempotencyTtlSeconds settings.idempotencyMaxEntries
      (.endStream k.id) store with
  | none =>
    rw [hstep] at hk
    have hget : store.getRequest k.id = some k := hs.getRequest hk
    cases hphase : k.phase with
    | streaming => simp [Keyed.step, hget, hphase] at hstep
    | calling | waiting | ended => rfl
  | some store' =>
    rw [hstep] at hk
    have hdid : store.Did settings.idempotencyTtlSeconds settings.idempotencyMaxEntries
        (.endStream k.id) store' := Keyed.did_of_step hstep
    generalize hid : k.id = id at hdid
    cases hdid with
    | streamEnded =>
      rcases mem_put hk with rfl | ⟨-, hne⟩
      · rfl
      · exact absurd hid hne

/-- Every stream that holds a claim belongs to a request in progress, and none was dropped. -/
structure Claimed (s : Inference) : Prop where
  requests : ∀ r ∈ s.requests, r.phase ≠ .dropped
  claims : ∀ k ∈ s.store.requests, k.phase ≠ .ended .abandoned
  streams : ∀ k ∈ s.store.requests, k.phase.isStreaming = true →
    ∃ r ∈ s.requests, r.claim = some k.id ∧ r.streaming = true ∧ r.phase.isOver = false

/-- No stream is dropped between `prepare()` and the first iteration of its body. -/
def Iterated : LlmAction → Inference → Prop
  | .drop _, _ => False
  | _, _ => True

namespace Goes
variable (h : Goes settings s r a r' tokens touch) (hok : Iterated a s)
include h hok

theorem claim (hstream : r.streaming = true) :
    (r'.claim = r.claim ∧ r'.streaming = true ∧ r'.phase.isOver = false)
      ∨ touch = r.claim.map .endStream := by
  cases h with
  | dropped => exact hok.elim
  | disconnected | closed => exact .inr rfl
  | reserved | passed => exact .inl ⟨rfl, hstream, by simp⟩
  | refused | errorRecorded | usageRecorded | stopped =>
    exact .inl ⟨rfl, hstream, by simp [LlmRequest.exit, hstream, LlmPhase.isOver]⟩
  | called _ chat => exact absurd (hstream.symm.trans chat) nofun
  | read | prepared | started | answered | resulted | failed | cut | streamRecorded | resumed =>
    exact .inl ⟨rfl, hstream, rfl⟩

theorem touch_ne :
    (∀ key print, touch ≠ some (.stream key print)) ∧ ∀ id, touch ≠ some (.abandon id) := by
  cases h with
  | dropped => exact hok.elim
  | disconnected | closed => cases r.claim <;> simp
  | refused | errorRecorded | usageRecorded | stopped =>
    unfold exitClaim
    cases r.streaming <;> cases r.claim <;> simp
  | _ => exact ⟨nofun, nofun⟩

theorem ne_dropped (hr : r.phase ≠ .dropped) : r'.phase ≠ .dropped := by
  cases h with
  | dropped => exact hok.elim
  | disconnected => exact hr
  | reserved | passed =>
    exact fun h =>
      absurd ((congrArg LlmPhase.isOver h).symm.trans (LlmPhase.isOver_checking _)) nofun
  | refused | errorRecorded | usageRecorded | stopped =>
    exact fun h =>
      absurd ((congrArg LlmPhase.held h).symm.trans r.held_exit) nofun
  | _ => exact nofun

end Goes

namespace Claimed

theorem moved (hs : s.Sound) (hclaimed : s.Claimed) (hok : Iterated a s)
    (request : s.getRequest r.id = some r) (goes : Goes settings s r a r' tokens touch) :
    (s.moved settings r r' tokens touch).Claimed := by
  have horigin : ∀ k ∈ (s.moved settings r r' tokens touch).store.requests,
      k ∈ s.store.requests ∨ Keyed.Quiet k.phase :=
    fun k hk => storeAfter_origin hk (goes.touch_ne hok).1 (goes.touch_ne hok).2
  refine ⟨fun x hx => ?_, fun k hk => ?_, fun k hk hstreaming => ?_⟩
  · rcases mem_put hx with rfl | ⟨hx, -⟩
    · exact goes.ne_dropped hok (hclaimed.requests r (get_mem request))
    · exact hclaimed.requests x hx
  · rcases horigin k hk with hold | hquiet
    · exact hclaimed.claims k hold
    · exact hquiet.2
  · rcases horigin k hk with hold | hquiet
    · obtain ⟨x, hx, hclaim, hstream, hover⟩ := hclaimed.streams k hold hstreaming
      by_cases hid : x.id = r.id
      · obtain rfl := hs.eq_of_id hx (get_mem request) hid
        rcases goes.claim hok hstream with ⟨hsame, hstream', hover'⟩ | htouch
        · exact ⟨r', mem_put_self hx goes.id_eq.symm, hsame.trans hclaim, hstream', hover'⟩
        · rw [hclaim] at htouch
          subst htouch
          exact absurd (hstreaming.symm.trans (not_streaming_of_endStream hs.store hk)) nofun
      · have hne : x.id ≠ r'.id := by rw [goes.id_eq]; exact hid
        exact ⟨x, mem_put_of_mem hx hne, hclaim, hstream, hover⟩
    · exact absurd (hstreaming.symm.trans hquiet.1) nofun

theorem store (hclaimed : s.Claimed) {action : KeyedAction} {store : Keyed}
    (stored : s.store.Did settings.idempotencyTtlSeconds settings.idempotencyMaxEntries action
      store) (hkept : ∀ id, action ≠ .abandon id) (hk : k ∈ store.requests) :
    k.phase ≠ .ended .abandoned ∧ (k.phase.isStreaming = true →
      (∃ r ∈ s.requests, r.claim = some k.id ∧ r.streaming = true ∧ r.phase.isOver = false)
        ∨ (k.id = s.store.requests.length ∧ ∃ key print, action = .stream key print)) := by
  rcases stored.origin hk with hold | hquiet | ⟨hstreaming, hid, hwhich⟩ | ⟨id, hid⟩
  · exact ⟨hclaimed.claims k hold, fun h => .inl (hclaimed.streams k hold h)⟩
  · exact ⟨hquiet.2, fun h => absurd (h.symm.trans hquiet.1) nofun⟩
  · refine ⟨fun h => ?_, fun _ => .inr ⟨hid, hwhich⟩⟩
    rw [h] at hstreaming
    exact absurd hstreaming nofun
  · exact absurd hid (hkept id)

theorem push (hclaimed : s.Claimed) {streaming : Bool} {holder : Holder} {body : ChatRequest}
    {claim : Option ℕ} {store : Keyed} (hclaims : ∀ k ∈ store.requests, k.phase ≠ .ended .abandoned)
    (hstreams : ∀ k ∈ store.requests, k.phase.isStreaming = true →
      (∃ r ∈ s.requests, r.claim = some k.id ∧ r.streaming = true ∧ r.phase.isOver = false)
        ∨ (claim = some k.id ∧ streaming = true)) :
    (push streaming holder body claim { s with store }).Claimed := by
  refine ⟨fun x hx => ?_, hclaims, fun k hk hstreaming => ?_⟩
  · rcases mem_append.1 hx with hx | hx
    · exact hclaimed.requests x hx
    · rw [mem_singleton.1 hx]
      exact nofun
  · rcases hstreams k hk hstreaming with ⟨r, hr, h⟩ | ⟨hclaim, hstream⟩
    · exact ⟨r, mem_append_left _ hr, h⟩
    · exact ⟨_, mem_append_right _ (mem_singleton.2 rfl), hclaim, hstream, rfl⟩

theorem did (hs : s.Sound) (hclaimed : s.Claimed) (hok : Iterated a s)
    (hdid : s.Did settings a s') : s'.Claimed := by
  cases hdid with
  | arrived => exact hclaimed.push hclaimed.claims fun k hk h => .inl (hclaimed.streams k hk h)
  | @entered streaming holder raw print body action store which stored =>
    have hkept : ∀ id, action ≠ .abandon id := by
      intro id
      rw [which]
      cases streaming <;> simp
    refine hclaimed.push (fun k hk => (hclaimed.store stored hkept hk).1) fun k hk hstreaming => ?_
    rcases (hclaimed.store stored hkept hk).2 hstreaming with h | ⟨hid, key, print', haction⟩
    · exact .inl h
    · refine .inr ⟨by rw [hid], ?_⟩
      cases streaming with
      | true => rfl
      | false => exact absurd (which.symm.trans haction) nofun
  | @turnedAway streaming holder raw print body action store which stored idle =>
    have hkept : ∀ id, action ≠ .abandon id := by
      intro id
      rw [which]
      cases streaming <;> simp
    refine ⟨hclaimed.requests, fun k hk => (hclaimed.store stored hkept hk).1,
      fun k hk hstreaming => ?_⟩
    rcases (hclaimed.store stored hkept hk).2 hstreaming with h | ⟨hid, -⟩
    · exact h
    · have hget : store.getRequest s.store.requests.length = some k :=
        hid ▸ (hs.store.did stored).getRequest hk
      rw [hget] at idle
      simp [KeyedPhase.executing, hstreaming] at idle
  | moved request goes => exact hclaimed.moved hs hok request goes
  | newDay => exact ⟨hclaimed.requests, hclaimed.claims, hclaimed.streams⟩
  | @keyed action store which stored =>
    have hkept : ∀ id, action ≠ .abandon id := by
      rintro id rfl
      simp at which
    refine ⟨hclaimed.requests, fun k hk => (hclaimed.store stored hkept hk).1,
      fun k hk hstreaming => ?_⟩
    rcases (hclaimed.store stored hkept hk).2 hstreaming with h | ⟨-, key, print, rfl⟩
    · exact h
    · simp at which

end Claimed

/-- The counters are never negative; and once no request is in progress they are zero and no
stream's entry is in the idempotency store. -/
structure GivenBack (s : Inference) : Prop where
  nonneg : (∀ h, 0 ≤ s.reserved h) ∧ ∀ p, 0 ≤ s.reservedProvider p
  idle : (∀ r ∈ s.requests, r.phase.isOver = true) → (∀ h, s.reserved h = 0)
    ∧ (∀ p, s.reservedProvider p = 0) ∧ ∀ e ∈ s.store.entries, e.streaming = false

theorem reserved_of_isOver (hover : r.phase.isOver = true) (hkept : r.phase ≠ .dropped) :
    r.reserved = 0 := by
  refine LlmRequest.reserved_of_not_held ?_
  cases hphase : r.phase with
  | ended => rfl
  | dropped => exact absurd hphase hkept
  | _ => exact absurd (hphase ▸ hover) nofun

theorem Sound.givenBack (hs : s.Sound) (hclaimed : s.Claimed) : s.GivenBack where
  nonneg := by
    constructor
    · intro h
      rw [hs.reserved]
      exact Int.natCast_nonneg _
    · intro p
      rw [hs.reservedProvider]
      exact Int.natCast_nonneg _
  idle hover := by
    have hzero : ∀ p : LlmRequest → Prop, [DecidablePred p] →
        s.total (fun r => if p r then r.reserved else 0) = 0 := by
      intro p _
      refine sum_eq_zero fun n hn => ?_
      obtain ⟨r, hr, rfl⟩ := mem_map.1 hn
      rw [reserved_of_isOver (hover r hr) (hclaimed.requests r hr), ite_self]
    refine ⟨fun h => ?_, fun p => ?_, fun e he => ?_⟩
    · rw [hs.reserved, hzero fun r => r.holder = h, Nat.cast_zero]
    · rw [hs.reservedProvider, hzero fun r => r.provider = p, Nat.cast_zero]
    · by_contra hstreaming
      obtain ⟨k, hk, hnot⟩ := hs.store.not_quiet he (by simpa using hstreaming)
      refine hnot ⟨?_, hclaimed.claims k hk⟩
      by_contra hphase
      obtain ⟨r, hr, -, -, hover'⟩ := hclaimed.streams k hk (by simpa using hphase)
      exact absurd ((hover r hr).symm.trans hover') nofun

/-- In every run in which no stream is dropped before its body is iterated, everything reserved is
given back. -/
theorem givenBack_of_iterated (settings : InferenceSettings) (actions : List LlmAction)
    (hmeets : (inference settings).Meets Iterated actions empty) :
    (inference settings).Along GivenBack actions empty := by
  have hstep : ∀ a s t, s.Sound ∧ s.Claimed → Iterated a s →
      (inference settings).step a s = some t →
      t.Sound ∧ t.Claimed := by
    intro a s t hs hok hstep
    exact ⟨hs.1.did (did_of_step hstep), hs.2.did hs.1 hok (did_of_step hstep)⟩
  have halong := Machine.along_of_meets hstep actions ⟨.empty, ⟨nofun, nofun, nofun⟩⟩ hmeets
  exact halong.mono fun s hs => hs.1.givenBack hs.2

/-- A keyed stream from its arrival to its end. -/
theorem stream_givenBack :
    let settings : InferenceSettings := ⟨100, 0, 3600, 2000⟩
    let actions : List LlmAction := [.arrive true ("run", "r") (some ("k", "a")) ⟨["hello"], 10⟩,
      .reserve 0 "local" none, .read 0, .compare 0, .adapt 0, .start 0, .result 0 5,
      .record 0 (.result .null), .resume 0, .close 0]
    ((inference settings).run actions empty).isSome = true
      ∧ (inference settings).Along GivenBack actions empty :=
  ⟨by decide, givenBack_of_iterated _ _ (by simp [Machine.Meets, Iterated])⟩

/-- The same stream, dropped after `prepare()`: its estimate of 11 tokens stays reserved and its key
stays claimed. -/
theorem dropped_stream :
    let settings : InferenceSettings := ⟨100, 0, 3600, 2000⟩
    let actions : List LlmAction := [.arrive true ("run", "r") (some ("k", "a")) ⟨["hello"], 10⟩,
      .reserve 0 "local" none, .read 0, .compare 0, .adapt 0, .drop 0]
    (¬ (inference settings).Along GivenBack actions empty)
      ∧ ((inference settings).run actions empty).any (fun s => s.requests.all (·.phase.isOver)
        && s.reserved ("run", "r") = 11 && s.reservedProvider "local" = 11
        && s.store.entries.any (·.streaming)) = true := by
  refine ⟨fun h => ?_, by decide⟩
  have hweak := h.mono (Q := fun s =>
    s.requests.all (·.phase.isOver) = true → s.reserved ("run", "r") = 0)
    fun s hs hover => (hs.idle (by simpa using hover)).1 _
  revert hweak
  decide

end Inference

end Crewquarters
