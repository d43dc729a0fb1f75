import Crewquarters.Inference
import Crewquarters.Proofs.Replayed

/-!
# What the counters hold

A step of an inference request moves one request from one phase to another, records the tokens of at
most one row and takes at most one step of the idempotency store.
-/

namespace Crewquarters

open Option LlmRequest

namespace LlmPhase

@[simp] theorem held_checking (checks : List BudgetCheck) : (checking checks).held = true := by
  cases checks <;> rfl

@[simp] theorem isOver_checking (checks : List BudgetCheck) : (checking checks).isOver = false := by
  cases checks <;> rfl

end LlmPhase

/-- Where a request goes that leaves `chat()`, or `prepare()` and `stream()`. -/
def LlmRequest.exit (r : LlmRequest) : LlmPhase := if r.streaming then .closing else .ended

@[simp] theorem LlmRequest.held_exit (r : LlmRequest) : r.exit.held = false := by
  unfold exit
  split_ifs <;> rfl

theorem LlmRequest.reserved_of_held {r : LlmRequest} (h : r.phase.held = true) :
    r.reserved = r.estimate := by
  rw [reserved, if_pos h]

theorem LlmRequest.reserved_of_not_held {r : LlmRequest} (h : r.phase.held = false) :
    r.reserved = 0 := by
  rw [reserved, if_neg (by simp [h])]

namespace Inference

variable {settings : InferenceSettings} {s s' : Inference} {a : LlmAction} {r r' : LlmRequest}
  {tokens : Option ℕ} {touch : Option KeyedAction}

def exitClaim (r : LlmRequest) (outcome : CallOutcome) : Option KeyedAction :=
  if r.streaming then none else r.claim.map fun claim => .finish claim outcome

/-- The store after an action on it, if there is one and it is enabled. -/
def storeAfter (settings : InferenceSettings) (touch : Option KeyedAction) (store : Keyed) :
    Keyed :=
  match touch with
  | none => store
  | some action => (Keyed.step settings.idempotencyTtlSeconds settings.idempotencyMaxEntries action
      store).getD store

/-- What a step makes of a request, the tokens it records and what it does to the store. -/
inductive Goes (settings : InferenceSettings) (s : Inference) (r : LlmRequest) :
    LlmAction → LlmRequest → Option ℕ → Option KeyedAction → Prop where
  | reserved {provider cloud} (arriving : r.phase = .arriving) :
      Goes settings s r (.reserve r.id provider cloud)
        { r with provider, phase := .checking (budgetChecks settings r.holder provider cloud) }
        none none
  | read {check rest} (reading : r.phase = .reading check rest) :
      Goes settings s r (.read r.id)
        { r with phase := .comparing check rest (s.used check r) } none none
  | passed {check rest used} (comparing : r.phase = .comparing check rest used)
      (within : (used : ℤ) + s.pending check r ≤ check.limit) :
      Goes settings s r (.compare r.id) { r with phase := .checking rest } none none
  | refused {check rest used} (comparing : r.phase = .comparing check rest used) :
      Goes settings s r (.compare r.id) { r with phase := r.exit } none
        (exitClaim r (.error (check.error r.provider)))
  | called (adapting : r.phase = .adapting) (chat : r.streaming = false) :
      Goes settings s r (.adapt r.id) { r with sent := true, phase := .calling } none none
  | prepared (adapting : r.phase = .adapting) (stream : r.streaming = true) :
      Goes settings s r (.adapt r.id) { r with phase := .prepared } none none
  | started (prepared : r.phase = .prepared) :
      Goes settings s r (.start r.id) { r with sent := true, phase := .streaming } none none
  | dropped (prepared : r.phase = .prepared) :
      Goes settings s r (.drop r.id) { r with phase := .dropped } none (r.claim.map .abandon)
  | answered {n} (calling : r.phase = .calling) :
      Goes settings s r (.result r.id n) { r with phase := .recording n } none none
  | resulted {n} (streaming : r.phase = .streaming) :
      Goes settings s r (.result r.id n) { r with phase := .finishing n } none none
  | failed (calling : r.phase = .calling) :
      Goes settings s r (.fail r.id) { r with phase := .failing } none none
  | cut {n} (running : r.phase = .streaming ∨ (∃ m, r.phase = .finishing m) ∨ r.phase = .finished) :
      Goes settings s r (.cut r.id n) { r with phase := .cutShort n } none none
  | disconnected (running : r.phase = .streaming ∨ r.phase = .finished) :
      Goes settings s r (.disconnect r.id) { r with claim := none } none (r.claim.map .endStream)
  | errorRecorded {outcome} (failing : r.phase = .failing) :
      Goes settings s r (.record r.id outcome) { recordedBy r 0 with phase := r.exit } (some 0)
        (exitClaim r outcome)
  | usageRecorded {n outcome} (recording : r.phase = .recording n) :
      Goes settings s r (.record r.id outcome) { recordedBy r n with phase := r.exit } (some n)
        (exitClaim r outcome)
  | streamRecorded {n outcome} (recording : r.phase = .finishing n ∨ r.phase = .cutShort n) :
      Goes settings s r (.record r.id outcome) { recordedBy r n with phase := .finished }
        (some n) none
  | resumed (finished : r.phase = .finished) :
      Goes settings s r (.resume r.id) { r with phase := .closing } none none
  | stopped {outcome} (stops : r.phase.stops = true) :
      Goes settings s r (.stop r.id outcome) { r with phase := r.exit } none (exitClaim r outcome)
  | closed (closing : r.phase = .closing) :
      Goes settings s r (.close r.id) { r with phase := .ended } none (r.claim.map .endStream)

def usageAfter (r : LlmRequest) (tokens : Option ℕ) (s : Inference) : List LlmUsage :=
  match tokens with
  | none => s.usage
  | some n => (s.record r n).usage

def moved (settings : InferenceSettings) (r r' : LlmRequest) (tokens : Option ℕ)
    (touch : Option KeyedAction) (s : Inference) : Inference where
  reserved h := s.reserved h + if h = r'.holder then (r'.reserved : ℤ) - r.reserved else 0
  reservedProvider p :=
    s.reservedProvider p + if p = r'.provider then (r'.reserved : ℤ) - r.reserved else 0
  usage := usageAfter r tokens s
  today := s.today
  store := storeAfter settings touch s.store
  requests := Table.put LlmRequest.id r' s.requests

/-- Every way a step can go. -/
inductive Did (settings : InferenceSettings) (s : Inference) : LlmAction → Inference → Prop where
  | arrived {streaming holder body} :
      Did settings s (.arrive streaming holder none body) (s.push streaming holder body none)
  | entered {streaming holder raw print body action store}
      (which : action = if streaming then .stream (holder.1, holder.2, raw) print
        else .run (holder.1, holder.2, raw) print)
      (stored : s.store.Did settings.idempotencyTtlSeconds settings.idempotencyMaxEntries action
        store) :
      Did settings s (.arrive streaming holder (some (raw, print)) body)
        (push streaming holder body (some s.store.requests.length) { s with store })
  | turnedAway {streaming holder raw print body action store}
      (which : action = if streaming then .stream (holder.1, holder.2, raw) print
        else .run (holder.1, holder.2, raw) print)
      (stored : s.store.Did settings.idempotencyTtlSeconds settings.idempotencyMaxEntries action
        store)
      (idle : ((store.getRequest s.store.requests.length).any fun q => q.phase.executing) = false) :
      Did settings s (.arrive streaming holder (some (raw, print)) body) { s with store }
  | moved {a : LlmAction} {r r' : LlmRequest} {tokens : Option ℕ} {touch : Option KeyedAction}
      (request : s.getRequest r.id = some r) (goes : Goes settings s r a r' tokens touch) :
      Did settings s a (s.moved settings r r' tokens touch)
  | newDay : Did settings s .newDay { s with today := s.today + 1 }
  | keyed {action store}
      (which : (∃ now, action = .advance now) ∨ ∃ id, action = .wake id ∨ action = .cancel id)
      (stored : s.store.Did settings.idempotencyTtlSeconds settings.idempotencyMaxEntries action
        store) : Did settings s (.keyed action) { s with store }

theorem getRequest_id {id : ℕ} (h : s.getRequest id = some r) : r.id = id := Table.get_key h

theorem onRequest_eq_some {id : ℕ} {f : LlmRequest → Option Inference}
    (h : s.onRequest id f = some s') :
    ∃ r, r.id = id ∧ s.getRequest r.id = some r ∧ f r = some s' := by
  obtain ⟨r, hr, hthen⟩ := bind_eq_some_iff.1 h
  obtain rfl := getRequest_id hr
  exact ⟨r, rfl, hr, hthen⟩

theorem onClaim_eq (r : LlmRequest) (action : ℕ → KeyedAction) (s : Inference) :
    s.onClaim settings r action
      = { s with store := storeAfter settings (r.claim.map action) s.store } := by
  unfold onClaim storeAfter
  cases r.claim <;> rfl

theorem leave_eq (r : LlmRequest) (outcome : CallOutcome) (s : Inference) :
    s.leave settings r outcome = setRequest { r with phase := r.exit }
      { s with store := storeAfter settings (exitClaim r outcome) s.store } := by
  unfold leave exitClaim LlmRequest.exit
  split
  · rfl
  · rw [onClaim_eq, goto]

section Did
variable (request : s.getRequest r.id = some r) (goes : Goes settings s r a r' tokens touch)
include request goes

theorem Did.of_eq {t : Inference}
    (hreserved : ∀ h, t.reserved h
      = s.reserved h + if h = r'.holder then (r'.reserved : ℤ) - r.reserved else 0)
    (hprovider : ∀ p, t.reservedProvider p
      = s.reservedProvider p + if p = r'.provider then (r'.reserved : ℤ) - r.reserved else 0)
    (husage : t.usage = usageAfter r tokens s)
    (htoday : t.today = s.today) (hstore : t.store = storeAfter settings touch s.store)
    (hrequests : t.requests = Table.put LlmRequest.id r' s.requests) : Did settings s a t := by
  have ht : t = s.moved settings r r' tokens touch :=
    Inference.ext (funext hreserved) (funext hprovider) husage htoday hstore hrequests
  exact ht ▸ .moved request goes

theorem Did.of_held (hestimate : r'.estimate = r.estimate)
    (hheld : r'.phase.held = r.phase.held) :
    Did settings s a (setRequest r' { s with
      usage := usageAfter r tokens s
      store := storeAfter settings touch s.store }) := by
  have heq : r'.reserved = r.reserved := by
    rw [LlmRequest.reserved, LlmRequest.reserved, hestimate, hheld]
  refine .of_eq request goes (fun h => ?_) (fun p => ?_) rfl rfl rfl rfl
  · simp [setRequest, heq]
  · simp [setRequest, heq]

theorem Did.of_unreserve (hholder : r'.holder = r.holder)
    (hprovider : r'.provider = r.provider) (hheld : r.phase.held = true)
    (hafter : r'.phase.held = false) :
    Did settings s a (setRequest r' { s.unreserve r with
      usage := usageAfter r tokens s
      store := storeAfter settings touch s.store }) := by
  have hr := reserved_of_held hheld
  have hr' := reserved_of_not_held hafter
  refine .of_eq request goes (fun h => ?_) (fun p => ?_) rfl rfl rfl rfl
  · by_cases hh : h = r.holder <;> simp [setRequest, unreserve, reserveTokens, hr, hr', hholder, hh]
  · by_cases hp : p = r.provider <;>
      simp [setRequest, unreserve, reserveTokens, hr, hr', hprovider, hp]

end Did

theorem did_arrive (streaming : Bool) (holder : Holder) (key : Option (String × String))
    (body : ChatRequest) :
    s.Did settings (.arrive streaming holder key body)
      (s.arrive settings streaming holder key body) := by
  unfold arrive
  cases key with
  | none => exact .arrived
  | some key =>
    obtain ⟨raw, print⟩ := key
    have hstored : s.store.Did settings.idempotencyTtlSeconds settings.idempotencyMaxEntries
        (if streaming then .stream (holder.1, holder.2, raw) print
          else .run (holder.1, holder.2, raw) print)
        (enter settings streaming (holder.1, holder.2, raw) print s.store) := by
      cases streaming with
      | true => exact Keyed.did_stream _ _
      | false => exact Keyed.did_run _ _
    dsimp only
    split
    · exact .entered rfl hstored
    · rename_i hidle
      exact .turnedAway rfl hstored (Bool.not_eq_true _ ▸ hidle)

theorem did_keyed {action : KeyedAction} (h : step settings (.keyed action) s = some s') :
    s.Did settings (.keyed action) s' := by
  cases action with
  | advance now =>
    obtain ⟨store, hstore, rfl⟩ := map_eq_some_iff.1 h
    exact .keyed (.inl ⟨now, rfl⟩) (Keyed.did_of_step hstore)
  | wake id =>
    obtain ⟨store, hstore, rfl⟩ := map_eq_some_iff.1 h
    exact .keyed (.inr ⟨id, .inl rfl⟩) (Keyed.did_of_step hstore)
  | cancel id =>
    obtain ⟨store, hstore, rfl⟩ := map_eq_some_iff.1 h
    exact .keyed (.inr ⟨id, .inr rfl⟩) (Keyed.did_of_step hstore)
  | run | finish | stream | endStream | abandon => cases h

/-! One lemma for each action of a request, by the phases in which it is enabled. -/

section Actions

variable {id n : ℕ} {outcome : CallOutcome}

theorem did_reserve {provider : String} {cloud : Option CloudProfile}
    (h : step settings (.reserve id provider cloud) s = some s') :
    s.Did settings (.reserve id provider cloud) s' := by
  obtain ⟨r, rfl, hr, h⟩ := onRequest_eq_some h
  split at h
  · rename_i hphase
    obtain rfl := some.inj h
    have hzero : r.reserved = 0 := reserved_of_not_held (by rw [hphase]; rfl)
    refine .of_eq hr (.reserved hphase) (fun h => ?_) (fun p => ?_) rfl rfl rfl rfl
    · by_cases hh : h = r.holder <;>
        simp [goto, setRequest, reserveTokens, reserved_of_held, hzero, hh]
    · by_cases hp : p = provider <;>
        simp [goto, setRequest, reserveTokens, reserved_of_held, hzero, hp]
  · cases h

theorem did_read (h : step settings (.read id) s = some s') : s.Did settings (.read id) s' := by
  obtain ⟨r, rfl, hr, h⟩ := onRequest_eq_some h
  split at h
  · rename_i check rest hphase
    obtain rfl := some.inj h
    exact .of_held hr (.read hphase) rfl (by rw [hphase]; rfl)
  · cases h

theorem did_compare (h : step settings (.compare id) s = some s') :
    s.Did settings (.compare id) s' := by
  obtain ⟨r, rfl, hr, h⟩ := onRequest_eq_some h
  split at h
  · rename_i check rest used hphase
    obtain rfl := some.inj h
    have hheld : r.phase.held = true := by rw [hphase]; rfl
    unfold compare
    split
    · rw [leave_eq]
      exact .of_unreserve hr (.refused hphase) rfl rfl hheld r.held_exit
    · rename_i hwithin
      exact .of_held hr (.passed hphase (not_lt.1 hwithin)) rfl (by simp [hheld])
  · cases h

theorem did_adapt (h : step settings (.adapt id) s = some s') :
    s.Did settings (.adapt id) s' := by
  obtain ⟨r, rfl, hr, h⟩ := onRequest_eq_some h
  split at h
  · rename_i hphase
    obtain rfl := some.inj h
    split
    · rename_i hstream
      exact .of_held hr (.prepared hphase hstream) rfl (by rw [hphase]; rfl)
    · rename_i hchat
      exact .of_held hr (.called hphase (Bool.not_eq_true _ ▸ hchat)) rfl (by rw [hphase]; rfl)
  · cases h

theorem did_start (h : step settings (.start id) s = some s') :
    s.Did settings (.start id) s' := by
  obtain ⟨r, rfl, hr, h⟩ := onRequest_eq_some h
  split at h
  · rename_i hphase
    obtain rfl := some.inj h
    exact .of_held hr (.started hphase) rfl (by rw [hphase]; rfl)
  · cases h

theorem did_drop (h : step settings (.drop id) s = some s') : s.Did settings (.drop id) s' := by
  obtain ⟨r, rfl, hr, h⟩ := onRequest_eq_some h
  split at h
  · rename_i hphase
    obtain rfl := some.inj h
    rw [onClaim_eq]
    exact .of_held hr (.dropped hphase) rfl (by rw [hphase]; rfl)
  · cases h

theorem did_result (h : step settings (.result id n) s = some s') :
    s.Did settings (.result id n) s' := by
  obtain ⟨r, rfl, hr, h⟩ := onRequest_eq_some h
  split at h
  · rename_i hphase
    obtain rfl := some.inj h
    exact .of_unreserve hr (.answered hphase) rfl rfl (by rw [hphase]; rfl) rfl
  · rename_i hphase
    obtain rfl := some.inj h
    exact .of_held hr (.resulted hphase) rfl (by rw [hphase]; rfl)
  · cases h

theorem did_fail (h : step settings (.fail id) s = some s') : s.Did settings (.fail id) s' := by
  obtain ⟨r, rfl, hr, h⟩ := onRequest_eq_some h
  split at h
  · rename_i hphase
    obtain rfl := some.inj h
    exact .of_held hr (.failed hphase) rfl (by rw [hphase]; rfl)
  · cases h

theorem did_cut (h : step settings (.cut id n) s = some s') :
    s.Did settings (.cut id n) s' := by
  obtain ⟨r, rfl, hr, h⟩ := onRequest_eq_some h
  split at h
  · rename_i hphase
    obtain rfl := some.inj h
    exact .of_held hr (.cut (.inl hphase)) rfl (by rw [hphase]; rfl)
  · rename_i m hphase
    obtain rfl := some.inj h
    exact .of_held hr (.cut (.inr (.inl ⟨m, hphase⟩))) rfl (by rw [hphase]; rfl)
  · rename_i hphase
    obtain rfl := some.inj h
    exact .of_held hr (.cut (.inr (.inr hphase))) rfl (by rw [hphase]; rfl)
  · cases h

theorem did_disconnect (h : step settings (.disconnect id) s = some s') :
    s.Did settings (.disconnect id) s' := by
  obtain ⟨r, rfl, hr, h⟩ := onRequest_eq_some h
  split at h
  · rename_i hphase
    obtain rfl := some.inj h
    rw [onClaim_eq]
    exact .of_held hr (.disconnected (.inl hphase)) rfl rfl
  · rename_i hphase
    obtain rfl := some.inj h
    rw [onClaim_eq]
    exact .of_held hr (.disconnected (.inr hphase)) rfl rfl
  · cases h

theorem did_record (h : step settings (.record id outcome) s = some s') :
    s.Did settings (.record id outcome) s' := by
  obtain ⟨r, rfl, hr, h⟩ := onRequest_eq_some h
  split at h
  · rename_i hphase
    obtain rfl := some.inj h
    rw [leave_eq]
    exact .of_unreserve hr (.errorRecorded hphase) rfl rfl (by rw [hphase]; rfl) r.held_exit
  · rename_i n hphase
    obtain rfl := some.inj h
    rw [leave_eq]
    exact .of_held hr (.usageRecorded hphase) rfl (by rw [hphase]; exact r.held_exit)
  · rename_i n hphase
    obtain rfl := some.inj h
    exact .of_held hr (.streamRecorded (.inl hphase)) rfl (by rw [hphase]; rfl)
  · rename_i n hphase
    obtain rfl := some.inj h
    exact .of_held hr (.streamRecorded (.inr hphase)) rfl (by rw [hphase]; rfl)
  · cases h

theorem did_resume (h : step settings (.resume id) s = some s') :
    s.Did settings (.resume id) s' := by
  obtain ⟨r, rfl, hr, h⟩ := onRequest_eq_some h
  split at h
  · rename_i hphase
    obtain rfl := some.inj h
    exact .of_unreserve hr (.resumed hphase) rfl rfl (by rw [hphase]; rfl) rfl
  · cases h

theorem did_stop (h : step settings (.stop id outcome) s = some s') :
    s.Did settings (.stop id outcome) s' := by
  obtain ⟨r, rfl, hr, h⟩ := onRequest_eq_some h
  split at h
  · rename_i hstops
    obtain rfl := some.inj h
    split
    · rename_i hheld
      rw [leave_eq]
      exact .of_unreserve hr (.stopped hstops) rfl rfl hheld r.held_exit
    · rename_i hheld
      rw [leave_eq]
      exact .of_held hr (.stopped hstops) rfl (by simp [hheld])
  · cases h

theorem did_close (h : step settings (.close id) s = some s') :
    s.Did settings (.close id) s' := by
  obtain ⟨r, rfl, hr, h⟩ := onRequest_eq_some h
  split at h
  · rename_i hphase
    obtain rfl := some.inj h
    rw [onClaim_eq]
    exact .of_held hr (.closed hphase) rfl (by rw [hphase]; rfl)
  · cases h

end Actions

theorem did_of_step (h : (inference settings).step a s = some s') : s.Did settings a s' := by
  change step settings a s = some s' at h
  cases a with
  | arrive streaming holder key body =>
    obtain rfl := some.inj h
    exact did_arrive streaming holder key body
  | newDay =>
    obtain rfl := some.inj h
    exact .newDay
  | keyed => exact did_keyed h
  | reserve => exact did_reserve h
  | read => exact did_read h
  | compare => exact did_compare h
  | adapt => exact did_adapt h
  | start => exact did_start h
  | drop => exact did_drop h
  | result => exact did_result h
  | fail => exact did_fail h
  | cut => exact did_cut h
  | disconnect => exact did_disconnect h
  | record => exact did_record h
  | resume => exact did_resume h
  | stop => exact did_stop h
  | close => exact did_close h

namespace Goes
variable (h : Goes settings s r a r' tokens touch)
include h

theorem id_eq : r'.id = r.id := by
  cases h <;> rfl

theorem holder_eq : r'.holder = r.holder := by
  cases h <;> rfl

theorem estimate_eq : r'.estimate = r.estimate := by
  cases h <;> rfl

theorem provider_eq : r'.provider = r.provider ∨ r.reserved = 0 := by
  cases h with
  | reserved arriving => exact .inr (reserved_of_not_held (by rw [arriving]; rfl))
  | _ => exact .inl rfl

end Goes

def total (f : LlmRequest → ℕ) (s : Inference) : ℕ := (s.requests.map f).sum

theorem total_push (f : LlmRequest → ℕ) {streaming : Bool} {holder : Holder} {body : ChatRequest}
    {claim : Option ℕ} (hf : ∀ r : LlmRequest, r.phase = .arriving → r.sent = false →
      r.recorded = none → f r = 0) :
    (s.push streaming holder body claim).total f = s.total f := by
  simp [push, total, hf]

/-- The counters are the sums of what the requests have reserved. -/
structure Sound (s : Inference) : Prop where
  ids : s.requests.map LlmRequest.id = List.range s.requests.length
  reserved : ∀ h, s.reserved h = s.total fun r => if r.holder = h then r.reserved else 0
  reservedProvider : ∀ p,
    s.reservedProvider p = s.total fun r => if r.provider = p then r.reserved else 0
  store : s.store.Sound

namespace Sound

section

variable (hs : s.Sound)
include hs

theorem nodup : (s.requests.map LlmRequest.id).Nodup := by
  rw [hs.ids]
  exact List.nodup_range

theorem eq_of_id {x y : LlmRequest} (hx : x ∈ s.requests) (hy : y ∈ s.requests) (h : x.id = y.id) :
    x = y :=
  List.inj_on_of_nodup_map hs.nodup hx hy h

theorem total_put (f : LlmRequest → ℕ) (request : s.getRequest r.id = some r) (hid : r'.id = r.id)
    (hput : s'.requests = Table.put LlmRequest.id r' s.requests) :
    s'.total f + f r = s.total f + f r' := by
  rw [total, hput]
  exact Table.sum_put f hs.nodup (hid.symm ▸ request)

theorem storeAfter (touch : Option KeyedAction) : (storeAfter settings touch s.store).Sound := by
  unfold Inference.storeAfter
  cases touch with
  | none => exact hs.store
  | some action =>
    dsimp only
    cases hstep : Keyed.step settings.idempotencyTtlSeconds settings.idempotencyMaxEntries action
        s.store with
    | none => exact hs.store
    | some store => exact hs.store.did (Keyed.did_of_step hstep)

theorem push {streaming : Bool} {holder : Holder} {body : ChatRequest} {claim : Option ℕ} :
    (s.push streaming holder body claim).Sound where
  ids := by simp [Inference.push, hs.ids, List.range_succ]
  reserved h := by
    rw [total_push _ fun r hr _ _ => by simp [reserved_of_not_held, hr, LlmPhase.held]]
    exact hs.reserved h
  reservedProvider p := by
    rw [total_push _ fun r hr _ _ => by simp [reserved_of_not_held, hr, LlmPhase.held]]
    exact hs.reservedProvider p
  store := hs.store

theorem moved (request : s.getRequest r.id = some r) (goes : Goes settings s r a r' tokens touch) :
    (s.moved settings r r' tokens touch).Sound where
  ids := by
    change (Table.put LlmRequest.id r' s.requests).map LlmRequest.id = _
    rw [Table.map_key_put, hs.ids]
    simp [Inference.moved, Table.put]
  reserved h := by
    have hsum := hs.total_put (fun r => if r.holder = h then r.reserved else 0) request goes.id_eq
      (rfl : (s.moved settings r r' tokens touch).requests = _)
    simp only [goes.holder_eq] at hsum
    change s.reserved h + (if h = r'.holder then _ else _) = _
    rw [hs.reserved h, goes.holder_eq]
    by_cases hh : r.holder = h
    · rw [if_pos hh, if_pos hh] at hsum
      rw [if_pos hh.symm]
      omega
    · rw [if_neg hh, if_neg hh] at hsum
      rw [if_neg (Ne.symm hh)]
      omega
  reservedProvider p := by
    have hsum := hs.total_put (fun r => if r.provider = p then r.reserved else 0) request
      goes.id_eq (rfl : (s.moved settings r r' tokens touch).requests = _)
    change s.reservedProvider p + (if p = r'.provider then _ else _) = _
    rw [hs.reservedProvider p]
    have hr : (if r.provider = p then r.reserved else 0)
        = if r'.provider = p then r.reserved else 0 := by
      rcases goes.provider_eq with hp | hzero
      · rw [hp]
      · rw [hzero, ite_self, ite_self]
    rw [hr] at hsum
    by_cases hp : r'.provider = p
    · rw [if_pos hp, if_pos hp] at hsum
      rw [if_pos hp.symm]
      omega
    · rw [if_neg hp, if_neg hp] at hsum
      rw [if_neg (Ne.symm hp)]
      omega
  store := hs.storeAfter touch

theorem did (hdid : s.Did settings a s') : s'.Sound := by
  have hstore : ∀ {store : Keyed}, store.Sound → Sound { s with store } :=
    fun h => ⟨hs.ids, hs.reserved, hs.reservedProvider, h⟩
  cases hdid with
  | arrived => exact hs.push
  | entered _ stored => exact (hstore (hs.store.did stored)).push
  | turnedAway _ stored => exact hstore (hs.store.did stored)
  | moved request goes => exact hs.moved request goes
  | newDay => exact ⟨hs.ids, hs.reserved, hs.reservedProvider, hs.store⟩
  | keyed _ stored => exact hstore (hs.store.did stored)

end

theorem empty : Inference.empty.Sound := ⟨rfl, fun _ => rfl, fun _ => rfl, .empty⟩

end Sound

/-- The counters are the sums of what the requests hold, however they end. -/
theorem counters_exact (settings : InferenceSettings) (actions : List LlmAction) :
    (inference settings).Along Sound actions empty :=
  Machine.along_of_step (fun _ _ _ hs h => hs.did (did_of_step h)) actions .empty

end Inference

end Crewquarters
