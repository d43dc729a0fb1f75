import Crewquarters.OwnerCalls
import Crewquarters.Proofs.HttpIdempotency

/-!
# A key dials once, unless a request fails after its dial

A call the broker makes for a request may be placed as long as the request works in its transaction,
and after it has committed (`Single.owned`). If no request is rolled back while its call is placed
or may still be, at most one request of a key has such a call. A timeout after Twilio accepted the
call rolls the key back, and the retry dials again (`dials_twice`).
-/

namespace Crewquarters

open List Option HttpIdempotency BrokerCall

namespace BrokerCall

variable {settings : VoiceSettings} {c c' : BrokerCall}

/-- A step of the broker on a call that may still be placed, or was. -/
def Moves (c c' : BrokerCall) : Prop := c'.request = c.request ∧ c.mayDial = true

theorem moves_check {now last : Time} {busy : Bool} (h : c.check settings now last busy = some c') :
    c.Moves c' := by
  unfold check at h
  split at h
  · rename_i hp
    obtain rfl := some.inj h
    exact ⟨rfl, by simp [mayDial, hp]⟩
  · cases h

theorem moves_credentials {missing : Option NoCredentials}
    (h : c.credentials settings missing = some c') : c.Moves c' := by
  unfold credentials at h
  split at h
  · rename_i hp
    obtain rfl := some.inj h
    exact ⟨rfl, by simp [mayDial, hp]⟩
  · cases h

theorem moves_place (h : c.place = some c') : c.Moves c' := by
  unfold place at h
  split_ifs at h
  split at h
  · rename_i hp
    obtain rfl := some.inj h
    exact ⟨rfl, by simp [mayDial, hp]⟩
  · rename_i hp
    obtain rfl := some.inj h
    exact ⟨rfl, by simp [mayDial, hp]⟩
  · cases h

theorem moves_reply {answer : TwilioAnswer} (h : c.reply settings answer = some c') :
    c.Moves c' := by
  unfold reply at h
  split at h
  · rename_i hp
    have hmay : c.mayDial = true := by simp [mayDial, hp]
    cases answer with
    | unreachable | rejected => exact some.inj h ▸ ⟨rfl, hmay⟩
    | accepted =>
      simp only at h
      split_ifs at h
      exact some.inj h ▸ ⟨rfl, hmay⟩
  · cases h

end BrokerCall

namespace OwnerCalls

variable {ε δ : Type*} {H : SecretDigest ε}
  {D : RequestDigest (CallFingerprint ε) δ} {settings : VoiceSettings} {s t : OwnerCalls ε δ}
  {n k : ℕ} {c c' : BrokerCall}

def Owns (n : ℕ) (s : OwnerCalls ε δ) : Prop :=
  (∃ r rec, s.http.requests[n]? = some r ∧ r.phase = .working rec)
    ∨ ∃ e ∈ s.http.effects, e.n = n

/-- The requests are those of the bodies, and what was committed is of one of them. -/
structure Traced (H : SecretDigest ε) (D : RequestDigest (CallFingerprint ε) δ)
    (s : OwnerCalls ε δ) : Prop where
  http : s.http.Sound D ()
  bodies : s.http.requests.map (fun r => (r.method, r.path, r.fingerprint))
    = s.bodies.map fun b => ("POST", b.path, b.fingerprint H)
  effects : ∀ e ∈ s.http.effects,
    (s.http.requests.map (·.toMutatingRequest))[e.n]? = some e.request

/-- A request makes one call to the broker, and while that may dial, the request holds its key. -/
structure Single (s : OwnerCalls ε δ) : Prop where
  calls : (s.calls.map (·.request)).Nodup
  owned : ∀ c ∈ s.calls, c.mayDial = true → s.Owns c.request

theorem isWorking_iff : s.isWorking n = true
    ↔ ∃ r rec, s.http.requests[n]? = some r ∧ r.phase = .working rec := by
  unfold isWorking
  rw [Option.any_eq_true]
  refine exists_congr fun r => ?_
  constructor
  · rintro ⟨hr, hp⟩
    split at hp
    · exact ⟨_, hr, ‹_›⟩
    · cases hp
  · rintro ⟨rec, hr, hp⟩
    exact ⟨hr, by rw [hp]⟩

theorem bodies_of_requests (h : Traced H D s)
    {requests : List (HandledRequest (CallFingerprint ε) δ)}
    (hsame : requests.map (·.toMutatingRequest) = s.http.requests.map (·.toMutatingRequest)) :
    requests.map (fun r => (r.method, r.path, r.fingerprint))
      = s.bodies.map fun b => ("POST", b.path, b.fingerprint H) := by
  have hfields : ∀ l : List (HandledRequest (CallFingerprint ε) δ),
      l.map (fun r => (r.method, r.path, r.fingerprint))
        = (l.map (·.toMutatingRequest)).map fun q => (q.method, q.path, q.fingerprint) := by
    intro l
    rw [List.map_map]
    rfl
  rw [hfields, hsame, ← hfields]
  exact h.bodies

namespace Traced

theorem start : Traced H D (start : OwnerCalls ε δ) :=
  ⟨.start (), rfl, by simp [OwnerCalls.start, HttpIdempotency.start]⟩

variable (h : Traced H D s)
include h

theorem onCall {f : BrokerCall → Option BrokerCall} (ht : s.onCall k f = some t) :
    Traced H D t := by
  obtain ⟨c', -, rfl⟩ := map_eq_some_iff.1 ht
  exact { h with }

variable [DecidableEq δ]

theorem onHttp {a : RequestAction (CallFingerprint ε) Unit}
    (harrive : ∀ request, a ≠ .arrive request)
    (ht : s.onHttp D a = some t) : Traced H D t := by
  obtain ⟨http, hstep, rfl⟩ := map_eq_some_iff.1 ht
  have hsound : http.Sound D () := h.http.step hstep
  obtain ⟨request, ha, -⟩ | ⟨n, r, phase, hn, rfl, -⟩
    | ⟨n, r, rec, code, body, change, hn, -, -, rfl⟩ := step_cases hstep
  · exact absurd ha (harrive request)
  · have hsame := requests_set hn phase
    exact ⟨hsound, bodies_of_requests h hsame,
      fun e he => (congrArg (·[e.n]?) hsame).trans (h.effects e he)⟩
  · have hsame := requests_set hn
      (.committed (.ofStored code (HttpIdempotency.encoded code body) false))
    refine ⟨hsound, bodies_of_requests h hsame, fun e he => (congrArg (·[e.n]?) hsame).trans ?_⟩
    rcases mem_append.1 he with he | he
    · exact h.effects e he
    · obtain rfl := mem_singleton.1 he
      simp [hn]

theorem step {a : OwnerCallAction} (ht : (machine H D settings).step a s = some t) :
    Traced H D t := by
  cases a with
  | arrive key body =>
    simp only [machine, OwnerCalls.step] at ht
    obtain ⟨u, hu, rfl⟩ := map_eq_some_iff.1 ht
    obtain ⟨http, hstep, rfl⟩ := map_eq_some_iff.1 hu
    have hstep' : (HttpIdempotency.machine D).step (.arrive (body.request H key)) s.http
        = some http := hstep
    have hsound : http.Sound D () := h.http.step hstep'
    obtain rfl := some.inj hstep
    refine ⟨hsound, ?_, fun e he => ?_⟩
    · simp only [map_append, map_cons, map_nil, h.bodies]
      rfl
    · rw [map_append]
      exact getElem?_append_left (List.getElem?_eq_some_iff.1 (h.effects e he)).1 |>.trans
        (h.effects e he)
  | send =>
    simp only [machine, OwnerCalls.step] at ht
    split_ifs at ht
    obtain ⟨body, -, rfl⟩ := map_eq_some_iff.1 ht
    exact { h with }
  | credentials =>
    have h' : ∀ last, Traced H D { s with lastTestCall := last } := fun last => { h with }
    exact (h' _).onCall ht
  | check | place | reply => exact h.onCall ht
  | finish =>
    simp only [machine, OwnerCalls.step] at ht
    split at ht
    · exact h.onHttp (by simp) ht
    · cases ht
  | insert | select | answer | fail => exact h.onHttp (by simp) ht

end Traced

namespace Single

theorem start : Single (start : OwnerCalls ε δ) :=
  ⟨by simp [OwnerCalls.start], by simp [OwnerCalls.start]⟩

section

variable (h : Single s)
include h

theorem goto {r : HandledRequest (CallFingerprint ε) δ} {phase : RequestPhase δ}
    (hn : s.http.requests[n]? = some r)
    (hdead : ∀ rec, r.phase = .working rec → ∀ c ∈ s.calls, c.request = n → c.mayDial = false) :
    Single { s with http := s.http.goto n r.toMutatingRequest phase } := by
  refine ⟨h.calls, fun c hc hmay => (h.owned c hc hmay).imp_left ?_⟩
  rintro ⟨q, rec, hq, hp⟩
  have hne : n ≠ c.request := by
    rintro rfl
    obtain rfl := some.inj (hn.symm.trans hq)
    rw [hdead rec hp c hc rfl] at hmay
    cases hmay
  exact ⟨q, rec, (getElem?_set_ne hne).trans hq, hp⟩

theorem onCall {f : BrokerCall → Option BrokerCall} (hf : ∀ {c c'}, f c = some c' → c.Moves c')
    (ht : s.onCall k f = some t) : Single t := by
  obtain ⟨c', hc', rfl⟩ := map_eq_some_iff.1 ht
  obtain ⟨c, hk, hstep⟩ := bind_eq_some_iff.1 hc'
  obtain ⟨hrequest, hmay⟩ := hf hstep
  have hrequests : (s.calls.set k c').map (·.request) = s.calls.map (·.request) :=
    Tasks.map_set_of_eq _ hk hrequest
  refine ⟨hrequests ▸ h.calls, fun d hd hd' => ?_⟩
  rcases Tasks.mem_of_mem_set hd with rfl | hd
  · exact hrequest ▸ h.owned c (mem_of_getElem? hk) hmay
  · exact h.owned d hd hd'

theorem send (hworking : s.isWorking n = true) (hnone : s.callOf n = none) (body : CallBody) :
    Single { s with calls := s.calls ++ [⟨n, body, .received, false⟩] } := by
  refine ⟨?_, fun c hc hmay => ?_⟩
  · rw [map_append, nodup_append]
    refine ⟨h.calls, by simp, fun x hx y hy => ?_⟩
    obtain ⟨c, hc, rfl⟩ := mem_map.1 hx
    obtain rfl : y = n := by simpa using hy
    simpa using List.find?_eq_none.1 hnone c hc
  · rcases mem_append.1 hc with hc | hc
    · exact h.owned c hc hmay
    · obtain rfl := mem_singleton.1 hc
      exact .inl (isWorking_iff.1 hworking)

theorem callOf_eq (hc : c ∈ s.calls) : s.callOf c.request = some c := by
  have hget : Table.get BrokerCall.request c.request s.calls = some c := Table.get_of_mem h.calls hc
  exact hget

omit h in
theorem request_unique {r r' : HandledRequest (CallFingerprint ε) δ} (h : Traced H D s)
    (hc : s.Owns n)
    (hc' : s.Owns k) (hr : s.http.requests[n]? = some r) (hr' : s.http.requests[k]? = some r')
    (hkey : r.key = r'.key) : n = k := by
  have hworking : ∀ {m : ℕ} {rec} {q : HandledRequest (CallFingerprint ε) δ} {e},
      e ∈ s.http.effects →
      s.http.requests[m]? = some q → q.phase = .working rec → e.request.key ≠ q.key := by
    intro m rec q e he hq hp
    have hfollows := h.http.requests q (mem_of_getElem? hq)
    rw [hp] at hfollows
    exact hfollows.2.2 e he
  have heffect : ∀ {m : ℕ} {q : HandledRequest (CallFingerprint ε) δ} {e},
      e ∈ s.http.effects →
      e.n = m → s.http.requests[m]? = some q → e.request = q.toMutatingRequest := by
    rintro m q e he rfl hq
    have hget := h.effects e he
    rw [getElem?_map, hq] at hget
    exact (some.inj hget).symm
  rcases hc with ⟨q, rec, hq, hp⟩ | ⟨e, he, hen⟩
  · obtain rfl := some.inj (hr.symm.trans hq)
    rcases hc' with ⟨q', rec', hq', hp'⟩ | ⟨e', he', hen'⟩
    · obtain rfl := some.inj (hr'.symm.trans hq')
      refine h.http.inserts hr hr' (inserted_working hp) ?_
      rw [hkey]
      exact inserted_working hp'
    · refine absurd ?_ (hworking he' hr hp)
      rw [heffect he' hen' hr', hkey]
  · rcases hc' with ⟨q', rec', hq', hp'⟩ | ⟨e', he', hen'⟩
    · obtain rfl := some.inj (hr'.symm.trans hq')
      refine absurd ?_ (hworking he hr' hp')
      rw [heffect he hen hr, hkey]
    · have hsame : e = e' := by
        refine h.http.effect_unique he he' ?_
        rw [heffect he hen hr, heffect he' hen' hr', hkey]
      rw [← hen, ← hen', hsame]

theorem dialled_le_one (htraced : Traced H D s) (key : String) : (s.dialled key).length ≤ 1 := by
  refine Table.length_le_one_of_nodup_map
    (h.calls.sublist (filter_sublist.map BrokerCall.request)) ?_
  have hmem : ∀ c ∈ s.dialled key, s.Owns c.request
      ∧ ∃ r, s.http.requests[c.request]? = some r ∧ r.key = key := by
    intro c hc
    obtain ⟨hc, hcond⟩ := mem_filter.1 hc
    obtain ⟨hplaced, hkey⟩ := Bool.and_eq_true_iff.1 hcond
    obtain ⟨r, hr, hkey⟩ := (any_eq_true _ _).mp hkey
    exact ⟨h.owned c hc (by simp [BrokerCall.mayDial, hplaced]), r, hr, of_decide_eq_true hkey⟩
  intro c hc c' hc'
  obtain ⟨howns, r, hr, hkey⟩ := hmem c hc
  obtain ⟨howns', r', hr', hkey'⟩ := hmem c' hc'
  exact request_unique htraced howns howns' hr hr' (hkey.trans hkey'.symm)

end

variable [DecidableEq δ]

theorem onHttp (h : Single s) {a : RequestAction (CallFingerprint ε) Unit}
    (harrive : ∀ request, a ≠ .arrive request)
    (hfail : ∀ n, a = .fail n → s.isWorking n = true →
      ∀ c ∈ s.calls, c.request = n → c.mayDial = false)
    (ht : s.onHttp D a = some t) : Single t := by
  obtain ⟨http, hstep, rfl⟩ := map_eq_some_iff.1 ht
  obtain ⟨request, ha, -⟩ | ⟨n, r, phase, hn, rfl, ha⟩
    | ⟨n, r, rec, code, body, change, hn, hp, -, rfl⟩ := step_cases hstep
  · exact absurd ha (harrive request)
  · refine h.goto hn fun rec hp => ?_
    rcases ha with ha | hidle
    · exact hfail n ha (isWorking_iff.2 ⟨r, rec, hn, hp⟩)
    · exact absurd hp (hidle rec)
  · refine ⟨h.calls, fun c hc hmay => ?_⟩
    rcases h.owned c hc hmay with ⟨q, rec', hq, hp'⟩ | ⟨e, he, hen⟩
    · by_cases hne : n = c.request
      · exact .inr ⟨_, mem_append_right _ (mem_singleton.2 rfl), hne⟩
      · exact .inl ⟨q, rec', (getElem?_set_ne hne).trans hq, hp'⟩
    · exact .inr ⟨e, mem_append_left _ he, hen⟩

theorem step (h : Single s) {a : OwnerCallAction} (hok : s.abandons a = false)
    (ht : (machine H D settings).step a s = some t) : Single t := by
  cases a with
  | arrive =>
    simp only [machine, OwnerCalls.step] at ht
    obtain ⟨u, hu, rfl⟩ := map_eq_some_iff.1 ht
    obtain ⟨http, hstep, rfl⟩ := map_eq_some_iff.1 hu
    obtain rfl := some.inj hstep
    refine ⟨h.calls, fun c hc hmay => (h.owned c hc hmay).imp_left ?_⟩
    rintro ⟨r, rec, hr, hp⟩
    exact ⟨r, rec, (getElem?_append_left (List.getElem?_eq_some_iff.1 hr).1).trans hr, hp⟩
  | send =>
    simp only [machine, OwnerCalls.step] at ht
    split_ifs at ht with hcond
    obtain ⟨body, -, rfl⟩ := map_eq_some_iff.1 ht
    obtain ⟨hworking, hnone⟩ := Bool.and_eq_true_iff.1 hcond
    exact h.send hworking (by simpa using hnone) body
  | check => exact h.onCall moves_check ht
  | credentials =>
    have h' : ∀ last, Single { s with lastTestCall := last } := fun last => { h with }
    exact (h' _).onCall moves_credentials ht
  | place => exact h.onCall moves_place ht
  | reply => exact h.onCall moves_reply ht
  | finish =>
    simp only [machine, OwnerCalls.step] at ht
    split at ht
    · exact h.onHttp (by simp) (by simp) ht
    · cases ht
  | insert | select | answer => exact h.onHttp (by simp) (by simp) ht
  | fail =>
    refine h.onHttp (by simp) (fun m hm hworking c hc hcm => ?_) ht
    obtain rfl := RequestAction.fail.inj hm
    subst hcm
    simpa [abandons, hworking, h.callOf_eq hc] using hok

end Single

theorem body_eq {b b' : CallBody} (hpath : b.path = b'.path)
    (hprint : b.fingerprint H = b'.fingerprint H) (hinst : b.instructions = b'.instructions) :
    b = b' := by
  cases b <;> cases b' <;> simp_all [CallBody.fingerprint, CallBody.instructions, CallBody.path]
  all_goals exact H.collisionFree hprint.1

/-- Requests with the same key have the same instructions. -/
def SameInstructions (s : OwnerCalls ε δ) : Prop :=
  ∀ (n m : ℕ) r r' b b', s.http.requests[n]? = some r → s.http.requests[m]? = some r' →
    s.bodies[n]? = some b → s.bodies[m]? = some b' → r.key = r'.key →
    b.instructions = b'.instructions

/-- The request whose stored answer is replayed has the body of the request that gets it. -/
theorem Traced.replays {s : OwnerCalls ε δ} (hs : Traced H D s) (hinst : s.SameInstructions) {n : ℕ}
    {r : HandledRequest (CallFingerprint ε) δ} {b : CallBody} {code : ℕ} {body : Option Json}
    (hn : s.http.requests[n]? = some r) (hb : s.bodies[n]? = some b)
    (hp : r.phase = .answered (.response code body true)) :
    ∃ e ∈ s.http.effects, e.request.key = r.key ∧ s.bodies[e.n]? = some b
      ∧ HttpReply.response code body true = .ofStored e.statusCode e.body true := by
  have hfollows := hs.http.requests r (mem_of_getElem? hn)
  rw [hp] at hfollows
  rcases hfollows with ⟨-, herr⟩ | ⟨e, he, hkey, hsame, hother⟩
  · cases herr
  have hrequest : e.request = r.toMutatingRequest := by
    by_contra hne
    cases hother hne
  obtain ⟨replayed, hreply⟩ := hsame hrequest
  have hreplayed : replayed = true := by
    unfold HttpReply.ofStored at hreply
    split_ifs at hreply <;> simp_all
  have hget := hs.effects e he
  rw [getElem?_map] at hget
  obtain ⟨r', hr', hr'e⟩ := map_eq_some_iff.1 hget
  have hfields : ∀ {m : ℕ} {q : HandledRequest (CallFingerprint ε) δ},
      s.http.requests[m]? = some q → ∃ b', s.bodies[m]? = some b'
        ∧ q.path = b'.path ∧ q.fingerprint = b'.fingerprint H := by
    intro m q hq
    have hmap := congrArg (·[m]?) hs.bodies
    simp only [getElem?_map, hq, map_some] at hmap
    obtain ⟨b', hb', heq⟩ := map_eq_some_iff.1 hmap.symm
    simp only [Prod.mk.injEq] at heq
    exact ⟨b', hb', heq.2.1.symm, heq.2.2.symm⟩
  obtain ⟨b₁, hb₁, hpath, hprint⟩ := hfields hn
  obtain rfl := some.inj (hb.symm.trans hb₁)
  obtain ⟨b', hb', hpath', hprint'⟩ := hfields hr'
  have hrr : r'.toMutatingRequest = r.toMutatingRequest := hr'e.trans hrequest
  have hbody : b' = b := by
    refine body_eq (H := H) ?_ ?_ (hinst e.n n r' r b' b hr' hn hb' hb (congrArg (·.key) hrr))
    · rw [← hpath', ← hpath]
      exact congrArg (·.path) hrr
    · rw [← hprint', ← hprint]
      exact congrArg (·.fingerprint) hrr
  exact ⟨e, he, hkey, hbody ▸ hb', by rw [hreply, hreplayed]⟩

variable [DecidableEq δ]

/-- If no request is rolled back while the call it sent to the broker was placed or may still be,
then one call is dialled for a key at most. And in every run, if the requests of a key have the same
instructions, then a request is answered by replay only of a request with the same body. -/
theorem key_dials_once (H : SecretDigest ε) (D : RequestDigest (CallFingerprint ε) δ)
    (settings : VoiceSettings) (actions : List OwnerCallAction) (s : OwnerCalls ε δ)
    (h : (machine H D settings).run actions start = some s) :
    ((machine H D settings).Meets (fun a s => s.abandons a = false) actions start →
      ∀ key, (s.dialled key).length ≤ 1)
    ∧ (s.SameInstructions →
      ∀ (n : ℕ) r b statusCode body, s.http.requests[n]? = some r → s.bodies[n]? = some b →
        r.phase = .answered (.response statusCode body true) →
        ∃ e ∈ s.http.effects, e.request.key = r.key ∧ s.bodies[e.n]? = some b
          ∧ HttpReply.response statusCode body true = .ofStored e.statusCode e.body true) := by
  have htraced : Traced H D s :=
    Machine.run_keeps (fun _ _ _ hs hstep => hs.step hstep) actions .start h
  refine ⟨fun hmeets => ?_, fun hinst n r b code body => htraced.replays hinst⟩
  have hsingle : Single s :=
    (Machine.along_of_meets (fun _ _ _ hs => hs.step) actions Single.start hmeets).last h
  exact hsingle.dialled_le_one htraced

def plainSecretDigest : SecretDigest String := ⟨id, Function.injective_id⟩

def plainCallDigest : RequestDigest (CallFingerprint String)
    (String × String × CallFingerprint String) where
  hash m p f := (m, p, f)
  collisionFree h := by simpa using h

def plainVoiceSettings : VoiceSettings := ⟨⟨false, [], Char.isDigit, fun _ => 0⟩, "https://tunnel"⟩

def plainCalls : Machine (OwnerCalls String (String × String × CallFingerprint String))
    OwnerCallAction :=
  machine plainSecretDigest plainCallDigest plainVoiceSettings

def testBody : CallBody := .test "+15550100200" true

/-- Request `n`, the broker's `k`-th call, up to Twilio's acceptance. -/
def dialing (n k : ℕ) (body : CallBody) (now : Time) : List OwnerCallAction :=
  [.arrive "retry-0001" body, .insert n, .send n, .check k now false, .credentials k none, .place k]

def answeredAndRetried : List OwnerCallAction :=
  dialing 0 0 testBody 0 ++ [.reply 0 (.accepted (.str "queued")), .finish 0, .answer 0,
    .arrive "retry-0001" testBody, .insert 1, .select 1]

theorem key_dials_once_retried :
    ∃ s, plainCalls.run answeredAndRetried start = some s ∧ (s.dialled "retry-0001").length = 1
      ∧ ∀ key, (s.dialled key).length ≤ 1 := by
  have hsome : (plainCalls.run answeredAndRetried start).any
      (fun s => (s.dialled "retry-0001").length = 1) = true := by
    decide +kernel
  obtain ⟨s, hs, hlength⟩ := (any_eq_true _ _).mp hsome
  refine ⟨s, hs, of_decide_eq_true hlength, ?_⟩
  exact (key_dials_once plainSecretDigest plainCallDigest plainVoiceSettings answeredAndRetried s
    hs).1 (by decide +kernel)

def isReplayed {δ : Type*} : RequestPhase δ → Bool
  | .answered (.response _ _ replayed) => replayed
  | _ => false

theorem eq_of_isReplayed {δ : Type*} {phase : RequestPhase δ} (h : isReplayed phase = true) :
    ∃ statusCode body, phase = .answered (.response statusCode body true) := by
  unfold isReplayed at h
  split at h
  · exact ⟨_, _, by rw [h]⟩
  · cases h

/-- The control API's request times out after Twilio accepted the call, and the retry with the same
key, more than a minute later, dials again. And a voice call with other instructions is answered by
replay. -/
theorem dials_twice :
    (∃ actions s, plainCalls.run actions start = some s ∧ (s.dialled "retry-0001").length = 2)
    ∧ ∃ actions s, plainCalls.run actions start = some s
      ∧ ∃ r b b' statusCode body, s.http.requests[1]? = some r ∧ s.bodies[0]? = some b
        ∧ s.bodies[1]? = some b' ∧ r.phase = .answered (.response statusCode body true)
        ∧ b.instructions ≠ b'.instructions := by
  constructor
  · have hsome : (plainCalls.run (dialing 0 0 testBody 0 ++ [.fail 0] ++ dialing 1 1 testBody 61)
        start).any (fun s => (s.dialled "retry-0001").length = 2) = true := by
      decide +kernel
    obtain ⟨s, hs, hlength⟩ := (any_eq_true _ _).mp hsome
    exact ⟨_, s, hs, of_decide_eq_true hlength⟩
  · let voice := fun instructions => CallBody.voice "+15550100200" true "female" instructions
    let actions := dialing 0 0 (voice "Be brief.") 0 ++ [.reply 0 (.accepted .null), .finish 0,
      .answer 0, .arrive "retry-0001" (voice "Take your time."), .insert 1, .select 1]
    have hsome : (plainCalls.run actions start).any (fun s =>
        (s.http.requests[1]?).any (fun r => isReplayed r.phase)
        && s.bodies.map CallBody.instructions = ["Be brief.", "Take your time."]) = true := by
      decide
    obtain ⟨s, hs, hcond⟩ := (any_eq_true _ _).mp hsome
    obtain ⟨hr, hbodies⟩ := Bool.and_eq_true_iff.1 hcond
    obtain ⟨r, hr, hp⟩ := (any_eq_true _ _).mp hr
    have hbodies := of_decide_eq_true hbodies
    have hget : ∀ (n : ℕ) (text : String), ["Be brief.", "Take your time."][n]? = some text →
        ∃ b, s.bodies[n]? = some b ∧ b.instructions = text := by
      intro n text htext
      rw [← hbodies, getElem?_map] at htext
      exact map_eq_some_iff.1 htext
    obtain ⟨b, hb, hinst⟩ := hget 0 "Be brief." rfl
    obtain ⟨b', hb', hinst'⟩ := hget 1 "Take your time." rfl
    obtain ⟨code, body, hphase⟩ := eq_of_isReplayed hp
    refine ⟨actions, s, hs, r, b, b', code, body, hr, hb, hb', hphase, ?_⟩
    rw [hinst, hinst']
    decide

end OwnerCalls

end Crewquarters
