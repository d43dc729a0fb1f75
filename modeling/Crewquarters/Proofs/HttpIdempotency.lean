import Crewquarters.HttpIdempotency
import Crewquarters.Lib.Tasks

/-!
# Keyed requests take effect once

The committed records are those of the commits, one a key (`Sound`). So a request finds the record
of its key with its response in it, or none and then inserts its own; it is never told that the
original is in progress. One in-flight insert of a key excludes the others until it commits or is
rolled back.
-/

namespace Crewquarters

open List Option

namespace HttpIdempotency

variable {φ δ σ : Type*} {D : RequestDigest φ δ} {data : σ}
  {s t : HttpIdempotency φ δ σ} {n : ℕ} {r : HandledRequest φ δ} {q : MutatingRequest φ}
  {phase : RequestPhase δ} {e : Effect φ σ} {effects : List (Effect φ σ)} {key : String}

def record (D : RequestDigest φ δ) (e : Effect φ σ) : IdempotencyRecord δ :=
  { newRecord D e.request with statusCode := some e.statusCode, responseBody := e.body }

/-- What a request with the key of a commit is told: the same response if it is the same request,
and else that the key was used. -/
def Replies (e : Effect φ σ) (q : MutatingRequest φ) (reply : HttpReply) : Prop :=
  (e.request = q → ∃ replayed, reply = .ofStored e.statusCode e.body replayed)
    ∧ (e.request ≠ q → reply = .error idempotencyKeyReused)

def Follows (D : RequestDigest φ δ) (effects : List (Effect φ σ)) (q : MutatingRequest φ) :
    RequestPhase δ → Prop
  | .started | .failed => True
  | .conflicted => ∃ e ∈ effects, e.request.key = q.key
  | .working record => record = newRecord D q ∧ q.validKey = true
      ∧ ∀ e ∈ effects, e.request.key ≠ q.key
  | .committed reply => ∃ e ∈ effects, e.request.key = q.key ∧ Replies e q reply
  | .answered reply => q.validKey = false ∧ reply = .error invalidIdempotencyKey
      ∨ ∃ e ∈ effects, e.request.key = q.key ∧ Replies e q reply

/-- The data and the records are those of the effects, one a key. -/
structure Sound (D : RequestDigest φ δ) (data : σ) (s : HttpIdempotency φ δ σ) : Prop where
  inserts : Tasks.Exclusive (fun r key => HandledRequest.inserted key r = true) s.requests
  data_eq : s.data = s.effects.foldl (fun d e => e.change d) data
  records : s.records = s.effects.map (record D)
  keys : (s.effects.map (·.request.key)).Nodup
  valid : ∀ e ∈ s.effects, e.request.validKey = true
  requests : ∀ r ∈ s.requests, Follows D s.effects r.toMutatingRequest r.phase

theorem inserted_working {record : IdempotencyRecord δ} (h : r.phase = .working record) :
    r.inserted r.key = true := by
  simp [HandledRequest.inserted, h]

theorem Follows.append (h : Follows D effects q phase)
    (hkey : ∀ record, phase = .working record → e.request.key ≠ q.key) :
    Follows D (effects ++ [e]) q phase := by
  cases phase with
  | started => trivial
  | failed => trivial
  | conflicted =>
    obtain ⟨e', he', hk⟩ := h
    exact ⟨e', mem_append_left _ he', hk⟩
  | working record =>
    refine ⟨h.1, h.2.1, fun e' he' => ?_⟩
    rcases mem_append.1 he' with he' | he'
    · exact h.2.2 e' he'
    · exact mem_singleton.1 he' ▸ hkey record rfl
  | committed =>
    obtain ⟨e', he', hk⟩ := h
    exact ⟨e', mem_append_left _ he', hk⟩
  | answered =>
    refine h.imp_right fun ⟨e', he', hk⟩ => ⟨e', mem_append_left _ he', hk⟩

namespace Sound

theorem start (data : σ) : Sound D data (start data) :=
  ⟨.nil, rfl, rfl, nodup_nil, by simp [HttpIdempotency.start], by simp [HttpIdempotency.start]⟩

section

variable (h : Sound D data s)
include h

theorem getRecord (he : e ∈ s.effects) : s.getRecord e.request.key = some (record D e) := by
  have hkeys : (s.records.map IdempotencyRecord.key).Nodup := by
    rw [h.records, List.map_map]
    exact h.keys
  have hmem : record D e ∈ s.records := h.records ▸ mem_map_of_mem he
  exact Table.get_of_mem hkeys hmem

theorem getRecord_eq_none :
    s.getRecord key = none ↔ ∀ e ∈ s.effects, e.request.key ≠ key := by
  rw [HttpIdempotency.getRecord, Table.get_eq_none, h.records, List.forall_mem_map]
  rfl

theorem effect_unique {e' : Effect φ σ} (he : e ∈ s.effects) (he' : e' ∈ s.effects)
    (hkey : e.request.key = e'.request.key) : e = e' :=
  inj_on_of_nodup_map h.keys he he' hkey

theorem goto (hn : s.requests[n]? = some r) (hphase : Follows D s.effects r.toMutatingRequest phase)
    (hfree : ∀ record, phase = .working record →
      s.requests.any (HandledRequest.inserted r.key) = false) :
    Sound D data (s.goto n r.toMutatingRequest phase) := by
  refine { h with inserts := ?_, requests := ?_ }
  · refine h.inserts.set hn fun key hkey => .inr fun r' hr' => ?_
    unfold HandledRequest.inserted at hkey
    split at hkey
    · rename_i record hw
      obtain rfl := of_decide_eq_true hkey
      exact any_eq_false.1 (hfree record hw) r' hr'
    · cases hkey
  · intro r' hr'
    rcases Tasks.mem_of_mem_set hr' with rfl | hr'
    · exact hphase
    · exact h.requests r' hr'

theorem finish {statusCode : ℕ} {body : Json} {change : σ → σ} {rec : IdempotencyRecord δ}
    (hn : s.requests[n]? = some r) (hr : r.phase = .working rec) :
    Sound D data (s.finish n statusCode body change r rec) := by
  have hworking : Follows D s.effects r.toMutatingRequest (.working rec) :=
    hr ▸ h.requests r (mem_of_getElem? hn)
  obtain ⟨hrec, hvalid, hnew⟩ := hworking
  refine ⟨?_, ?_, ?_, ?_, ?_, ?_⟩
  · exact h.inserts.set hn fun key hkey => by cases hkey
  · simp [HttpIdempotency.finish, h.data_eq]
  · simp [HttpIdempotency.finish, h.records, hrec, record]
  · simp only [HttpIdempotency.finish, map_append, map_cons, map_nil,
      nodup_append]
    refine ⟨h.keys, by simp, fun k hk k' hk' => ?_⟩
    obtain ⟨e, he, rfl⟩ := mem_map.1 hk
    obtain rfl := mem_singleton.1 hk'
    exact hnew e he
  · intro e he
    rcases mem_append.1 he with he | he
    · exact h.valid e he
    · exact mem_singleton.1 he ▸ hvalid
  · intro r' hr'
    rcases Tasks.mem_set hr' with rfl | ⟨m, hmn, hm⟩
    · refine ⟨⟨n, r.toMutatingRequest, statusCode, encoded statusCode body, change⟩, ?_, rfl,
        ?_, ?_⟩
      · simp [HttpIdempotency.finish]
      · exact fun _ => ⟨false, rfl⟩
      · exact fun hne => absurd rfl hne
    · refine (h.requests r' (mem_of_getElem? hm)).append fun record hp hkey => ?_
      -- the other request would hold the key as well
      refine h.inserts.not_holds hn (inserted_working hr) hmn hm ?_
      have hkey' : r.key = r'.key := hkey
      rw [hkey']
      exact inserted_working hp

theorem not_inserted (he : e ∈ s.effects) :
    s.requests.any (HandledRequest.inserted e.request.key) = false := by
  rw [List.any_eq_false]
  intro r hr hinserted
  have hfollows := h.requests r hr
  unfold HandledRequest.inserted at hinserted
  split at hinserted
  · rename_i rec hp
    rw [hp] at hfollows
    exact hfollows.2.2 e he (of_decide_eq_true hinserted).symm
  · cases hinserted

theorem insert (hn : s.requests[n]? = some r) (ht : s.insert D n r = some t) : Sound D data t := by
  unfold HttpIdempotency.insert at ht
  split_ifs at ht with hvalid hbusy
  · obtain rfl := some.inj ht
    exact h.goto hn (.inl ⟨by simpa using hvalid, rfl⟩) fun _ hp => by cases hp
  · have hfree : s.requests.any (HandledRequest.inserted r.key) = false := by simpa using hbusy
    split at ht
    · rename_i existing hget
      obtain rfl := some.inj ht
      have hsome : ¬ ∀ e ∈ s.effects, e.request.key ≠ r.key := by
        rw [← h.getRecord_eq_none, hget]
        simp
      push Not at hsome
      exact h.goto hn hsome fun _ hp => by cases hp
    · rename_i hget
      obtain rfl := some.inj ht
      exact h.goto hn ⟨rfl, by simpa using hvalid, h.getRecord_eq_none.1 hget⟩ fun _ _ => hfree

end

end Sound

variable [DecidableEq δ]

theorem replies_found (hkey : e.request.key = q.key) : Replies e q (found D q (record D e)) := by
  constructor
  · rintro rfl
    exact ⟨true, by simp [found, record, newRecord]⟩
  · intro hne
    refine if_pos fun hhash => hne ?_
    obtain ⟨hm, hp, hf⟩ := D.collisionFree hhash
    cases he : e.request
    cases q
    simp_all

namespace Sound

theorem select (h : Sound D data s) (hn : s.requests[n]? = some r) (hr : r.phase = .conflicted) :
    Sound D data (s.select D n r) := by
  obtain ⟨e, he, hkey⟩ : ∃ e ∈ s.effects, e.request.key = r.key := by
    have hfollows := h.requests r (mem_of_getElem? hn)
    rwa [hr] at hfollows
  have hselect : s.select D n r
      = s.goto n r.toMutatingRequest (.answered (found D r.toMutatingRequest (record D e))) := by
    rw [HttpIdempotency.select, ← hkey, h.getRecord he]
  rw [hselect]
  exact h.goto hn (.inr ⟨e, he, hkey, replies_found hkey⟩) fun _ hp => by cases hp

theorem step (h : Sound D data s) {a : RequestAction φ σ} (ht : (machine D).step a s = some t) :
    Sound D data t := by
  cases a with
  | arrive =>
    obtain rfl := some.inj ht
    refine { h with inserts := h.inserts.append (fun key hkey => by cases hkey), requests := ?_ }
    intro r hr
    rcases mem_append.1 hr with hr | hr
    · exact h.requests r hr
    · obtain rfl := mem_singleton.1 hr
      trivial
  | insert =>
    obtain ⟨r, hn, ht⟩ := bind_eq_some_iff.1 ht
    split at ht
    · exact h.insert hn ht
    · cases ht
  | select =>
    obtain ⟨r, hn, ht⟩ := bind_eq_some_iff.1 ht
    split at ht
    · exact some.inj ht ▸ h.select hn ‹_›
    · cases ht
  | finish =>
    obtain ⟨r, hn, ht⟩ := bind_eq_some_iff.1 ht
    split at ht
    · exact some.inj ht ▸ h.finish hn ‹_›
    · cases ht
  | answer n =>
    obtain ⟨r, hn, ht⟩ := bind_eq_some_iff.1 ht
    split at ht
    · rename_i reply hp
      have hfollows := h.requests r (mem_of_getElem? hn)
      rw [hp] at hfollows
      exact some.inj ht ▸ h.goto hn (.inr hfollows) fun _ hp => by cases hp
    · cases ht
  | fail =>
    obtain ⟨r, hn, ht⟩ := bind_eq_some_iff.1 ht
    split at ht
    · cases ht
    · exact some.inj ht ▸ h.goto hn trivial fun _ hp => by cases hp

theorem run {actions : List (RequestAction φ σ)}
    (h : (machine D).run actions (HttpIdempotency.start data) = some s) : Sound D data s :=
  Machine.run_keeps (I := Sound D data) (fun _ _ _ hs => hs.step) actions (.start data) h

theorem answered (h : Sound D data s) (he : e ∈ s.effects) (hn : s.requests[n]? = some r)
    (hr : r.phase = .started) (hkey : r.key = e.request.key) :
    (machine D).run [.insert n, .select n] s
      = some (s.goto n r.toMutatingRequest
        (.answered (found D r.toMutatingRequest (record D e)))) := by
  have hvalid : r.validKey = true := by
    have := h.valid e he
    rwa [MutatingRequest.validKey, ← hkey] at this
  have hinsert : (machine D).step (.insert n) s
      = some (s.goto n r.toMutatingRequest .conflicted) := by
    have hfree : s.requests.any (HandledRequest.inserted r.key) = false :=
      hkey ▸ h.not_inserted he
    have hget : s.getRecord r.key = some (record D e) := hkey ▸ h.getRecord he
    simp only [machine, HttpIdempotency.step, hn, bind_some, hr, HttpIdempotency.insert,
      hvalid, hfree, hget]
    rfl
  have hlt : n < s.requests.length := (List.getElem?_eq_some_iff.1 hn).1
  have hget : (s.goto n r.toMutatingRequest .conflicted).getRecord r.key = some (record D e) := by
    rw [hkey]
    exact h.getRecord he
  have hselect : (machine D).step (.select n) (s.goto n r.toMutatingRequest .conflicted)
      = some (s.goto n r.toMutatingRequest
        (.answered (found D r.toMutatingRequest (record D e)))) := by
    have hr' : (s.goto n r.toMutatingRequest .conflicted).requests[n]?
        = some ⟨r.toMutatingRequest, .conflicted⟩ := by
      simp [HttpIdempotency.goto, hlt]
    simp only [machine, HttpIdempotency.step, hr', bind_some, HttpIdempotency.select]
    rw [hget]
    simp [HttpIdempotency.goto]
  rw [Machine.run, hinsert, bind_some, Machine.run, hselect]
  rfl

end Sound

theorem step_cases {a : RequestAction φ σ} (ht : (machine D).step a s = some t) :
    (∃ request, a = .arrive request
      ∧ t = { s with requests := s.requests ++ [⟨request, .started⟩] })
    ∨ (∃ n r phase, s.requests[n]? = some r ∧ t = s.goto n r.toMutatingRequest phase
      ∧ (a = .fail n ∨ ∀ record, r.phase ≠ .working record))
    ∨ ∃ n r rec statusCode body change, s.requests[n]? = some r ∧ r.phase = .working rec
      ∧ a = .finish n statusCode body change ∧ t = s.finish n statusCode body change r rec := by
  cases a with
  | arrive request => exact .inl ⟨request, rfl, (some.inj ht).symm⟩
  | insert n =>
    obtain ⟨r, hn, ht⟩ := bind_eq_some_iff.1 ht
    split at ht
    · rename_i hp
      have hidle : ∀ record, r.phase ≠ .working record := by simp [hp]
      unfold HttpIdempotency.insert at ht
      split_ifs at ht
      · exact .inr (.inl ⟨n, r, _, hn, (some.inj ht).symm, .inr hidle⟩)
      · split at ht <;> exact .inr (.inl ⟨n, r, _, hn, (some.inj ht).symm, .inr hidle⟩)
    · cases ht
  | select n =>
    obtain ⟨r, hn, ht⟩ := bind_eq_some_iff.1 ht
    split at ht
    · rename_i hp
      have hidle : ∀ record, r.phase ≠ .working record := by simp [hp]
      obtain rfl := some.inj ht
      unfold HttpIdempotency.select
      split <;> exact .inr (.inl ⟨n, r, _, hn, rfl, .inr hidle⟩)
    · cases ht
  | finish n statusCode body change =>
    obtain ⟨r, hn, ht⟩ := bind_eq_some_iff.1 ht
    split at ht
    · rename_i rec hp
      exact .inr (.inr ⟨n, r, rec, statusCode, body, change, hn, hp, rfl, (some.inj ht).symm⟩)
    · cases ht
  | answer n =>
    obtain ⟨r, hn, ht⟩ := bind_eq_some_iff.1 ht
    split at ht
    · rename_i reply hp
      exact .inr (.inl ⟨n, r, _, hn, (some.inj ht).symm, .inr (by simp [hp])⟩)
    · cases ht
  | fail n =>
    obtain ⟨r, hn, ht⟩ := bind_eq_some_iff.1 ht
    split at ht
    · cases ht
    · exact .inr (.inl ⟨n, r, _, hn, (some.inj ht).symm, .inl rfl⟩)

omit [DecidableEq δ] in
theorem requests_set (hn : s.requests[n]? = some r) (phase : RequestPhase δ) :
    (s.requests.set n ⟨r.toMutatingRequest, phase⟩).map (·.toMutatingRequest)
      = s.requests.map (·.toMutatingRequest) :=
  Tasks.map_set_of_eq _ hn rfl

/-- Per key one request's changes are committed at most, and nothing else changes the data. Every
request with the key that is answered, or that starts afterwards, gets the response of the commit,
or is refused if it is another request. Until then the key is free for every request that does not
meet another one in flight, and no request is told that the original is in progress. -/
theorem keyed_requests_take_effect_once (D : RequestDigest φ δ) (data : σ)
    (actions : List (RequestAction φ σ)) (s : HttpIdempotency φ δ σ)
    (h : (machine D).run actions (start data) = some s) :
    (∀ key, (s.effects.filter fun e => e.request.key = key).length ≤ 1)
    ∧ s.data = s.effects.foldl (fun d e => e.change d) data
    ∧ (∀ e ∈ s.effects, ∀ r ∈ s.requests, r.key = e.request.key →
        (∀ reply, r.phase = .answered reply → Replies e r.toMutatingRequest reply)
        ∧ ∀ n, s.requests[n]? = some r → r.phase = .started →
          ∃ reply, Replies e r.toMutatingRequest reply
            ∧ (machine D).run [.insert n, .select n] s
              = some (s.goto n r.toMutatingRequest (.answered reply)))
    ∧ (∀ n r, s.requests[n]? = some r → r.phase = .started → r.validKey = true →
        (∀ e ∈ s.effects, e.request.key ≠ r.key) →
        (∀ r' ∈ s.requests, r'.inserted r.key = false) →
        (machine D).step (.insert n) s
          = some (s.goto n r.toMutatingRequest (.working (newRecord D r.toMutatingRequest))))
    ∧ ∀ r ∈ s.requests, ∀ e, r.phase = .answered (.error e) → e.code ≠ "REQUEST_IN_PROGRESS" := by
  have hs : Sound D data s := .run h
  refine ⟨fun key => ?_, hs.data_eq, fun e he r hr hkey => ⟨fun reply hp => ?_, fun n hn hp => ?_⟩,
    fun n r hn hp hvalid hnew hfree => ?_, fun r hr err hp hcode => ?_⟩
  · refine Table.length_le_one_of_nodup_map (hs.keys.sublist (filter_sublist.map _)) ?_
    intro a ha b hb
    exact (of_decide_eq_true (mem_filter.1 ha).2).trans
      (of_decide_eq_true (mem_filter.1 hb).2).symm
  · have hfollows := hs.requests r hr
    rw [hp] at hfollows
    rcases hfollows with ⟨hinvalid, -⟩ | ⟨e', he', hkey', hreplies⟩
    · have hvalid := hs.valid e he
      rw [MutatingRequest.validKey, ← hkey] at hvalid
      rw [MutatingRequest.validKey, hvalid] at hinvalid
      cases hinvalid
    · exact hs.effect_unique he' he (hkey'.trans hkey) ▸ hreplies
  · exact ⟨_, replies_found hkey.symm, hs.answered he hn hp hkey⟩
  · have hany : s.requests.any (HandledRequest.inserted r.key) = false :=
      any_eq_false.2 fun r' hr' => by simp [hfree r' hr']
    have hget : s.getRecord r.key = none := hs.getRecord_eq_none.2 hnew
    simp only [machine, HttpIdempotency.step, hn, bind_some, hp, HttpIdempotency.insert,
      hvalid, hany, hget]
    rfl
  · have hfollows := hs.requests r hr
    rw [hp] at hfollows
    rcases hfollows with ⟨-, herr⟩ | ⟨e', -, -, hsame, hother⟩
    · obtain rfl := HttpReply.error.inj herr
      exact absurd hcode (by decide)
    · by_cases hq : e'.request = r.toMutatingRequest
      · obtain ⟨replayed, hreply⟩ := hsame hq
        unfold HttpReply.ofStored at hreply
        split_ifs at hreply
      · obtain rfl := HttpReply.error.inj (hother hq)
        exact absurd hcode (by decide)

def plainDigest : RequestDigest ℕ (String × String × ℕ) where
  hash m p f := (m, p, f)
  collisionFree h := by simpa using h

def createRequest (fingerprint : ℕ) : MutatingRequest ℕ :=
  ⟨"POST", "/api/v1/runs", "retry-0001", fingerprint⟩

/-- A first request is lost before its commit; its retry counts the data up and loses its response
after the commit; the next retry and another request with the key wait to be answered. -/
def lostTwice : List (RequestAction ℕ ℕ) :=
  [.arrive (createRequest 1), .insert 0, .arrive (createRequest 1), .fail 0, .insert 1,
    .arrive (createRequest 1), .arrive (createRequest 2), .finish 1 201 (.num 7) (· + 1), .fail 1]

theorem keyed_requests_take_effect_once_lost :
    ∃ s, (machine plainDigest).run lostTwice (start 0) = some s
      ∧ s.effects.length = 1 ∧ s.data = s.effects.foldl (fun d e => e.change d) 0 := by
  have hsome : ((machine plainDigest).run lostTwice (start 0)).any
      (fun s => s.effects.length = 1) = true := by
    decide
  obtain ⟨s, hs, hlength⟩ := (any_eq_true _ _).mp hsome
  exact ⟨s, hs, of_decide_eq_true hlength,
    (keyed_requests_take_effect_once plainDigest 0 lostTwice s hs).2.1⟩

end HttpIdempotency

end Crewquarters
