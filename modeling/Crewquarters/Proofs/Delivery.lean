import Crewquarters.Delivery
import Crewquarters.Lib.Firsts

/-!
# What becomes of an agent's events

The buffer is always the end of the list of added events, and the batch in flight is a stretch of
that list that began where the buffer began when it was posted (`InFlight`). `flush` removes as many
events as it posted. If `_add` has dropped events of the batch in the meantime, as many events that
were never posted go with them, so no event is lost exactly in the runs where every batch that is
answered is still the front of the buffer (`accounted_iff_untrimmed`).
-/

namespace Crewquarters

open List Option Machine

section Numbered

variable {l : List BufferedEvent} {e : BufferedEvent} {i : ℕ}
  (hids : l.map BufferedEvent.clientEventId = List.range l.length)

include hids

theorem clientEventId_getElem (hi : i < l.length) : (l[i]).clientEventId = i := by
  have hget : (l.map BufferedEvent.clientEventId)[i]? = (List.range l.length)[i]? := by rw [hids]
  simpa [hi] using hget

theorem mem_drop_iff_id : e ∈ l.drop i ↔ e ∈ l ∧ i ≤ e.clientEventId := by
  constructor
  · intro he
    obtain ⟨j, hj, rfl⟩ := mem_drop_iff_getElem.1 he
    exact ⟨getElem_mem _, by rw [clientEventId_getElem hids]; omega⟩
  · rintro ⟨he, hle⟩
    obtain ⟨j, hj, rfl⟩ := mem_iff_getElem.1 he
    rw [clientEventId_getElem hids hj] at hle
    exact mem_drop_iff_getElem.2 ⟨j - i, by omega, by congr 1; omega⟩

theorem mem_stretch_iff {m : ℕ} :
    e ∈ (l.drop i).take m ↔ e ∈ l ∧ i ≤ e.clientEventId ∧ e.clientEventId < i + m := by
  simp only [mem_take_iff_getElem, length_drop, getElem_drop]
  constructor
  · rintro ⟨j, hj, rfl⟩
    have hid : (l[i + j]).clientEventId = i + j := clientEventId_getElem hids (by omega)
    exact ⟨getElem_mem _, by omega, by omega⟩
  · rintro ⟨he, hle, hlt⟩
    obtain ⟨j, hj, rfl⟩ := mem_iff_getElem.1 he
    rw [clientEventId_getElem hids hj] at hle hlt
    exact ⟨j - i, by omega, by congr 1; omega⟩

theorem ids_append (hid : e.clientEventId = l.length) :
    (l ++ [e]).map BufferedEvent.clientEventId = List.range (l ++ [e]).length := by
  rw [map_append, hids, length_append, length_singleton, range_succ,
    map_singleton, hid]

end Numbered

namespace EventsClient

variable {L : EventLimits} {s t u : EventsClient} {lo hi : ℕ} {f : Flushing}

/-- The broker took the event: in a batch it accepted, or by rejecting it on its own. -/
def Handled (s : EventsClient) (e : BufferedEvent) : Prop :=
  (∃ batch ∈ s.accepted, e ∈ batch) ∨ e ∈ s.rejected

/-- Every event is in the buffer, or the broker took it, or it was dropped and is counted. -/
structure Accounted (s : EventsClient) : Prop where
  counted : s.dropped = s.overflowed.length
  kept : ∀ e ∈ s.added, e ∈ s.buffer ∨ s.Handled e ∨ e ∈ s.overflowed

/-- Events are first posted in the order in which they were added. -/
def PostsInOrder (s : EventsClient) : Prop :=
  (firsts BufferedEvent.clientEventId [] s.posts.flatten).Sublist s.added

def start (s : EventsClient) : ℕ := s.added.length - s.buffer.length

/-- The buffer is the end of the added events, and the events from `lo` up to `hi` were the last
batch: no event after them was posted. -/
structure Stretch (L : EventLimits) (lo hi : ℕ) (s : EventsClient) : Prop where
  ids : s.added.map BufferedEvent.clientEventId = List.range s.added.length
  le : s.buffer.length ≤ s.added.length
  suffix : s.buffer = s.added.drop s.start
  limit : s.buffer.length ≤ L.maxBuffer
  counted : s.dropped = s.overflowed.length
  overflowed : ∀ e ∈ s.overflowed, e.clientEventId < s.start
  lo_le : lo ≤ s.start
  hi_le : hi ≤ s.added.length
  hi_le_batch : hi ≤ lo + L.maxBatch
  posted : ∀ e ∈ s.posts.flatten, e.clientEventId < hi
  window : ∀ e ∈ s.added, lo ≤ e.clientEventId → e.clientEventId < hi → e ∈ s.posts.flatten
  inOrder : (firsts BufferedEvent.clientEventId [] s.posts.flatten).Sublist (s.added.take hi)
  handled : ∀ e, s.Handled e → e ∈ s.posts.flatten

/-- What `_add` writes before it flushes: an event with the next number is appended, and the `k`
that are too much are dropped from the front. -/
theorem append_eq (L : EventLimits) (type : EventType) (occurredAt : Time) (payload : Json)
    (s : EventsClient) :
    ∃ (e : BufferedEvent) (k : ℕ), e.clientEventId = s.added.length
      ∧ k = s.buffer.length + 1 - L.maxBuffer
      ∧ s.append L type occurredAt payload = { s with
        buffer := (s.buffer ++ [e]).drop k
        dropped := s.dropped + k
        added := s.added ++ [e]
        overflowed := s.overflowed ++ (s.buffer ++ [e]).take k } :=
  ⟨⟨s.added.length, type, occurredAt, payload⟩, _, rfl, rfl, by simp [append]⟩

namespace Stretch

section

variable (h : Stretch L lo hi s)
include h

theorem postsInOrder : s.PostsInOrder :=
  h.inOrder.trans (take_sublist ..)

theorem append (type : EventType) (occurredAt : Time) (payload : Json) :
    Stretch L lo hi (s.append L type occurredAt payload) := by
  obtain ⟨e, k, hid, hk, happend⟩ := append_eq L type occurredAt payload s
  have hle := h.le
  have hlimit := h.limit
  have hhi := h.hi_le
  have hlo := h.lo_le
  have hids := ids_append h.ids hid
  -- the buffer before anything is dropped
  have hbuffer : s.buffer ++ [e] = (s.added ++ [e]).drop s.start := by
    rw [drop_append_of_le_length (by unfold start; omega), ← h.suffix]
  have hstart : start { s with
      buffer := (s.buffer ++ [e]).drop k
      dropped := s.dropped + k
      added := s.added ++ [e]
      overflowed := s.overflowed ++ (s.buffer ++ [e]).take k } = s.start + k := by
    simp only [start, length_append, length_drop, length_singleton]
    omega
  have htake : (s.added ++ [e]).take hi = s.added.take hi := take_append_of_le_length hhi
  rw [happend]
  refine ⟨hids, ?_, ?_, ?_, ?_, fun x hx => ?_, ?_, ?_, h.hi_le_batch, h.posted, fun x hx => ?_, ?_,
    h.handled⟩
  · simp only [length_append, length_drop, length_singleton]
    omega
  · rw [hstart, hbuffer, drop_drop]
  · simp only [length_append, length_drop, length_singleton]
    omega
  · simp only [length_append, length_take, length_singleton, h.counted]
    omega
  · rw [hstart]
    rcases mem_append.1 hx with hx | hx
    · exact (h.overflowed x hx).trans_le (Nat.le_add_right _ _)
    · rw [hbuffer] at hx
      exact ((mem_stretch_iff hids).1 hx).2.2
  · rw [hstart]
    omega
  · rw [length_append]
    omega
  · intro hlo hlt
    rcases mem_append.1 hx with hx | hx
    · exact h.window x hx hlo hlt
    · rw [mem_singleton.1 hx] at hlt
      omega
  · rw [htake]
    exact h.inOrder

theorem remove (m : ℕ) : Stretch L lo hi { s with buffer := s.buffer.drop m } := by
  have hle := h.le
  have hstart : start { s with buffer := s.buffer.drop m } = s.start + min m s.buffer.length := by
    simp only [start, length_drop]
    omega
  refine ⟨h.ids, ?_, ?_, ?_, h.counted, fun x hx => ?_, ?_, h.hi_le, h.hi_le_batch,
    h.posted, h.window, h.inOrder, h.handled⟩
  · rw [length_drop]
    exact (Nat.sub_le ..).trans h.le
  · rw [hstart]
    rcases le_total m s.buffer.length with hm | hm
    · rw [min_eq_left hm, ← drop_drop, ← h.suffix]
    · rw [min_eq_right hm, drop_of_length_le hm]
      refine (drop_of_length_le ?_).symm
      change s.added.length ≤ s.added.length - s.buffer.length + s.buffer.length
      omega
  · rw [length_drop]
    exact (Nat.sub_le ..).trans h.limit
  · rw [hstart]
    exact (h.overflowed x hx).trans_le (Nat.le_add_right _ _)
  · rw [hstart]
    exact h.lo_le.trans (Nat.le_add_right _ _)

theorem record {accepted : List (List BufferedEvent)} {rejected : List BufferedEvent}
    (hnew : ∀ e, Handled { s with accepted, rejected } e → e ∈ s.posts.flatten) :
    Stretch L lo hi { s with accepted, rejected } :=
  ⟨h.ids, h.le, h.suffix, h.limit, h.counted, h.overflowed, h.lo_le, h.hi_le, h.hi_le_batch,
    h.posted, h.window, h.inOrder, hnew⟩

theorem lock {flushing : Option Flushing} {waiting : ℕ} :
    Stretch L lo hi { s with flushing, waiting } :=
  ⟨h.ids, h.le, h.suffix, h.limit, h.counted, h.overflowed, h.lo_le, h.hi_le, h.hi_le_batch,
    h.posted, h.window, h.inOrder, h.handled⟩

theorem repost {e : BufferedEvent} (he : e ∈ s.posts.flatten) :
    Stretch L lo hi { s with posts := s.posts ++ [[e]] } := by
  have hflatten : (s.posts ++ [[e]]).flatten = s.posts.flatten ++ [e] := by simp
  have hfirsts : firsts BufferedEvent.clientEventId [] (s.posts ++ [[e]]).flatten
      = firsts BufferedEvent.clientEventId [] s.posts.flatten := by
    have hseen : firsts BufferedEvent.clientEventId ([] ++ (firsts BufferedEvent.clientEventId []
        s.posts.flatten).map BufferedEvent.clientEventId) [e] = [] := by
      refine firsts_eq_nil fun x hx => ?_
      rw [mem_singleton.1 hx]
      exact key_mem_firsts he
    rw [hflatten, firsts_append, hseen, append_nil]
  refine ⟨h.ids, h.le, h.suffix, h.limit, h.counted, h.overflowed, h.lo_le, h.hi_le, h.hi_le_batch,
    fun x hx => ?_, fun x hx hlo hlt => ?_, ?_, fun x hx => ?_⟩
  · rw [hflatten] at hx
    rcases mem_append.1 hx with hx | hx
    · exact h.posted x hx
    · exact h.posted x (mem_singleton.1 hx ▸ he)
  · rw [hflatten]
    exact mem_append_left _ (h.window x hx hlo hlt)
  · rw [hfirsts]
    exact h.inOrder
  · rw [hflatten]
    exact mem_append_left _ (h.handled x hx)

theorem post :
    Stretch L s.start (s.start + min L.maxBatch s.buffer.length)
      { s with posts := s.posts ++ [s.buffer.take L.maxBatch] } := by
  have hle := h.le
  have hlo := h.lo_le
  have hhi := h.hi_le
  have hbatch := h.hi_le_batch
  have hstart : s.start + s.buffer.length = s.added.length := by
    unfold start
    omega
  have hfront : s.buffer.take L.maxBatch
      = (s.added.drop s.start).take (min L.maxBatch s.buffer.length) := by
    rw [← h.suffix, ← take_eq_take_min]
  generalize hm : min L.maxBatch s.buffer.length = m at hfront ⊢
  have hhi' : hi ≤ s.start + m := by omega
  have hflatten : (s.posts ++ [s.buffer.take L.maxBatch]).flatten
      = s.posts.flatten ++ (s.added.drop s.start).take m := by simp [hfront]
  -- of the batch, what comes before `hi` was posted before
  have hsplit : (s.added.drop s.start).take m = (s.added.drop s.start).take (hi - s.start)
      ++ (s.added.drop (s.start + (hi - s.start))).take (m - (hi - s.start)) := by
    rw [← drop_drop, ← take_add]
    congr 1
    omega
  have hseen : firsts BufferedEvent.clientEventId ([] ++ (firsts BufferedEvent.clientEventId []
      s.posts.flatten).map BufferedEvent.clientEventId) ((s.added.drop s.start).take (hi - s.start))
      = [] := by
    refine firsts_eq_nil fun x hx => key_mem_firsts ?_
    obtain ⟨hx, hfrom, hto⟩ := (mem_stretch_iff h.ids).1 hx
    exact h.window x hx (hlo.trans hfrom) (by omega)
  have hnew : s.added.take (s.start + m) = s.added.take (s.start + (hi - s.start))
      ++ (s.added.drop (s.start + (hi - s.start))).take (m - (hi - s.start)) := by
    rw [← take_add]
    congr 1
    omega
  refine ⟨h.ids, h.le, h.suffix, h.limit, h.counted, h.overflowed, le_rfl, ?_, ?_, fun x hx => ?_,
    fun x hx hlo' hlt => ?_, ?_, fun x hx => ?_⟩
  · change _ ≤ s.added.length
    omega
  · omega
  · rw [hflatten] at hx
    rcases mem_append.1 hx with hx | hx
    · exact (h.posted x hx).trans_le hhi'
    · exact ((mem_stretch_iff h.ids).1 hx).2.2
  · rw [hflatten]
    exact mem_append_right _ ((mem_stretch_iff h.ids).2 ⟨hx, hlo', hlt⟩)
  · rw [hflatten, firsts_append, hsplit, firsts_append, hseen, nil_append, hnew]
    refine List.Sublist.append (h.inOrder.trans (take_sublist_take_left ?_))
      (firsts_sublist ..)
    omega
  · rw [hflatten]
    exact mem_append_left _ (h.handled x hx)

end

end Stretch

end EventsClient

def Flushing.batch : Flushing → List BufferedEvent
  | .posting batch => batch
  | .salvaging batch _ _ => batch

def Flushing.completes (outcome : PostOutcome) : Flushing → Option (List BufferedEvent)
  | .posting batch =>
    match outcome with
    | .accepted => some batch
    | .retryable => none
    | .rejected => if batch.length ≤ 1 then some batch else none
  | .salvaging batch _ rest => if outcome = .retryable ∨ rest ≠ [] then none else some batch

namespace EventsClient

variable {L : EventLimits} {s t u : EventsClient} {lo hi : ℕ} {f : Flushing}
variable {batch : List BufferedEvent} {outcome : PostOutcome} {a : EventsAct}

/-- The batch in flight, which was the front of the buffer when it was posted. `done` is what
`_salvage` has got answers for. -/
structure InFlight (lo hi : ℕ) (s : EventsClient) (f : Flushing) : Prop where
  batch : f.batch = (s.added.drop lo).take (hi - lo)
  nonempty : s.buffer ≠ []
  trimmed : lo < s.start → hi < s.added.length
  salvaged : ∀ batch event rest, f = .salvaging batch event rest →
    ∃ done, batch = done ++ event :: rest ∧ ∀ x ∈ done, s.Handled x

def Sound (L : EventLimits) (s : EventsClient) : Prop :=
  ∃ lo hi, Stretch L lo hi s ∧ ∀ f, s.flushing = some f → InFlight lo hi s f

theorem sound_empty : Sound L empty :=
  ⟨0, 0, ⟨rfl, le_rfl, rfl, Nat.zero_le _, rfl, (fun _ h => by cases h), le_rfl, le_rfl,
    Nat.zero_le _, (fun _ h => by cases h), (fun _ h => by cases h), .slnil,
    (fun e h => by rcases h with ⟨_, h, -⟩ | h <;> cases h)⟩, (fun _ h => by cases h)⟩

theorem Sound.nextBatch (h : Stretch L lo hi s) : Sound L (s.nextBatch L) := by
  unfold EventsClient.nextBatch
  split_ifs with hempty
  · exact ⟨lo, hi, h.lock, fun f hf => by cases hf⟩
  · refine ⟨_, _, h.post.lock, fun f hf => ?_⟩
    obtain rfl := some.inj hf
    refine ⟨?_, by simpa using hempty, fun hlt => absurd hlt (lt_irrefl _),
      fun _ _ _ hf => by cases hf⟩
    change s.buffer.take L.maxBatch = _
    rw [Nat.add_sub_cancel_left, ← h.suffix, ← take_eq_take_min]

theorem Sound.flush (h : Sound L s) : Sound L (s.flush L) := by
  obtain ⟨lo, hi, hstretch, hflight⟩ := h
  unfold EventsClient.flush
  split_ifs
  · exact .nextBatch hstretch
  · refine ⟨lo, hi, hstretch.lock, fun f hf => ?_⟩
    obtain ⟨hbatch, hne, htrim, hsalv⟩ := hflight f hf
    exact ⟨hbatch, hne, htrim, hsalv⟩

theorem Sound.append (h : Sound L s) (type : EventType) (occurredAt : Time) (payload : Json) :
    Sound L (s.append L type occurredAt payload) := by
  obtain ⟨lo, hi, hstretch, hflight⟩ := h
  refine ⟨lo, hi, hstretch.append type occurredAt payload, fun f hf => ?_⟩
  obtain ⟨e, k, hid, hk, happend⟩ := append_eq L type occurredAt payload s
  have hhi := hstretch.hi_le
  have hlimit := hstretch.limit
  rw [happend] at hf ⊢
  obtain ⟨hbatch, hne, htrim, hsalv⟩ := hflight f hf
  have hpos : 0 < s.buffer.length := length_pos_iff.2 hne
  have hlo : lo ≤ s.added.length := hstretch.lo_le.trans (Nat.sub_le ..)
  refine ⟨?_, ?_, fun _ => ?_, hsalv⟩
  · change f.batch = ((s.added ++ [e]).drop lo).take (hi - lo)
    rw [drop_append_of_le_length hlo, take_append_of_le_length, hbatch]
    rw [length_drop]
    omega
  · refine length_pos_iff.1 ?_
    simp only [length_drop, length_append, length_singleton]
    omega
  · change hi < (s.added ++ [e]).length
    rw [length_append, length_singleton]
    omega

theorem Sound.add (h : Sound L s) (type : EventType) (occurredAt : Time) (payload : Json) :
    Sound L (s.add L type occurredAt payload) := by
  simp only [EventsClient.add]
  split_ifs
  · exact (h.append ..).flush
  · exact h.append ..

/-- An answer was recorded for events of the batch in flight. -/
structure Records (f : Flushing) (s u : EventsClient) : Prop where
  eq : ∃ accepted rejected, u = { s with accepted, rejected }
  old : ∀ e, s.Handled e → u.Handled e
  new : ∀ e, u.Handled e → s.Handled e ∨ e ∈ f.batch

theorem Records.refl : Records f s s := ⟨⟨_, _, rfl⟩, fun _ he => he, fun _ he => .inl he⟩

theorem records_accepted (hsub : ∀ e ∈ batch, e ∈ f.batch) :
    Records f s { s with accepted := s.accepted ++ [batch] }
      ∧ ∀ e ∈ batch, Handled { s with accepted := s.accepted ++ [batch] } e := by
  refine ⟨⟨⟨_, _, rfl⟩, fun e he => ?_, fun e he => ?_⟩, fun e he => ?_⟩
  · exact he.imp_left fun ⟨b, hb, heb⟩ => ⟨b, mem_append_left _ hb, heb⟩
  · rcases he with ⟨b, hb, heb⟩ | he
    · rcases mem_append.1 hb with hb | hb
      · exact .inl (.inl ⟨b, hb, heb⟩)
      · exact .inr (hsub e (mem_singleton.1 hb ▸ heb))
    · exact .inl (.inr he)
  · exact .inl ⟨batch, mem_append_right _ (mem_singleton.2 rfl), he⟩

theorem records_rejected {events : List BufferedEvent} (hsub : ∀ e ∈ events, e ∈ f.batch) :
    Records f s { s with rejected := s.rejected ++ events }
      ∧ ∀ e ∈ events, Handled { s with rejected := s.rejected ++ events } e := by
  refine ⟨⟨⟨_, _, rfl⟩, fun e he => ?_, fun e he => ?_⟩, fun e he => ?_⟩
  · exact he.imp_right (mem_append_left _)
  · rcases he with he | he
    · exact .inl (.inl he)
    · exact (mem_append.1 he).imp .inr (hsub e)
  · exact .inr (mem_append_right _ he)

/-- What an answer does: `flush` raises; or it completes the batch, all of whose events the broker
took; or `_salvage` posts the next event of the batch. -/
inductive Answered (L : EventLimits) (outcome : PostOutcome) (s : EventsClient) (f : Flushing) :
    EventsClient → Prop where
  | raised (completes : f.completes outcome = none) :
      Answered L outcome s f { s with flushing := none }
  | completed {u : EventsClient} (records : Records f s u)
      (completes : f.completes outcome = some f.batch) (all : ∀ e ∈ f.batch, u.Handled e) :
      Answered L outcome s f (u.finishBatch L f.batch)
  | salvages {u done rest event} (records : Records f s u)
      (completes : f.completes outcome = none) (split : f.batch = done ++ event :: rest)
      (part : ∀ e ∈ done, u.Handled e) :
      Answered L outcome s f { u with
        flushing := some (.salvaging f.batch event rest), posts := u.posts ++ [[event]] }

theorem answered_salvageNext {done rest : List BufferedEvent} {event : BufferedEvent}
    (hout : outcome ≠ .retryable) (hrecords : Records (.salvaging batch event rest) s u)
    (hsplit : batch = done ++ event :: rest) (hdone : ∀ e ∈ done, u.Handled e)
    (hevent : u.Handled event) :
    Answered L outcome s (.salvaging batch event rest) (u.salvageNext L batch rest) := by
  have hall : ∀ e ∈ done ++ [event], u.Handled e := by
    intro e he
    rcases mem_append.1 he with he | he
    · exact hdone e he
    · exact mem_singleton.1 he ▸ hevent
  cases rest with
  | nil =>
    refine .completed hrecords ?_ fun e he => hall e ?_
    · simp [Flushing.completes, hout, Flushing.batch]
    · rwa [← hsplit]
  | cons =>
    refine .salvages hrecords ?_ ?_ hall
    · simp [Flushing.completes]
    · simpa [Flushing.batch] using hsplit

theorem answer_answered (hf : s.flushing = some f)
    (hsalv : ∀ batch event rest, f = .salvaging batch event rest → ∃ done, batch
      = done ++ event :: rest ∧ ∀ x ∈ done, s.Handled x)
    (h : s.answer L outcome = some t) : Answered L outcome s f t := by
  obtain ⟨buffer, dropped, flushing, waiting, added, overflowed, posts, accepted, rejected⟩ := s
  obtain rfl : flushing = some f := hf
  cases f with
  | posting batch =>
    cases outcome with
    | accepted =>
      obtain rfl := some.inj h
      obtain ⟨hrecords, hall⟩ := records_accepted (f := .posting batch) fun e he => he
      exact .completed hrecords rfl hall
    | retryable =>
      obtain rfl := some.inj h
      exact .raised rfl
    | rejected =>
      obtain rfl := some.inj h
      unfold salvage
      split_ifs with hone
      · obtain ⟨hrecords, hall⟩ := records_rejected (f := .posting batch) fun e he => he
        refine .completed hrecords ?_ hall
        simp [Flushing.completes, hone, Flushing.batch]
      · cases batch with
        | nil => exact .completed .refl rfl fun e he => by cases he
        | cons event rest =>
          refine .salvages .refl ?_ (nil_append _).symm fun e he => by cases he
          have hlen : ¬ (event :: rest).length ≤ 1 := by
            rw [length_cons] at hone ⊢
            omega
          simp only [Flushing.completes, if_neg hlen]
  | salvaging batch event rest =>
    obtain ⟨done, hsplit, hdone⟩ := hsalv batch event rest rfl
    have hmem : ∀ e ∈ [event], e ∈ (Flushing.salvaging batch event rest).batch := by
      intro e he
      rw [mem_singleton.1 he]
      simp [Flushing.batch, hsplit]
    cases outcome with
    | accepted =>
      obtain rfl := some.inj h
      obtain ⟨hrecords, hall⟩ := records_accepted hmem
      exact answered_salvageNext (fun h => by cases h) hrecords hsplit
        (fun e he => hrecords.old e (hdone e he)) (hall event (mem_singleton.2 rfl))
    | retryable =>
      obtain rfl := some.inj h
      exact .raised (by simp [Flushing.completes])
    | rejected =>
      obtain rfl := some.inj h
      obtain ⟨hrecords, hall⟩ := records_rejected hmem
      exact answered_salvageNext (fun h => by cases h) hrecords hsplit
        (fun e he => hrecords.old e (hdone e he)) (hall event (mem_singleton.2 rfl))

theorem Records.stretch (h : Stretch L lo hi s) (hf : InFlight lo hi s f) (hrec : Records f s u) :
    Stretch L lo hi u := by
  obtain ⟨⟨accepted, rejected, rfl⟩, -, hnew⟩ := hrec
  refine h.record fun e he => ?_
  rcases hnew e he with he | he
  · exact h.handled e he
  · rw [hf.batch] at he
    obtain ⟨he, hfrom, hto⟩ := (mem_stretch_iff h.ids).1 he
    exact h.window e he hfrom (by omega)

theorem Sound.answer (h : Sound L s) (hans : s.answer L outcome = some t) : Sound L t := by
  obtain ⟨lo, hi, hstretch, hflight⟩ := h
  cases hf : s.flushing with
  | none =>
    simp only [EventsClient.answer, hf] at hans
    cases hans
  | some f =>
    have hin := hflight f hf
    cases answer_answered hf hin.salvaged hans with
    | raised => exact ⟨lo, hi, hstretch.lock, fun f hf => by cases hf⟩
    | completed records => exact .nextBatch ((records.stretch hstretch hin).remove _)
    | @salvages u done rest event records completes split part =>
      have hu := records.stretch hstretch hin
      obtain ⟨⟨accepted, rejected, rfl⟩, -, -⟩ := records
      have hmem : event ∈ f.batch := by simp [split]
      rw [hin.batch] at hmem
      obtain ⟨hadded, hfrom, hto⟩ := (mem_stretch_iff hstretch.ids).1 hmem
      refine ⟨lo, hi, (hu.repost (hstretch.window _ hadded hfrom (by omega))).lock, fun g hg => ?_⟩
      obtain rfl := some.inj hg
      refine ⟨hin.batch, hin.nonempty, hin.trimmed, fun batch event' rest' hg => ?_⟩
      cases hg
      exact ⟨done, split, part⟩

theorem Sound.step (h : Sound L s) (hstep : (eventsMachine L).step a s = some t) : Sound L t := by
  cases a with
  | add => exact some.inj hstep ▸ h.add ..
  | flush => exact some.inj hstep ▸ h.flush
  | answer => exact h.answer hstep
  | wake =>
    simp only [eventsMachine, wake] at hstep
    split_ifs at hstep
    obtain rfl := some.inj hstep
    obtain ⟨lo, hi, hstretch, -⟩ := h
    have hwoken : Stretch L lo hi { s with waiting := s.waiting - 1 } := hstretch.lock
    exact .nextBatch hwoken
  | cancelWait =>
    simp only [eventsMachine, cancelWait] at hstep
    split_ifs at hstep
    obtain rfl := some.inj hstep
    obtain ⟨lo, hi, hstretch, hflight⟩ := h
    refine ⟨lo, hi, hstretch.lock, fun f hf => ?_⟩
    exact ⟨(hflight f hf).batch, (hflight f hf).nonempty, (hflight f hf).trimmed,
      (hflight f hf).salvaged⟩

/-- The batch that the action completes, if it does, is still the front of the buffer. -/
def Untrimmed (a : EventsAct) (s : EventsClient) : Prop :=
  ∀ outcome f batch, a = .answer outcome → s.flushing = some f →
    f.completes outcome = some batch → batch <+: s.buffer

theorem accounted_nextBatch : (s.nextBatch L).Accounted ↔ s.Accounted := by
  unfold nextBatch
  split_ifs <;> exact ⟨fun h => ⟨h.counted, h.kept⟩, fun h => ⟨h.counted, h.kept⟩⟩

theorem accounted_flush : (s.flush L).Accounted ↔ s.Accounted := by
  unfold flush
  split_ifs
  · exact accounted_nextBatch
  · exact ⟨fun h => ⟨h.counted, h.kept⟩, fun h => ⟨h.counted, h.kept⟩⟩

theorem Accounted.append (h : Accounted s) (type : EventType) (occurredAt : Time) (payload : Json) :
    (s.append L type occurredAt payload).Accounted := by
  obtain ⟨e, k, -, hk, happend⟩ := append_eq L type occurredAt payload s
  rw [happend]
  refine ⟨?_, fun x hx => ?_⟩
  · simp only [length_append, length_take, length_singleton, h.counted]
    omega
  · have hin : x ∈ s.buffer ++ [e] ∨ s.Handled x ∨ x ∈ s.overflowed := by
      rcases mem_append.1 hx with hx | hx
      · exact (h.kept x hx).imp_left (mem_append_left _)
      · exact .inl (mem_append_right _ hx)
    rcases hin with hx | hx | hx
    · rw [← take_append_drop k (s.buffer ++ [e])] at hx
      rcases mem_append.1 hx with hx | hx
      · exact .inr (.inr (mem_append_right _ hx))
      · exact .inl hx
    · exact .inr (.inl hx)
    · exact .inr (.inr (mem_append_left _ hx))

theorem Accounted.record (h : Accounted s) (hrec : Records f s u) : Accounted u := by
  obtain ⟨⟨accepted, rejected, rfl⟩, hold, -⟩ := hrec
  exact ⟨h.counted, fun e he => (h.kept e he).imp_right (Or.imp_left (hold e))⟩

theorem Accounted.finish (h : Accounted s) (hfront : batch <+: s.buffer)
    (hall : ∀ e ∈ batch, s.Handled e) : (s.finishBatch L batch).Accounted := by
  obtain ⟨rest, hrest⟩ := hfront
  refine accounted_nextBatch.2 ⟨h.counted, fun e he => ?_⟩
  rcases h.kept e he with hbuf | hout
  · rw [← hrest] at hbuf ⊢
    rcases mem_append.1 hbuf with hbuf | hbuf
    · exact .inr (.inl (hall e hbuf))
    · exact .inl (by simpa using hbuf)
  · exact .inr hout

/-- When events of the batch were dropped meanwhile, the first event that is neither of the batch
nor dropped is removed with it. -/
theorem not_accounted_of_trimmed (h : Stretch L lo hi s) (hin : InFlight lo hi s f)
    (hrec : Records f s u) (hnot : ¬ f.batch <+: s.buffer) :
    ¬ (u.finishBatch L f.batch).Accounted := by
  intro hacc
  have hle := h.le
  have hlo := h.lo_le
  have hhi := h.hi_le
  have hstart : s.start + s.buffer.length = s.added.length := by
    unfold start
    omega
  have hpos : 0 < s.buffer.length := length_pos_iff.2 hin.nonempty
  have hlen : f.batch.length = hi - lo := by
    rw [hin.batch, length_take, length_drop]
    omega
  have htrim : lo < s.start := by
    refine lt_of_le_of_ne hlo fun heq => hnot ?_
    rw [hin.batch, heq, ← h.suffix]
    exact take_prefix ..
  have hne : 0 < f.batch.length := by
    refine length_pos_iff.2 fun hnil => hnot ?_
    rw [hnil]
    exact nil_prefix
  have hlater := hin.trimmed htrim
  have hlt : max s.start hi < s.added.length := by omega
  have hid := clientEventId_getElem h.ids hlt
  obtain ⟨⟨accepted, rejected, rfl⟩, -, hnew⟩ := hrec
  rcases (accounted_nextBatch.1 hacc).kept _ (getElem_mem hlt) with hbuf | hhand | hover
  · have hdrop : (s.added)[max s.start hi] ∈ s.added.drop (s.start + f.batch.length) := by
      rw [← drop_drop, ← h.suffix]
      exact hbuf
    have := ((mem_drop_iff_id h.ids).1 hdrop).2
    omega
  · rcases hnew _ hhand with hhand | hbatch
    · have := h.posted _ (h.handled _ hhand)
      omega
    · rw [hin.batch] at hbatch
      have := ((mem_stretch_iff h.ids).1 hbatch).2.2
      omega
  · have := h.overflowed _ hover
    omega

theorem Accounted.step (hsound : Sound L s) (h : Accounted s) (hok : Untrimmed a s)
    (hstep : (eventsMachine L).step a s = some t) : Accounted t := by
  cases a with
  | add =>
    obtain rfl := some.inj hstep
    simp only [add]
    split_ifs
    · exact accounted_flush.2 (h.append ..)
    · exact h.append ..
  | flush => exact some.inj hstep ▸ accounted_flush.2 h
  | answer outcome =>
    obtain ⟨lo, hi, hstretch, hflight⟩ := hsound
    cases hf : s.flushing with
    | none =>
      simp only [eventsMachine, answer, hf] at hstep
      cases hstep
    | some f =>
      cases answer_answered hf (hflight f hf).salvaged hstep with
      | raised => exact ⟨h.counted, h.kept⟩
      | completed records completes all =>
        have hfront := hok outcome f f.batch rfl hf completes
        refine (h.record records).finish ?_ all
        obtain ⟨⟨accepted, rejected, rfl⟩, -, -⟩ := records
        exact hfront
      | salvages records =>
        have hu := h.record records
        exact ⟨hu.counted, hu.kept⟩
  | wake =>
    simp only [eventsMachine, wake] at hstep
    split_ifs at hstep
    obtain rfl := some.inj hstep
    exact accounted_nextBatch.2 ⟨h.counted, h.kept⟩
  | cancelWait =>
    simp only [eventsMachine, cancelWait] at hstep
    split_ifs at hstep
    obtain rfl := some.inj hstep
    exact ⟨h.counted, h.kept⟩

theorem not_accounted_step (hsound : Sound L s) (hok : ¬ Untrimmed a s)
    (hstep : (eventsMachine L).step a s = some t) : ¬ Accounted t := by
  obtain ⟨lo, hi, hstretch, hflight⟩ := hsound
  simp only [Untrimmed, not_forall] at hok
  obtain ⟨outcome, f, batch, rfl, hf, hcompletes, hnot⟩ := hok
  cases answer_answered hf (hflight f hf).salvaged hstep with
  | raised completes =>
    rw [completes] at hcompletes
    cases hcompletes
  | completed records completes =>
    obtain rfl := some.inj (completes.symm.trans hcompletes)
    exact not_accounted_of_trimmed hstretch (hflight f hf) records hnot
  | salvages records completes =>
    rw [completes] at hcompletes
    cases hcompletes

/-- Whatever the tasks and the answers to their posts: at every moment each event is in the buffer,
or was taken by the broker, or is counted as dropped, if and only if every batch that an answer
completes is still the front of the buffer then; and events are first posted in the order they were
added. -/
theorem accounted_iff_untrimmed (L : EventLimits) (acts : List EventsAct) :
    ((eventsMachine L).Along Accounted acts empty ↔ (eventsMachine L).Meets Untrimmed acts empty)
    ∧ (eventsMachine L).Along PostsInOrder acts empty := by
  have haccounted : Accounted empty := ⟨rfl, fun e he => by cases he⟩
  refine ⟨along_iff_meets (I := Sound L) (fun a s t h ht => h.step ht)
    (fun a s t h hP hok ht => hP.step h hok ht) (fun a s t h _ hn ht => not_accounted_step h hn ht)
    acts sound_empty haccounted, ?_⟩
  refine (along_of_step (fun a s t h ht => h.step ht) acts sound_empty).mono fun s hs => ?_
  obtain ⟨lo, hi, hstretch, -⟩ := hs
  exact hstretch.postsInOrder

/-! A thousand and one tasks log something at once, while the first batch is on its way. -/

theorem add_of_flushing (hf : s.flushing = some f) (type : EventType) (occurredAt : Time)
    (payload : Json) : ∃ waiting, s.add L type occurredAt payload
      = { s.append L type occurredAt payload with waiting } := by
  have hf' : (s.append L type occurredAt payload).flushing = some f := hf
  simp only [add]
  split_ifs
  · exact ⟨_, by rw [flush, if_neg (by simp [hf'])]⟩
  · exact ⟨_, rfl⟩

def logAll (n : ℕ) : List EventsAct := List.replicate n (.add .log 0 .null)

/-- Of `n` events the first fifty are in flight, and the buffer holds as many of the last as it
can. -/
def FirstInFlight (n : ℕ) (s : EventsClient) : Prop :=
  ∃ f batch, s.flushing = some f ∧ f.completes .accepted = some batch
    ∧ batch.map BufferedEvent.clientEventId = List.range 50
    ∧ s.buffer.length = min n 1000 ∧ s.added.length = n

theorem FirstInFlight.add {n : ℕ} (h : FirstInFlight n s) :
    FirstInFlight (n + 1) (s.add {} .log 0 .null) := by
  obtain ⟨f, batch, hf, hcompletes, hbatch, hbuffer, hadded⟩ := h
  obtain ⟨e, m, -, hm, happend⟩ := append_eq {} .log 0 .null s
  obtain ⟨waiting, hadd⟩ := add_of_flushing (L := {}) hf .log 0 .null
  have hm : m = s.buffer.length + 1 - 1000 := hm
  rw [hadd, happend]
  refine ⟨f, batch, hf, hcompletes, hbatch, ?_, ?_⟩
  · simp only [length_drop, length_append, length_singleton]
    omega
  · simp only [length_append, length_singleton]
    omega

theorem FirstInFlight.logAll {n : ℕ} (k : ℕ) (h : FirstInFlight n s) :
    ∃ t, (eventsMachine {}).run (logAll k) s = some t ∧ FirstInFlight (n + k) t := by
  induction k generalizing n s with
  | zero => exact ⟨s, rfl, h⟩
  | succ k ih =>
    obtain ⟨t, ht, hfirst⟩ := ih h.add
    refine ⟨t, ?_, ?_⟩
    · rw [EventsClient.logAll, replicate_succ]
      exact run_cons.2 ⟨_, rfl, ht⟩
    · rwa [Nat.add_assoc, Nat.add_comm 1] at hfirst

theorem firstInFlight_fifty :
    ∃ s, (eventsMachine {}).run (logAll 50) empty = some s ∧ FirstInFlight 50 s := by
  have heval : ((eventsMachine {}).run (logAll 50) empty).map (fun s =>
      ((s.flushing.bind (Flushing.completes .accepted)).map
        (List.map BufferedEvent.clientEventId), s.buffer.length, s.added.length))
      = some (some (List.range 50), 50, 50) := by decide +kernel
  obtain ⟨s, hrun, hs⟩ := map_eq_some_iff.1 heval
  simp only [Prod.mk.injEq] at hs
  obtain ⟨hflushing, hbuffer, hadded⟩ := hs
  obtain ⟨batch, hcompletes, hbatch⟩ := map_eq_some_iff.1 hflushing
  obtain ⟨f, hf, hcompletes⟩ := bind_eq_some_iff.1 hcompletes
  exact ⟨s, hrun, f, batch, hf, hcompletes, hbatch, hbuffer, hadded⟩

/-- The first event is dropped from the full buffer while it is in flight. When its batch is
accepted the fifty first events of the buffer are removed, and the last of them was never posted. -/
theorem lost_when_full : ∃ s,
    (eventsMachine {}).run (logAll 50 ++ logAll 951 ++ [.answer .accepted]) empty = some s
    ∧ ¬ s.Accounted := by
  obtain ⟨s₀, hrun₀, h₀⟩ := firstInFlight_fifty
  obtain ⟨s, hrun, f, batch, hf, hcompletes, hbatch, hbuffer, hadded⟩ := h₀.logAll 951
  have hrun : (eventsMachine {}).run (logAll 50 ++ logAll 951) empty = some s :=
    run_append.2 ⟨s₀, hrun₀, hrun⟩
  have hsound : Sound {} s :=
    run_keeps (I := Sound {}) (fun a s t h ht => h.step ht) _ sound_empty hrun
  obtain ⟨t, hstep⟩ : ∃ t, s.answer {} .accepted = some t := by
    cases f <;> simp [answer, hf]
  refine ⟨t, run_append.2 ⟨s, hrun, run_cons.2 ⟨t, hstep, rfl⟩⟩, ?_⟩
  refine not_accounted_step (a := .answer .accepted) hsound (fun hok => ?_) hstep
  -- the batch begins with the first event, and the buffer does not
  obtain ⟨rest, hrest⟩ := hok .accepted f batch rfl hf hcompletes
  obtain ⟨lo, hi, hstretch, -⟩ := hsound
  obtain ⟨e, he, hid⟩ : ∃ e ∈ batch, e.clientEventId = 0 := by
    have hzero : 0 ∈ batch.map BufferedEvent.clientEventId := by simp [hbatch]
    exact mem_map.1 hzero
  have hmem : e ∈ s.added.drop s.start := by
    rw [← hstretch.suffix, ← hrest]
    exact mem_append_left _ he
  have hstart := ((mem_drop_iff_id hstretch.ids).1 hmem).2
  unfold start at hstart
  omega

end EventsClient

end Crewquarters
