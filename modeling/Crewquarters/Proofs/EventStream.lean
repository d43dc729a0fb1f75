import Crewquarters.EventStream
import Crewquarters.Proofs.Chronicle

/-!
# A stream delivers a run's events once

Transactions only append to a run's log (`Db.eventsOf_commit`), whose events are numbered from one,
so the events after a cursor are what is left of the log after as many events, in every snapshot
that is read (`EventStream.page_eq`). A stream sends the log from its cursor on, a page at a time.
-/

namespace Crewquarters

open List Option

variable {G : Guards} {asks reports : Prop} {clk : Clock} {op : DbOp} {id : RunId} {db : Db}

theorem Edits.events_prefix {s t : Session} (h : Edits G asks reports s t) :
    s.events <+: t.events := by
  refine h.relates (R := fun s t => s.events <+: t.events) (fun _ => prefix_rfl)
    (fun _ _ _ h h' => h.trans h') fun s t h => ?_
  cases h with
  | move | event | batch => exact prefix_append ..
  | _ => exact prefix_rfl

namespace Db

variable {db : Db}

theorem eventsOf_of_getRun {d : RunData} (hd : db.getRun id = some d) :
    db.eventsOf id = d.events := by
  simp only [eventsOf, hd]

theorem eventsOf_commit : db.eventsOf id <+: (db.commit G clk op).eventsOf id := by
  cases hd : db.getRun id with
  | none =>
    simp only [eventsOf, hd]
    exact nil_prefix
  | some d =>
    have hgrown : (db.commit G clk op).Fact id fun d' => d.events <+: d'.events :=
      commit_relates (true_invariant G) (R := fun d d' => d.events <+: d'.events)
        (fun _ _ _ h h' => h.trans h') (fun _ => prefix_rfl)
        (fun _ _ hp _ => hp.edits.events_prefix) (fun _ _ => trivial) hd
    obtain ⟨d', hd', hprefix⟩ := hgrown
    rwa [eventsOf_of_getRun hd, eventsOf_of_getRun hd']

theorem eventsOf_sequences (h : db.All LogAgrees) :
    (db.eventsOf id).map (·.sequence) = List.range' 1 (db.eventsOf id).length := by
  cases hd : db.getRun id with
  | none => simp only [eventsOf, hd, map_nil, length_nil, range'_zero]
  | some d =>
    rw [eventsOf_of_getRun hd]
    exact (h d (Table.get_mem hd)).sequences

end Db

section Numbered

variable {log : List RunEvent} (hlog : log.map (·.sequence) = List.range' 1 log.length)

include hlog

theorem sequence_getElem {i : ℕ} (hi : i < log.length) : (log[i]).sequence = i + 1 := by
  have hget : (log.map (·.sequence))[i]? = (List.range' 1 log.length)[i]? := by rw [hlog]
  simp only [getElem?_map, getElem?_eq_getElem hi, map_some] at hget
  rw [getElem?_range' hi, some.injEq] at hget
  omega

theorem filter_sequence (c : ℤ) : (log.filter fun e => c < e.sequence) = log.drop c.toNat := by
  have htake : ∀ e ∈ log.take c.toNat, ¬ c < e.sequence := by
    intro e he
    obtain ⟨i, hi, rfl⟩ := mem_take_iff_getElem.1 he
    rw [sequence_getElem hlog]
    omega
  have hdrop : ∀ e ∈ log.drop c.toNat, c < e.sequence := by
    intro e he
    obtain ⟨i, hi, rfl⟩ := mem_drop_iff_getElem.1 he
    rw [sequence_getElem hlog]
    omega
  conv_lhs => rw [← take_append_drop c.toNat log]
  rw [filter_append, filter_eq_nil_iff.2 (by simpa using htake),
    filter_eq_self.2 (by simpa using hdrop), nil_append]

theorem pairwise_sequence : log.Pairwise fun a b => a.sequence ≤ b.sequence := by
  have hsorted : (log.map (·.sequence)).Pairwise (· ≤ ·) := by
    rw [hlog]
    exact pairwise_le_range'
  exact pairwise_map.1 hsorted

theorem sequences_of_prefix {k : ℕ} {l : List RunEvent} (hl : l <+: log.drop k) :
    l.map (·.sequence) = List.range' (k + 1) l.length := by
  refine ext_getElem (by simp) fun i hi hi' => ?_
  have hlen : i < l.length := by simpa using hi
  have hlen' := hl.length_le
  rw [length_drop] at hlen'
  rw [getElem_map, getElem_range', hl.getElem hlen, getElem_drop,
    sequence_getElem hlog]
  omega

end Numbered

theorem EventStream.page_eq (h : db.All LogAgrees) (cursor : ℤ) :
    EventStream.page id cursor db = ((db.eventsOf id).drop cursor.toNat).take pageSize := by
  have hlog : (db.eventsOf id).map (·.sequence) = List.range' 1 (db.eventsOf id).length :=
    Db.eventsOf_sequences h
  have hsorted : ((db.eventsOf id).drop cursor.toNat).Pairwise fun a b => a.sequence ≤ b.sequence :=
    (pairwise_sequence hlog).sublist (drop_sublist ..)
  rw [page, filter_sequence hlog, List.Pairwise.insertionSort_eq hsorted]

theorem append_prefix_of_drop {l l' log : List RunEvent} (hl : l <+: log)
    (hl' : l' <+: log.drop l.length) : l ++ l' <+: log := by
  obtain ⟨rest, rfl⟩ := hl
  rw [drop_left] at hl'
  exact (prefix_append_right_inj _).2 hl'

/-- The last state change of the log is to `state`. -/
def ChangedTo (state : RunState) (log : List RunEvent) : Prop :=
  ∃ source reason code, (stateChanges log).getLast?.map (·.payload)
    = some (.stateChanged source state reason code)

theorem LogAgrees.changedTo {d : RunData} (h : LogAgrees d) : ChangedTo d.run.state d.events := by
  have hchain := h.chain
  rcases eq_nil_or_concat (stateChanges d.events) with hnil | ⟨changes, e, hlast⟩
  · rw [hnil] at hchain
    cases hchain
  · rw [hlast, concat_eq_append, path_append] at hchain
    obtain ⟨source, -, u, ⟨state, reason, code, hpayload, hstate, -⟩, hend⟩ := hchain
    obtain rfl := some.inj (hstate.symm.trans hend)
    exact ⟨source, reason, code, by simp [hlast, hpayload]⟩

/-- Where the poll is, when `k` events of the log are sent or were before the cursor. -/
def Poll.Follows (log : List RunEvent) (k : ℕ) : Poll → Prop
  | .idle => True
  | .stateRead state log' => log' <+: log ∧ ∀ x ∈ state, ChangedTo x log'
  | .sending page => page <+: log.drop k
  | .ended state log' =>
    state ∈ RunState.terminalStates ∧ log' <+: log ∧ ChangedTo state log' ∧ log'.length ≤ k

theorem Poll.Follows.mono {log log' : List RunEvent} {k : ℕ} {poll : Poll}
    (h : poll.Follows log k) (hlog : log <+: log') : poll.Follows log' k := by
  cases poll with
  | idle => trivial
  | stateRead => exact ⟨h.1.trans hlog, h.2⟩
  | sending => exact h.trans (hlog.drop k)
  | ended => exact ⟨h.1, h.2.1.trans hlog, h.2.2⟩

/-- What was sent is the log from the cursor on, without a gap. -/
structure EventStream.Follows (log : List RunEvent) (s : EventStream) : Prop where
  sent : s.sent <+: log.drop s.start.toNat
  cursor : s.cursor.toNat = s.start.toNat + s.sent.length
  poll : s.poll.Follows log (s.start.toNat + s.sent.length)

namespace EventStream.Follows

variable {log log' : List RunEvent} {s t : EventStream}

theorem opened (c : ℤ) : (EventStream.opened c).Follows log := ⟨ nil_prefix, rfl, trivial⟩

theorem mono (h : s.Follows log) (hlog : log <+: log') : s.Follows log' :=
  ⟨h.sent.trans (hlog.drop _), h.cursor, h.poll.mono hlog⟩

theorem readState (hdb : db.All LogAgrees) (h : s.Follows (db.eventsOf id))
    (hs : s.readState id db = some t) : t.Follows (db.eventsOf id) := by
  unfold EventStream.readState at hs
  split at hs
  · obtain rfl := some.inj hs
    refine ⟨h.sent, h.cursor, prefix_rfl, ?_⟩
    intro x hx
    obtain ⟨d, hd, rfl⟩ := map_eq_some_iff.1 hx
    rw [Db.eventsOf_of_getRun hd]
    exact (hdb d (Table.get_mem hd)).changedTo
  · cases hs

theorem readPage (hdb : db.All LogAgrees) (h : s.Follows (db.eventsOf id))
    (hs : s.readPage id db = some t) : t.Follows (db.eventsOf id) := by
  cases hpoll : s.poll with
  | stateRead state log' =>
    have hread : log' <+: db.eventsOf id ∧ ∀ x ∈ state, ChangedTo x log' := by
      have hread := h.poll
      rwa [hpoll] at hread
    have hpage : page id s.cursor db
        = ((db.eventsOf id).drop (s.start.toNat + s.sent.length)).take pageSize :=
      h.cursor ▸ page_eq hdb s.cursor
    simp only [EventStream.readPage, hpoll] at hs
    cases hnext : page id s.cursor db with
    | cons event events =>
      rw [hnext] at hs
      obtain rfl := some.inj hs
      refine ⟨h.sent, h.cursor, ?_⟩
      change event :: events <+: _
      rw [← hnext, hpage]
      exact take_prefix ..
    | nil =>
      rw [hnext] at hs
      -- nothing is left of the log, and what it was when the state was read is a part of it
      have hdone : (db.eventsOf id).length ≤ s.start.toNat + s.sent.length := by
        rw [hpage] at hnext
        simpa [pageSize, take_eq_nil_iff] using hnext
      cases state with
      | none =>
        obtain rfl := some.inj hs
        exact ⟨h.sent, h.cursor, trivial⟩
      | some x =>
        simp only at hs
        split_ifs at hs with hterm
        · obtain rfl := some.inj hs
          exact ⟨h.sent, h.cursor, hterm, hread.1, hread.2 x rfl, hread.1.length_le.trans hdone⟩
        · obtain rfl := some.inj hs
          exact ⟨h.sent, h.cursor, trivial⟩
  | _ =>
    simp only [EventStream.readPage, hpoll] at hs
    cases hs

theorem send (hlog : log.map (·.sequence) = List.range' 1 log.length) (h : s.Follows log)
    (hs : s.send = some t) : t.Follows log := by
  unfold EventStream.send at hs
  split at hs
  · rename_i event events hpoll
    obtain rfl := some.inj hs
    have hpage : event :: events <+: log.drop (s.start.toNat + s.sent.length) := by
      have hpage := h.poll
      rwa [hpoll] at hpage
    have hall : s.sent ++ event :: events <+: log.drop s.start.toNat :=
      append_prefix_of_drop h.sent (by rwa [drop_drop])
    have hsent : s.sent ++ [event] <+: log.drop s.start.toNat := by
      refine List.IsPrefix.trans ?_ hall
      exact (prefix_append_right_inj _).2 (prefix_append [event] events)
    have hlast : event.sequence = s.start.toNat + s.sent.length + 1 := by
      have hseq := sequences_of_prefix hlog hpage
      rw [map_cons, length_cons, range'_succ] at hseq
      exact (cons.inj hseq).1
    have hlen : s.start.toNat + (s.sent ++ [event]).length = s.start.toNat + s.sent.length + 1 := by
      rw [length_append, length_singleton, Nat.add_assoc]
    refine ⟨hsent, ?_, ?_⟩
    · change ((event.sequence : ℤ)).toNat = s.start.toNat + (s.sent ++ [event]).length
      rw [hlen, hlast, Int.toNat_natCast]
    · change Poll.Follows log (s.start.toNat + (s.sent ++ [event]).length)
        (if events.isEmpty then .idle else .sending events)
      split_ifs
      · trivial
      · rw [hlen]
        have hrest := hpage.drop 1
        rwa [drop_drop] at hrest
  · cases hs

end EventStream.Follows

namespace EventStream

variable {s t : EventStream} {db : Db}

theorem start_readState (hs : s.readState id db = some t) : t.start = s.start := by
  unfold readState at hs
  split at hs
  · exact some.inj hs ▸ rfl
  · cases hs

theorem start_readPage (hs : s.readPage id db = some t) : t.start = s.start := by
  unfold readPage at hs
  split at hs
  · split at hs
    · exact some.inj hs ▸ rfl
    · split_ifs at hs <;> exact some.inj hs ▸ rfl
    · exact some.inj hs ▸ rfl
  · cases hs

theorem start_send (hs : s.send = some t) : t.start = s.start := by
  unfold send at hs
  split at hs
  · exact some.inj hs ▸ rfl
  · cases hs

theorem Follows.mem_sent {log log' : List RunEvent}
    (hlog : log.map (·.sequence) = List.range' 1 log.length) (h : s.Follows log)
    (hsub : log' <+: log) (hlen : log'.length ≤ s.start.toNat + s.sent.length) {e : RunEvent}
    (he : e ∈ log') (hafter : s.start < e.sequence) : e ∈ s.sent := by
  obtain ⟨i, hi, rfl⟩ := mem_iff_getElem.1 he
  have hi' : i < log.length := hi.trans_le hsub.length_le
  rw [hsub.getElem hi] at hafter ⊢
  rw [sequence_getElem hlog hi'] at hafter
  rw [prefix_iff_eq_take.1 h.sent]
  refine mem_take_iff_getElem.2 ⟨i - s.start.toNat, ?_, ?_⟩
  · rw [length_drop]
    omega
  · rw [getElem_drop]
    congr 1
    omega

end EventStream

/-- The client that started at `c` has received the log from there on, and its present stream goes
on where it was. -/
structure Streaming.Follows (id : RunId) (c : ℤ) (s : Streaming) : Prop where
  agrees : s.db.All LogAgrees
  stream : s.stream.Follows (s.db.eventsOf id)
  earlier : s.earlier <+: (s.db.eventsOf id).drop c.toNat
  start : s.stream.start.toNat = c.toNat + s.earlier.length

namespace Streaming.Follows

variable {c : ℤ} {s t : Streaming}

theorem connect (hdb : db.All LogAgrees) (c : ℤ) : (Streaming.connect c db).Follows id c :=
  ⟨hdb, .opened c, nil_prefix, rfl⟩

theorem taken (h : s.Follows id c) : s.stream.sent.take s.delivered
    <+: (s.db.eventsOf id).drop s.stream.start.toNat := by
  have htaken := take_prefix s.delivered s.stream.sent
  exact htaken.trans h.stream.sent

theorem received (h : s.Follows id c) : s.received <+: (s.db.eventsOf id).drop c.toNat := by
  refine append_prefix_of_drop h.earlier ?_
  rw [drop_drop, ← h.start]
  exact h.taken

theorem lastEventId (h : s.Follows id c) : s.lastEventId.toNat = c.toNat + s.received.length := by
  have hseq := sequences_of_prefix (Db.eventsOf_sequences h.agrees)
    h.taken
  have hstart := h.start
  unfold Streaming.lastEventId Streaming.received
  rw [length_append]
  rcases eq_nil_or_concat (s.stream.sent.take s.delivered) with hnil | ⟨l, e, hlast⟩
  · rw [hnil]
    simpa using hstart
  · rw [hlast, concat_eq_append] at hseq ⊢
    rw [map_append, length_append, length_singleton, range'_1_concat,
      map_singleton] at hseq
    have he : e.sequence = s.stream.start.toNat + 1 + l.length := by
      simpa using (append_inj' hseq rfl).2
    simp only [getLast?_append, getLast?_singleton, some_or, length_append,
      length_singleton, Int.toNat_natCast]
    omega

theorem step {a : StreamAct} (h : s.Follows id c) (hs : (streamMachine G id).step a s = some t) :
    t.Follows id c := by
  cases a with
  | commit clk op =>
    obtain rfl := some.inj hs
    have hgrown : s.db.eventsOf id <+: (s.db.commit G clk op).eventsOf id := Db.eventsOf_commit
    exact ⟨(logAgrees_invariant G).commit h.agrees, h.stream.mono hgrown,
      h.earlier.trans (hgrown.drop _), h.start⟩
  | readState =>
    obtain ⟨u, hu, rfl⟩ := map_eq_some_iff.1 hs
    exact ⟨h.agrees, h.stream.readState h.agrees hu, h.earlier,
      (EventStream.start_readState hu).symm ▸ h.start⟩
  | readPage =>
    obtain ⟨u, hu, rfl⟩ := map_eq_some_iff.1 hs
    exact ⟨h.agrees, h.stream.readPage h.agrees hu, h.earlier,
      (EventStream.start_readPage hu).symm ▸ h.start⟩
  | send =>
    obtain ⟨u, hu, rfl⟩ := map_eq_some_iff.1 hs
    exact ⟨h.agrees, h.stream.send (Db.eventsOf_sequences h.agrees) hu, h.earlier,
      (EventStream.start_send hu).symm ▸ h.start⟩
  | receive =>
    simp only [streamMachine] at hs
    split_ifs at hs
    obtain rfl := some.inj hs
    exact ⟨h.agrees, h.stream, h.earlier, h.start⟩
  | reconnect =>
    obtain rfl := some.inj hs
    exact ⟨h.agrees, .opened _, h.received, h.lastEventId⟩

end Streaming.Follows

/-- Whatever commits while a client follows a run from cursor `c` on, over any number of streams:
what the present stream sent is the beginning of the stored events after its own cursor, with
consecutive numbers; if it has sent `end`, it had read a terminal state before, and has sent
everything that was stored then, up to the last change of state, which is to that state, and after
it; and what the client received in all is the beginning of the stored events after `c`, with
consecutive numbers. -/
theorem streams_deliver_once {ops : List (Clock × DbOp)}
    (hdb : (dbMachine G).run ops Db.empty = some db) (c : ℤ) {acts : List StreamAct}
    {s : Streaming} (h : (streamMachine G id).run acts (.connect c db) = some s) :
    s.stream.sent <+: (s.db.eventsOf id).filter (fun e => s.stream.start < e.sequence)
    ∧ s.stream.sent.map (·.sequence)
      = List.range' (s.stream.start.toNat + 1) s.stream.sent.length
    ∧ (∀ state log, s.stream.poll = .ended state log → state ∈ RunState.terminalStates
      ∧ log <+: s.db.eventsOf id ∧ ChangedTo state log
      ∧ ∀ e ∈ log, s.stream.start < e.sequence → e ∈ s.stream.sent)
    ∧ s.received <+: (s.db.eventsOf id).filter (fun e => c < e.sequence)
    ∧ s.received.map (·.sequence) = List.range' (c.toNat + 1) s.received.length := by
  have hfollows : s.Follows id c := by
    refine Machine.run_keeps (I := Streaming.Follows id c) (fun a s t hs ht => hs.step ht) acts ?_ h
    exact .connect ((logAgrees_invariant G).holds hdb) c
  have hlog : (s.db.eventsOf id).map (·.sequence) = List.range' 1 (s.db.eventsOf id).length :=
    Db.eventsOf_sequences hfollows.agrees
  rw [filter_sequence hlog, filter_sequence hlog]
  refine ⟨hfollows.stream.sent, sequences_of_prefix hlog hfollows.stream.sent, ?_,
    hfollows.received, sequences_of_prefix hlog hfollows.received⟩
  intro state log hended
  have hpoll := hfollows.stream.poll
  rw [hended] at hpoll
  obtain ⟨hterm, hsub, hchanged, hlen⟩ := hpoll
  exact ⟨hterm, hsub, hchanged, fun e he => hfollows.stream.mem_sent hlog hsub hlen he⟩

/-- The run of the first database fails while a client follows it, which loses the connection after
the first event and comes back. -/
def followFailing : List StreamAct :=
  [.readState, .readPage, .send, .receive, .send, .reconnect,
    .commit (fun _ => 0) (.client (.call 0 (.finish 1 .failed none none)))]
  ++ [.readState, .readPage] ++ List.replicate 4 .send ++ List.replicate 4 .receive
  ++ [.readState, .readPage]

theorem followFailing_deliver_once : ∃ db s,
    (dbMachine plainGuards).run (atZero startPlain) Db.empty = some db
    ∧ (streamMachine plainGuards 0).run followFailing (.connect 0 db) = some s
    ∧ s.received.length = 5
    ∧ s.received.map (·.sequence) = List.range' 1 s.received.length := by
  obtain ⟨db, hdb, heval⟩ : ∃ db,
      (dbMachine plainGuards).run (atZero startPlain) Db.empty = some db
      ∧ ((streamMachine plainGuards 0).run followFailing (.connect 0 db)).map
        (fun s => s.received.length) = some 5 := ⟨_, rfl, by decide⟩
  obtain ⟨s, hs, hlen⟩ := map_eq_some_iff.1 heval
  exact ⟨db, s, hdb, hs, hlen, (streams_deliver_once hdb 0 hs).2.2.2.2⟩

end Crewquarters
