import Crewquarters.Lib.Firsts
import Crewquarters.Proofs.Chronicle

/-!
# Event batches are stored once

The loop of `record_agent_event_batch` adds the first appearances of ids that are not stored yet
(`batchRows_content`), and no other operation stores an event with an id of the agent's own.
-/

namespace Crewquarters

open List

variable {G : Guards} {asks : Prop} {clk : Clock} {s t : Session}
  {validator : Option (RunId → ℕ → AgentEventInput → List String)} {n : ℕ}
  {events : List AgentEventInput} {r : EventBatchResult}

/-- A stored event without its number. -/
structure EventContent where
  attempt : ℕ
  type : EventType
  payload : Payload
  clientEventId : Option String
  occurredAt : Option Time

def RunEvent.content (e : RunEvent) : EventContent :=
  ⟨e.attempt, e.type, e.payload, e.clientEventId, e.occurredAt⟩

def AgentEventInput.content (G : Guards) (n : ℕ) (e : AgentEventInput) : EventContent :=
  ⟨n, e.type, .value (G.redact e.payload), some e.clientEventId, e.occurredAt⟩

def RunData.clientEvents (d : RunData) : List RunEvent :=
  d.events.filter fun e => e.clientEventId.isSome

def RunData.clientIds (d : RunData) : List String := d.events.filterMap RunEvent.clientEventId

/-- What the loop over a batch adds to its variables. -/
structure Stores (G : Guards) (attempt : ℕ) (events : List AgentEventInput) (b b' : Batch) :
    Prop where
  rows : b'.rows.map RunEvent.content = b.rows.map RunEvent.content
    ++ (firsts AgentEventInput.clientEventId b.stored events).map
      (AgentEventInput.content G attempt)
  accepted : b'.accepted + b.rows.length = b.accepted + b'.rows.length
  total : b'.accepted + b'.duplicates = b.accepted + b.duplicates + events.length

theorem foldl_batchStep_stores (G : Guards) (attempt : ℕ) :
    ∀ (events : List AgentEventInput) (b : Batch),
      Stores G attempt events b (events.foldl (batchStep G attempt) b)
  | [], b => ⟨by simp, rfl, rfl⟩
  | e :: events, b => by
    obtain ⟨hrows, haccepted, htotal⟩ :=
      foldl_batchStep_stores G attempt events (batchStep G attempt b e)
    rw [foldl_cons]
    by_cases he : e.clientEventId ∈ b.stored
    · simp only [batchStep, if_pos he] at hrows haccepted htotal ⊢
      refine ⟨?_, haccepted, ?_⟩
      · rw [firsts_cons_of_mem events he]
        exact hrows
      · rw [htotal, length_cons]
        omega
    · simp only [batchStep, if_neg he] at hrows haccepted htotal ⊢
      refine ⟨?_, ?_, ?_⟩
      · rw [hrows, firsts_cons_of_not_mem events he]
        simp [RunEvent.content, AgentEventInput.content]
      · rw [length_append, length_singleton] at haccepted
        omega
      · rw [htotal, length_cons]
        omega

theorem mem_storedIds {ids : List String} {k : String} (hk : k ∈ ids) :
    k ∈ storedIds ids s ↔ k ∈ s.clientIds := by
  simp only [storedIds, RunData.clientIds, mem_filterMap, Option.filter_eq_some_iff]
  simp [hk]

theorem batchRows_content (G : Guards) (events : List AgentEventInput) (s : Session) :
    (batchRows G events s).map RunEvent.content
      = (firsts AgentEventInput.clientEventId s.clientIds events).map
          (AgentEventInput.content G s.run.currentAttempt) := by
  have hids : ∀ e ∈ events, e.clientEventId ∈ storedIds (events.map (·.clientEventId)) s
      ↔ e.clientEventId ∈ s.clientIds :=
    fun e he => mem_storedIds (mem_map_of_mem he)
  rw [← firsts_congr hids]
  exact (foldl_batchStep_stores G s.run.currentAttempt events
    ⟨storedIds (events.map (·.clientEventId)) s, lastSequence s, 0, 0, []⟩).rows

theorem lastSequence_append {rows : List RunEvent}
    (hrows : rows.map (·.sequence) = List.range' (lastSequence s + 1) rows.length) :
    lastSequence { s with events := s.events ++ rows } = lastSequence s + rows.length := by
  have hle : ∀ x ∈ s.events.map (·.sequence), x ≤ lastSequence s :=
    fun x hx => le_max_of_le hx le_rfl
  have hmap : (s.events ++ rows).map (·.sequence)
      = s.events.map (·.sequence) ++ List.range' (lastSequence s + 1) rows.length := by
    rw [map_append, hrows]
  have hlast : lastSequence { s with events := s.events ++ rows }
      = ((s.events ++ rows).map (·.sequence)).foldr max 0 := rfl
  rw [hlast, hmap]
  refine le_antisymm (max_le_of_forall_le _ _ fun x hx => ?_) ?_
  · rcases List.mem_append.1 hx with hx | hx
    · exact (hle x hx).trans (Nat.le_add_right _ _)
    · have := List.mem_range'_1.1 hx
      omega
  · rcases Nat.eq_zero_or_pos rows.length with h0 | hpos
    · rw [h0, Nat.add_zero]
      exact max_le_of_forall_le _ _ fun x hx =>
        le_max_of_le (mem_append_left _ hx) le_rfl
    · exact le_max_of_le (mem_append_right _ (List.mem_range'_1.2 ⟨by omega, by omega⟩))
        le_rfl

/-- The batch added `rows`: the events that were new, the first of each id. -/
structure BatchStored (G : Guards) (events : List AgentEventInput) (s : Session)
    (r : EventBatchResult) (t : Session) (rows : List RunEvent) : Prop where
  session : t = { s with events := s.events ++ rows }
  content : rows.map RunEvent.content
    = (firsts AgentEventInput.clientEventId s.clientIds events).map
        (AgentEventInput.content G s.run.currentAttempt)
  consecutive : rows.map (·.sequence) = List.range' (lastSequence s + 1) rows.length
  accepted : r.accepted = rows.length
  total : r.accepted + r.duplicates = events.length
  last : r.lastSequence = lastSequence t

theorem recordAgentEventBatch_result
    (h : recordAgentEventBatch G validator n events s = .ok (r, t)) :
    ∃ b, b = events.foldl (batchStep G s.run.currentAttempt)
        ⟨storedIds (events.map (·.clientEventId)) s, lastSequence s, 0, 0, []⟩
      ∧ r = ⟨b.accepted, b.duplicates, b.sequence⟩ := by
  simp only [recordAgentEventBatch] at h
  obtain ⟨_, -, h⟩ := bind_eq_ok.1 h
  simp only [ite_error_eq_ok, Except.ok.injEq, Prod.mk.injEq] at h
  exact ⟨_, rfl, h.2.2.1.symm⟩

theorem recordAgentEventBatch_stored
    (h : recordAgentEventBatch G validator n events s = .ok (r, t)) :
    ∃ rows, BatchStored G events s r t rows := by
  obtain ⟨-, -, htypes, rfl⟩ := recordAgentEventBatch_cases h
  obtain ⟨b, hb, rfl⟩ := recordAgentEventBatch_result h
  have hstores : Stores G s.run.currentAttempt events
      ⟨storedIds (events.map (·.clientEventId)) s, lastSequence s, 0, 0, []⟩ b :=
    hb ▸ foldl_batchStep_stores ..
  have hnumbered : BatchRows (lastSequence s) s.run.currentAttempt b :=
    hb ▸ foldl_batchStep_rows ⟨rfl, rfl, by simp, by simp⟩ htypes
  have hrows : batchRows G events s = b.rows := by rw [hb]; rfl
  have hlast := lastSequence_append hnumbered.sequences
  rw [hrows]
  refine ⟨b.rows, rfl, hrows ▸ batchRows_content G events s, hnumbered.sequences, ?_, ?_, ?_⟩
  · simpa using hstores.accepted
  · simpa using hstores.total
  · exact hnumbered.sequence.trans hlast.symm

theorem recordAgentEventBatch_of_stored (hids : ∀ e ∈ events, e.clientEventId ∈ s.clientIds)
    (h : recordAgentEventBatch G validator n events s = .ok (r, t)) :
    r = ⟨0, events.length, lastSequence s⟩ ∧ t = s := by
  obtain ⟨rows, hrows⟩ := recordAgentEventBatch_stored h
  obtain rfl : rows = [] := by simpa [firsts_eq_nil hids] using hrows.content
  obtain rfl : t = s := by simpa using hrows.session
  obtain ⟨accepted, duplicates, last⟩ := r
  obtain rfl : accepted = 0 := hrows.accepted
  obtain rfl : last = lastSequence t := hrows.last
  have htotal : 0 + duplicates = events.length := hrows.total
  exact ⟨by rw [← htotal, Nat.zero_add], rfl⟩

theorem BatchStored.clientEvents {rows : List RunEvent} (h : BatchStored G events s r t rows) :
    t.clientEvents = s.clientEvents ++ rows := by
  have hsome : ∀ e ∈ rows, e.clientEventId.isSome := by
    intro e he
    have hmem := mem_map_of_mem (f := RunEvent.content) he
    rw [h.content] at hmem
    obtain ⟨x, -, hx⟩ := List.mem_map.1 hmem
    have hid : some x.clientEventId = e.clientEventId := congrArg EventContent.clientEventId hx
    rw [← hid]
    rfl
  rw [h.session]
  simp only [RunData.clientEvents, filter_append, List.filter_eq_self.2 hsome]

theorem Edit.clientEvents (h : Edit G asks False s t) : t.clientEvents = s.clientEvents := by
  cases h with
  | move => simp [RunData.clientEvents, moved, appendEvent]
  | event => simp [RunData.clientEvents, appendEvent]
  | batch reported => exact reported.elim
  | _ => rfl

theorem Edits.clientEvents (h : Edits G asks False s t) : t.clientEvents = s.clientEvents :=
  h.relates (R := fun s t => t.clientEvents = s.clientEvents) (fun _ => rfl)
    (fun _ _ _ h h' => h'.trans h) fun _ _ h => h.clientEvents

theorem clientIds_eq (d : RunData) :
    d.clientIds = (d.clientEvents.map RunEvent.content).filterMap EventContent.clientEventId := by
  rw [RunData.clientIds, RunData.clientEvents, filterMap_map, filterMap_filter]
  refine filterMap_congr fun e _ => ?_
  cases h : e.clientEventId <;> simp [h, RunEvent.content]

namespace Db

variable {db db' : Db} {id : RunId} {op : DbOp}

/-- The events of a run that have an id of the agent's own, oldest first. -/
def stored (id : RunId) (db : Db) : List EventContent :=
  match db.getRun id with
  | none => []
  | some d => d.clientEvents.map RunEvent.content

end Db

/-- The transaction of a batch that an agent of run `id` sends in attempt `n`. -/
abbrev DbOp.batch (id : RunId) (validator : Option (RunId → ℕ → AgentEventInput → List String))
    (n : ℕ) (events : List AgentEventInput) : DbOp :=
  .client (.call id (.recordAgentEventBatch validator n events))

/-- The events of a batch that the transaction delivers to run `id` and that is accepted. -/
def DbOp.delivered (G : Guards) (clk : Clock) (id : RunId) (db : Db) (op : DbOp) :
    List (ℕ × AgentEventInput) :=
  match op with
  | .client (.call r (.recordAgentEventBatch _ n events)) =>
    if r = id ∧ (op.exec G clk db).isOk then events.map (n, ·) else []
  | _ => []

theorem DbOp.delivered_of_not_reports {id : RunId} {db : Db} {op : DbOp} (h : ¬ op.reports) :
    op.delivered G clk id db = [] := by
  cases op with
  | client op =>
    cases op with
    | call r c =>
      cases c with
      | recordAgentEventBatch => exact absurd trivial h
      | _ => rfl
    | _ => rfl
  | _ => rfl

/-- The events of all the batches of run `id` that are accepted, in the order they are sent. -/
def delivered (G : Guards) (id : RunId) : List (Clock × DbOp) → Db → List (ℕ × AgentEventInput)
  | [], _ => []
  | (clk, op) :: ops, db => op.delivered G clk id db ++ delivered G id ops (db.commit G clk op)

/-- The first appearances in batches, as they are stored after the events `seen`. -/
def storedFirsts (G : Guards) (seen : List EventContent) (posted : List (ℕ × AgentEventInput)) :
    List EventContent :=
  (firsts (fun p => p.2.clientEventId) (seen.filterMap EventContent.clientEventId) posted).map
    fun p => p.2.content G p.1

namespace Db

variable {db db' : Db} {id : RunId} {op : DbOp}

theorem stored_of_getRun {d : RunData} (hd : db.getRun id = some d) :
    db.stored id = d.clientEvents.map RunEvent.content := by
  simp only [stored, hd]

theorem stored_commit_of_not_reports (hn : db.Numbered) (hop : ¬ op.reports) :
    (db.commit G clk op).stored id = db.stored id := by
  cases hd : db.getRun id with
  | none =>
    cases hd' : (db.commit G clk op).getRun id with
    | none => simp only [stored, hd, hd']
    | some =>
      have hnew := (commit_new hn hd hd').2
      simp [stored, hd, hd', RunData.clientEvents, hnew.events]
  | some d =>
    have hsame : (db.commit G clk op).Fact id fun d' => d'.clientEvents = d.clientEvents :=
      commit_relates (true_invariant G) (R := fun d d' => d'.clientEvents = d.clientEvents)
        (fun _ _ _ h h' => h'.trans h) (fun _ => rfl)
        (fun _ _ hp _ => Edits.clientEvents (eq_false hop ▸ hp.edits)) (fun _ _ => trivial) hd
    obtain ⟨d', hd', heq⟩ := hsame
    rw [stored_of_getRun hd, stored_of_getRun hd', heq]

theorem stored_commit_batch {r : RunId} :
    (db.commit G clk (.batch r validator n events)).stored id
      = db.stored id ++ storedFirsts G (db.stored id) (DbOp.delivered G clk id db
          (.batch r validator n events)) := by
  cases hexec : DbOp.exec G clk (.batch r validator n events) db with
  | error =>
    simp [commit, hexec, DbOp.delivered, Except.isOk, Except.toBool, storedFirsts]
  | ok db' =>
    have hcommit : db.commit G clk (.batch r validator n events)
        = db' := by simp only [commit, hexec]
    obtain ⟨d, t, hd, ht, rfl⟩ := onRun_eq_ok hexec
    obtain ⟨res, ht⟩ := dropResult_eq_ok.1 (raising_eq_ok.1 ht)
    obtain ⟨rows, hrows⟩ := recordAgentEventBatch_stored ht
    have hn : n = d.run.currentAttempt := (recordAgentEventBatch_cases ht).1
    have hid : t.run.id = r := (congrArg (·.run.id) hrows.session).trans (getRun_id hd)
    rw [hcommit]
    by_cases hr : r = id
    · subst hr
      have hdelivered : DbOp.delivered G clk r db
          (.batch r validator n events) = events.map (n, ·) := by
        simp [DbOp.delivered, hexec, Except.isOk, Except.toBool]
      have hget : (db.store t).getRun r = some t.toRunData := hid ▸ getRun_store (hid.symm ▸ hd)
      rw [stored_of_getRun hget, stored_of_getRun hd, hrows.clientEvents, map_append,
        hrows.content, hdelivered, storedFirsts, firsts_map, ← clientIds_eq, map_map, hn]
      rfl
    · have hdelivered : DbOp.delivered G clk id db
          (.batch r validator n events) = [] := by
        simp [DbOp.delivered, hr]
      have hget : (db.store t).getRun id = db.getRun id := getRun_store_of_ne (hid ▸ hr)
      simp only [stored, hget, hdelivered, storedFirsts, firsts_nil, map_nil, append_nil]

theorem stored_commit (hn : db.Numbered) :
    (db.commit G clk op).stored id
      = db.stored id ++ storedFirsts G (db.stored id) (op.delivered G clk id db) := by
  by_cases hop : op.reports
  · cases op with
    | client op =>
      cases op with
      | call r c =>
        cases c with
        | recordAgentEventBatch => exact stored_commit_batch
        | _ => exact hop.elim
      | _ => exact hop.elim
    | _ => exact hop.elim
  · rw [stored_commit_of_not_reports hn hop, DbOp.delivered_of_not_reports hop]
    simp [storedFirsts]

theorem filterMap_storedFirsts (G : Guards) (seen : List EventContent)
    (l : List (ℕ × AgentEventInput)) :
    (storedFirsts G seen l).filterMap EventContent.clientEventId
      = (firsts (fun p => p.2.clientEventId) (seen.filterMap EventContent.clientEventId) l).map
          fun p => p.2.clientEventId := by
  rw [storedFirsts, filterMap_map, ← filterMap_eq_map]
  rfl

theorem storedFirsts_append (seen : List EventContent) (l l' : List (ℕ × AgentEventInput)) :
    storedFirsts G seen (l ++ l')
      = storedFirsts G seen l ++ storedFirsts G (seen ++ storedFirsts G seen l) l' := by
  have hids := filterMap_storedFirsts G seen l
  simp only [storedFirsts, firsts_append, map_append, filterMap_append] at hids ⊢
  rw [hids]

theorem stored_run : ∀ (ops : List (Clock × DbOp)) {db db' : Db}, db.Numbered →
    (dbMachine G).run ops db = some db' →
    db'.stored id = db.stored id ++ storedFirsts G (db.stored id) (delivered G id ops db)
  | [], db, db', _, h => by
    obtain rfl := Option.some.inj h
    simp [delivered, storedFirsts]
  | (clk, op) :: ops, db, db', hn, h => by
    obtain ⟨u, hu, h⟩ := Machine.run_cons.1 h
    obtain rfl := Option.some.inj hu
    rw [stored_run ops (commit_numbered hn) h, stored_commit hn, delivered, storedFirsts_append,
      append_assoc]

theorem store_session {d : RunData} (hn : db.Numbered) (hd : db.getRun id = some d) :
    db.store (db.session d) = db := by
  obtain ⟨l₁, l₂, hruns, -, hput⟩ := Table.split_of_get hn.ids hd
  have hid : d.id = id := Table.get_key hd
  simp only [store, session, hput d hid, ← hruns]

theorem mem_ids_storedFirsts {seen : List EventContent} {posted : List (ℕ × AgentEventInput)}
    {p : ℕ × AgentEventInput} (hp : p ∈ posted) : p.2.clientEventId
      ∈ (seen ++ storedFirsts G seen posted).filterMap EventContent.clientEventId := by
  rw [filterMap_append, filterMap_storedFirsts]
  exact key_mem_firsts hp

theorem commit_batch_of_stored (hn : db.Numbered)
    (hids : ∀ e ∈ events, e.clientEventId ∈ (db.stored id).filterMap EventContent.clientEventId) :
    db.commit G clk (.batch id validator n events) = db := by
  unfold commit
  split
  · rename_i db' hexec
    obtain ⟨d, t, hd, ht, rfl⟩ := onRun_eq_ok hexec
    obtain ⟨res, ht⟩ := dropResult_eq_ok.1 (raising_eq_ok.1 ht)
    rw [stored_of_getRun hd, ← clientIds_eq] at hids
    obtain ⟨-, rfl⟩ := recordAgentEventBatch_of_stored (s := db.session d) hids ht
    exact store_session hn hd
  · rfl

theorem stored_of_batch (hn : db.Numbered)
    (hexec : DbOp.exec G clk (.batch id validator n events) db = .ok db')
    {later : List (Clock × DbOp)} {db'' : Db}
    (hlater : (dbMachine G).run later db' = some db'') {e : AgentEventInput} (he : e ∈ events) :
    e.clientEventId ∈ (db''.stored id).filterMap EventContent.clientEventId := by
  have hcommit : db.commit G clk (.batch id validator n events) = db' := by
    simp only [commit, hexec]
  have hdelivered : DbOp.delivered G clk id db (.batch id validator n events)
      = events.map (n, ·) := by
    simp [DbOp.delivered, hexec, Except.isOk, Except.toBool]
  have hn' : db'.Numbered := hcommit ▸ commit_numbered hn
  rw [stored_run later hn' hlater, ← hcommit, stored_commit hn, hdelivered, filterMap_append]
  exact mem_append_left _ (mem_ids_storedFirsts (mem_map_of_mem he))

end Db

/-- In every state transactions reach, the events of a run with ids of the agent's own are the first
appearances in the batches that were accepted, in the order they were sent, one an id. A batch that
is accepted next gets consecutive numbers and adds what is new in it; its result counts what was
added and what was not, and gives the run's last number. One that is refused stores nothing, and one
that was accepted changes nothing when it is sent again, by any attempt and at any later time. -/
theorem batches_stored_once {ops : List (Clock × DbOp)} {db : Db}
    (h : (dbMachine G).run ops Db.empty = some db) (id : RunId) :
    db.stored id = storedFirsts G [] (delivered G id ops Db.empty)
    ∧ ((db.stored id).map EventContent.clientEventId).Nodup
    ∧ ∀ (clk : Clock) (validator : Option (RunId → ℕ → AgentEventInput → List String)) (n : ℕ)
        (events : List AgentEventInput),
      (∀ d r t, db.getRun id = some d →
        recordAgentEventBatch G validator n events (db.session d) = .ok (r, t) →
        db.commit G clk (.batch id validator n events) = db.store t
        ∧ ∃ rows, BatchStored G events (db.session d) r t rows)
      ∧ (∀ e, DbOp.exec G clk (.batch id validator n events) db = .error e →
        db.commit G clk (.batch id validator n events) = db)
      ∧ ∀ db', DbOp.exec G clk (.batch id validator n events) db = .ok db' →
        ∀ (later : List (Clock × DbOp)) (db'' : Db), (dbMachine G).run later db' = some db'' →
        ∀ (clk : Clock) (validator : Option (RunId → ℕ → AgentEventInput → List String)) (n : ℕ),
        db''.commit G clk (.batch id validator n events) = db''
        ∧ ∀ d r t, db''.getRun id = some d →
          recordAgentEventBatch G validator n events (db''.session d) = .ok (r, t) →
          r = ⟨0, events.length, lastSequence (db''.session d)⟩ ∧ t = db''.session d := by
  have hn : db.Numbered := Db.run_numbered h
  have hstored : db.stored id = storedFirsts G [] (delivered G id ops Db.empty) :=
    Db.stored_run ops Db.numbered_empty h
  refine ⟨hstored, ?_, fun clk₀ validator₀ n₀ events => ⟨?_, ?_, ?_⟩⟩
  · have hkeys : ((firsts (fun p => p.2.clientEventId) [] (delivered G id ops Db.empty)).map
        fun p => p.2.clientEventId).Nodup := nodup_keys_firsts _ nodup_nil
    rw [hstored, storedFirsts, map_map]
    have hsome := hkeys.map (Option.some_injective String)
    rwa [map_map] at hsome
  · intro d r t hd ht
    refine ⟨?_, recordAgentEventBatch_stored ht⟩
    have hexec : DbOp.exec G clk₀ (.batch id validator₀ n₀ events) db = .ok (db.store t) :=
      Db.onRun_of_ok hd (raising_eq_ok.2 (dropResult_eq_ok.2 ⟨r, ht⟩))
    simp only [Db.commit, hexec]
  · intro e he
    simp only [Db.commit, he]
  · intro db' hexec later db'' hlater clk validator n
    have hids : ∀ e ∈ events, e.clientEventId
        ∈ (db''.stored id).filterMap EventContent.clientEventId :=
      fun e he => Db.stored_of_batch hn hexec hlater he
    have hcommit : db.commit G clk₀ (.batch id validator₀ n₀ events) = db' := by
      simp only [Db.commit, hexec]
    have hn' : db'.Numbered := hcommit ▸ Db.commit_numbered hn
    refine ⟨Db.commit_batch_of_stored (hn'.run hlater) hids, fun d r t hd ht => ?_⟩
    rw [Db.stored_of_getRun hd, ← clientIds_eq] at hids
    exact recordAgentEventBatch_of_stored (s := db''.session d) hids ht

def overlappingOps : List (Clock × DbOp) :=
  let event (id : String) : AgentEventInput := ⟨id, .log, .null, none⟩
  atZero (startPlain ++ [.batch 0 none 1 [event "a", event "b", event "a"],
    .batch 0 none 1 [event "b", event "c"]])

theorem batches_stored_once_overlapping : ∃ db,
    (dbMachine plainGuards).run overlappingOps Db.empty = some db
    ∧ (db.stored 0).map EventContent.clientEventId = [some "a", some "b", some "c"]
    ∧ db.stored 0
      = storedFirsts plainGuards [] (delivered plainGuards 0 overlappingOps Db.empty) := by
  have h : (dbMachine plainGuards).run overlappingOps Db.empty = some _ := rfl
  exact ⟨_, h, by decide, (batches_stored_once h 0).1⟩

end Crewquarters
