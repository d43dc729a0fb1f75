import Crewquarters.Proofs.Chronicle
import Crewquarters.Proofs.Waiting

/-!
# An answer is given once and kept

A request is found by its id and asked for by its key. Ids are given once for the whole database
(`Db.Filed`), so an operation writes a request over itself, with a higher version, or adds one with
an id and a key that are new (`Filed.step`).
-/

namespace Crewquarters

open Option Table List

variable {G : Guards} {asks reports : Prop} {clk : Clock} {s t : Session} {r : InputRequest}
  {key : String}

/-- What becomes of a request: it is as it was, or it had no answer and has a higher version. -/
structure Revised (r r' : InputRequest) : Prop where
  id : r'.id = r.id
  key : r'.key = r.key
  kept : r' = r ∨ r.state ≠ .answered ∧ r.version < r'.version

namespace Revised

variable {r r' r'' : InputRequest}

theorem refl : Revised r r := ⟨rfl, rfl, .inl rfl⟩

theorem trans (h : Revised r r') (h' : Revised r' r'') : Revised r r'' := by
  refine ⟨h'.id.trans h.id, h'.key.trans h.key, ?_⟩
  rcases h'.kept with rfl | ⟨hopen', hlt'⟩
  · exact h.kept
  · rcases h.kept with rfl | ⟨hopen, hlt⟩
    · exact .inr ⟨hopen', hlt'⟩
    · exact .inr ⟨hopen, hlt.trans hlt'⟩

theorem eq_of_answered (h : Revised r r') (hr : r.state = .answered) : r' = r :=
  h.kept.resolve_right fun h => h.1 hr

end Revised

/-- The requests of a run have an id and a key of their own, and ids that were given. -/
structure Filed (s : Session) : Prop where
  ids : (s.requests.map InputRequest.id).Nodup
  keys : (s.requests.map InputRequest.key).Nodup
  lt : ∀ r ∈ s.requests, r.id < s.nextUuid

/-- The requests of `s` are revised in `t`, and what is new has an id that is new. -/
structure Refiled (s t : Session) : Prop where
  revised : ∀ r ∈ s.requests, ∃ r' ∈ t.requests, Revised r r'
  fresh : ∀ r' ∈ t.requests, (∃ r ∈ s.requests, r.id = r'.id) ∨ s.nextUuid ≤ r'.id
  nextUuid : s.nextUuid ≤ t.nextUuid

theorem Refiled.refl : Refiled s s :=
  ⟨fun r hr => ⟨r, hr, .refl⟩, fun r hr => .inl ⟨r, hr, rfl⟩, le_rfl⟩

theorem Refiled.trans {u : Session} (h : Refiled s t) (h' : Refiled t u) : Refiled s u := by
  refine ⟨fun r hr => ?_, fun r'' hr'' => ?_, h.nextUuid.trans h'.nextUuid⟩
  · obtain ⟨r', hr', hrev⟩ := h.revised r hr
    obtain ⟨r'', hr'', hrev'⟩ := h'.revised r' hr'
    exact ⟨r'', hr'', hrev.trans hrev'⟩
  · rcases h'.fresh r'' hr'' with ⟨r', hr', hid⟩ | hnew
    · rw [← hid]
      exact h.fresh r' hr'
    · exact .inr (h.nextUuid.trans hnew)

namespace Filed

theorem congr (h : Filed s) (hrequests : t.requests = s.requests)
    (hnext : s.nextUuid ≤ t.nextUuid) :
    Filed t ∧ Refiled s t := by
  refine ⟨⟨hrequests ▸ h.ids, hrequests ▸ h.keys, fun r hr => ?_⟩, ⟨fun r hr => ?_, fun r hr => ?_,
    hnext⟩⟩
  · exact (h.lt r (hrequests ▸ hr)).trans_le hnext
  · exact ⟨r, hrequests ▸ hr, .refl⟩
  · exact .inl ⟨r, hrequests ▸ hr, rfl⟩

theorem put {old r : InputRequest} (h : Filed s) (hold : old ∈ s.requests) (hr : Revised old r) :
    Filed (s.putRequest r) ∧ Refiled s (s.putRequest r) := by
  have hget : Table.get InputRequest.id r.id s.requests = some old :=
    hr.id ▸ get_of_mem h.ids hold
  have hids : (s.putRequest r).requests.map InputRequest.id = s.requests.map InputRequest.id :=
    map_key_put r s.requests
  have hmem : ∀ x ∈ (s.putRequest r).requests, ∃ y ∈ s.requests, y.id = x.id := by
    intro x hx
    rcases mem_put hx with rfl | ⟨hx, -⟩
    · exact ⟨old, hold, hr.id.symm⟩
    · exact ⟨x, hx, rfl⟩
  refine ⟨⟨?_, ?_, fun x hx => ?_⟩, ⟨fun x hx => ?_, fun x hx => .inl (hmem x hx), le_rfl⟩⟩
  · exact hids ▸ h.ids
  · exact (map_put_of_eq InputRequest.key h.ids hget hr.key).symm ▸ h.keys
  · obtain ⟨y, hy, hid⟩ := hmem x hx
    exact hid ▸ h.lt y hy
  · by_cases hid : x.id = r.id
    · have hx : Table.get InputRequest.id r.id s.requests = some x :=
        hid ▸ get_of_mem h.ids hx
      obtain rfl := some.inj (hget.symm.trans hx)
      exact ⟨r, mem_put_self hold hid, hr⟩
    · exact ⟨x, mem_put_of_mem hx hid, .refl⟩

theorem add (h : Filed s) (hid : r.id = s.nextUuid)
    (hkey : Table.get InputRequest.key r.key s.requests = none) :
    Filed (s.addRequest r) ∧ Refiled s (s.addRequest r) := by
  have hmem : ∀ x ∈ (s.addRequest r).requests, x ∈ s.requests ∨ x = r :=
    fun x hx => (mem_append.1 hx).imp_right mem_singleton.1
  refine ⟨⟨?_, ?_, fun x hx => ?_⟩, ⟨fun x hx => ?_, fun x hx => ?_, Nat.le_succ _⟩⟩
  · refine map_append ▸ nodup_append.2 ⟨h.ids, by simp, fun a ha b hb => ?_⟩
    obtain ⟨x, hx, rfl⟩ := mem_map.1 ha
    obtain rfl : b = r.id := by simpa using hb
    exact hid ▸ (h.lt x hx).ne
  · refine map_append ▸ nodup_append.2 ⟨h.keys, by simp, fun a ha b hb => ?_⟩
    obtain ⟨x, hx, rfl⟩ := mem_map.1 ha
    obtain rfl : b = r.key := by simpa using hb
    exact Table.get_eq_none.1 hkey x hx
  · rcases hmem x hx with hx | rfl
    · exact (h.lt x hx).trans (Nat.lt_succ_self _)
    · exact hid ▸ Nat.lt_succ_self _
  · exact ⟨x, mem_append_left _ hx, .refl⟩
  · rcases hmem x hx with hx | rfl
    · exact .inl ⟨x, hx, rfl⟩
    · exact .inr hid.ge

theorem step (h : Edit G asks reports s t) (hs : Filed s) : Filed t ∧ Refiled s t := by
  cases h with
  | close pending closed row =>
    exact hs.put (row hs.ids) ⟨rfl, rfl, .inr ⟨by rw [pending]; decide, Nat.lt_succ_self _⟩⟩
  | answer pending row =>
    exact hs.put row ⟨rfl, rfl, .inr ⟨by rw [pending]; decide, Nat.lt_succ_self _⟩⟩
  | reopen asked closed row =>
    refine hs.put row ⟨rfl, rfl, .inr ⟨?_, Nat.lt_succ_self _⟩⟩
    rcases closed with closed | closed <;> rw [closed] <;> decide
  | ask asked row => exact hs.add rfl row
  | uuid => exact hs.congr rfl (Nat.le_succ _)
  | _ => exact hs.congr rfl le_rfl

theorem edits (h : Edits G asks reports s t) (hs : Filed s) : Filed t ∧ Refiled s t :=
  h.keeps (I := fun u => Filed u ∧ Refiled s u)
    (fun _ _ hstep hu => ⟨(hu.1.step hstep).1, hu.2.trans (hu.1.step hstep).2⟩) ⟨hs, .refl⟩

end Filed

namespace Db

variable {db db' db'' : Db} {id : RunId} {d : RunData}

/-- The row of a question. -/
def request (id : RunId) (key : String) (db : Db) : Option InputRequest :=
  (db.getRun id).bind fun d => Table.get InputRequest.key key d.requests

theorem request_eq_some :
    db.request id key = some r ↔
      ∃ d, db.getRun id = some d ∧ Table.get InputRequest.key key d.requests = some r := by
  simp only [request, bind_eq_some_iff]

/-- A request id names one request, of one run. -/
structure Filed (db : Db) : Prop where
  numbered : db.Numbered
  runs : ∀ d ∈ db.runs, Crewquarters.Filed (db.session d)
  owner : ∀ d ∈ db.runs, ∀ d' ∈ db.runs, ∀ r ∈ d.requests, ∀ r' ∈ d'.requests, r.id = r'.id →
    d.id = d'.id

def Refiled (db db' : Db) : Prop :=
  ∀ id key r, db.request id key = some r → ∃ r', db'.request id key = some r' ∧ Revised r r'

theorem Refiled.refl : db.Refiled db := fun _ _ r hr => ⟨r, hr, .refl⟩

theorem Refiled.trans (h : db.Refiled db') (h' : db'.Refiled db'') : db.Refiled db'' := by
  intro id key r hr
  obtain ⟨r', hr', hrev⟩ := h id key r hr
  obtain ⟨r'', hr'', hrev'⟩ := h' id key r' hr'
  exact ⟨r'', hr'', hrev.trans hrev'⟩

namespace Filed

theorem empty : Db.empty.Filed :=
  ⟨numbered_empty, (fun _ hd => by cases hd), (fun _ hd => by cases hd)⟩

section

variable (h : db.Filed)
include h

theorem request_of_mem (hd : db.getRun id = some d) (hr : r ∈ d.requests) :
    db.request id r.key = some r :=
  request_eq_some.2 ⟨d, hd, get_of_mem (h.runs d (get_mem hd)).keys hr⟩

theorem request_unique {id' : RunId} {d' : RunData} {r r' : InputRequest}
    (hr : db.request id key = some r) (hd' : db.getRun id' = some d') (hr' : r' ∈ d'.requests)
    (hid : r.id = r'.id) : r' = r := by
  obtain ⟨d, hd, hr⟩ := request_eq_some.1 hr
  have hmem := get_mem hr
  have heq := h.owner d (get_mem hd) d' (get_mem hd') r hmem r' hr' hid
  obtain rfl : id = id' := (getRun_id hd).symm.trans (heq.trans (getRun_id hd'))
  obtain rfl := some.inj (hd.symm.trans hd')
  have hids := (h.runs d (get_mem hd)).ids
  have hget := get_of_mem hids hmem
  rw [hid, get_of_mem hids hr'] at hget
  exact some.inj hget

theorem store (hd : db.getRun id = some d) (hedits : Edits G asks reports (db.session d) s) :
    (db.store s).Filed ∧ db.Refiled (db.store s) := by
  have hmem := get_mem hd
  have hsteady : Steady (db.session d) s := .of_edits hedits
  have hid : s.run.id = id := (congrArg RunOrigin.id hsteady.1).trans (getRun_id hd)
  obtain ⟨hs, hre⟩ := (h.runs d hmem).edits hedits
  -- a request of the written run is one it had, or is newer than those of all runs
  have hne : ∀ e ∈ db.runs, e.id ≠ s.toRunData.id → ∀ r ∈ e.requests, ∀ r' ∈ s.requests,
      r.id ≠ r'.id := by
    intro e he hside r hr r' hr' heq
    rcases hre.fresh r' hr' with ⟨r₀, hr₀, hr₀id⟩ | hnew
    · refine hside ((h.owner e he d hmem r hr r₀ hr₀ (heq.trans hr₀id.symm)).trans ?_)
      exact (getRun_id hd).trans hid.symm
    · exact absurd (heq ▸ (h.runs e he).lt r hr) (not_lt.2 hnew)
  refine ⟨⟨(SameRuns.store h.numbered hd hsteady).numbered h.numbered, fun e he => ?_, ?_⟩, ?_⟩
  · rcases mem_put he with rfl | ⟨he, -⟩
    · exact hs
    · have hkept : Crewquarters.Filed ((db.store s).session e) ∧ _ :=
        (h.runs e he).congr rfl hre.nextUuid
      exact hkept.1
  · intro e he e' he' r hr r' hr' heq
    rcases mem_put he with rfl | ⟨he, hside⟩ <;>
      rcases mem_put he' with rfl | ⟨he', hside'⟩
    · rfl
    · exact absurd heq.symm (hne e' he' hside' r' hr' r hr)
    · exact absurd heq (hne e he hside r hr r' hr')
    · exact h.owner e he e' he' r hr r' hr' heq
  · intro id' key r hr
    obtain ⟨e, he, hr⟩ := request_eq_some.1 hr
    by_cases hside : id = id'
    · subst hside
      obtain rfl := some.inj (hd.symm.trans he)
      obtain ⟨r', hr', hrev⟩ := hre.revised r (get_mem hr)
      refine ⟨r', request_eq_some.2 ⟨s.toRunData, hid ▸ getRun_store (hid.symm ▸ hd), ?_⟩, hrev⟩
      rw [← get_key hr, ← hrev.key]
      exact get_of_mem hs.keys hr'
    · exact ⟨r, request_eq_some.2 ⟨e, (getRun_store_of_ne (hid ▸ hside)).trans he, hr⟩, .refl⟩

theorem edits (hedits : DbEdits G asks reports db db') : db'.Filed ∧ db.Refiled db' := by
  refine hedits.keeps (P := fun u => u.Filed ∧ db.Refiled u) (fun u v hstep hu => ?_) ⟨h, .refl⟩
  cases hstep with
  | jobs =>
    refine ⟨⟨⟨hu.1.numbered.nodup, hu.1.numbered.lt⟩, fun d hd => ?_, hu.1.owner⟩, hu.2⟩
    exact ⟨(hu.1.runs d hd).ids, (hu.1.runs d hd).keys, (hu.1.runs d hd).lt⟩
  | store row edits => exact ⟨(hu.1.store row edits).1, hu.2.trans (hu.1.store row edits).2⟩

theorem add {now : Time} {jobs : JobTable} (hnew : d.Created db.nextUuid now) :
    Filed ⟨db.runs ++ [d], jobs, db.nextUuid + 1⟩
    ∧ db.Refiled ⟨db.runs ++ [d], jobs, db.nextUuid + 1⟩ := by
  have hmem : ∀ e ∈ db.runs ++ [d], e ∈ db.runs ∨ e = d :=
    fun e he => (mem_append.1 he).imp_right mem_singleton.1
  refine ⟨⟨?_, fun e he => ?_, fun e he e' he' r hr r' hr' heq => ?_⟩, fun id key r hr => ?_⟩
  · exact h.numbered.add (map_append ..) hnew.id_eq rfl
  · rcases hmem e he with he | rfl
    · have hkept : Crewquarters.Filed (session e ⟨db.runs ++ [d], jobs, db.nextUuid + 1⟩) ∧ _ :=
        (h.runs e he).congr rfl (Nat.le_succ _)
      exact hkept.1
    · simp only [session]
      exact ⟨by simp [hnew.requests], by simp [hnew.requests], by simp [hnew.requests]⟩
  · rcases hmem e he with he | rfl
    · rcases hmem e' he' with he' | rfl
      · exact h.owner e he e' he' r hr r' hr' heq
      · rw [hnew.requests] at hr'
        cases hr'
    · rw [hnew.requests] at hr
      cases hr
  · obtain ⟨e, he, hr⟩ := request_eq_some.1 hr
    refine ⟨r, request_eq_some.2 ⟨e, (get_append ..).trans ?_, hr⟩, .refl⟩
    rw [show Table.get RunData.id id db.runs = some e from he]
    rfl

theorem exec {op : DbOp} (hexec : op.exec G clk db = .ok db') : db'.Filed ∧ db.Refiled db' := by
  obtain hedits | ⟨installation, version, trigger, user, schedule, scheduledFor, parent, key, input,
    -, rfl⟩ := DbOp.edits hexec
  · exact h.edits hedits
  · obtain hnone | ⟨d, jobs, hnew, hadd⟩ := insertRun_adds clk installation version trigger user
      schedule scheduledFor parent key input db
    · rw [hnone]
      exact ⟨h, .refl⟩
    · rw [hadd]
      exact h.add hnew

theorem run {ops : List (Clock × DbOp)} (hrun : (dbMachine G).run ops db = some db') :
    db'.Filed ∧ db.Refiled db' := by
  refine Machine.run_keeps (I := fun u => u.Filed ∧ db.Refiled u) (fun a u v hu hstep => ?_) ops
    ⟨h, .refl⟩ hrun
  obtain rfl := some.inj hstep
  unfold commit
  split
  · have hv := hu.1.exec ‹_›
    exact ⟨hv.1, hu.2.trans hv.2⟩
  · exact hu

end

end Filed

end Db

/-- The transaction gives an answer to a request: the owner's form, or the call it makes. -/
inductive DbOp.Answers (requestId version : ℕ) (value : Json) (user : UserId) : DbOp → Prop where
  | form : Answers requestId version value user (.client (.answer requestId version value user))
  | call {id} :
      Answers requestId version value user
        (.client (.call id (.answer requestId version value user)))

/-- The request `r` of run `id` takes the answer: it is open in the version the owner saw, its time
is not up and the value fits its schema. -/
structure TakesAnswer (G : Guards) (now : Time) (requestId version : ℕ) (value : Json) (id : RunId)
    (r : InputRequest) (db : Db) : Prop where
  row : db.request id r.key = some r
  id_eq : r.id = requestId
  pending : r.state = .pending
  version_eq : r.version = version
  inTime : now < r.deadline
  valid : G.valueErrors r.schema value = []

section Answering

variable {db db' : Db} {op : DbOp} {requestId version : ℕ} {value : Json} {user : UserId}

theorem Db.Filed.answered_onRun {id : RunId} (h : db.Filed)
    (hexec : db.onRun id (fun s => raising
      ((RunCall.answer requestId version value user).exec G clk s)) = .ok db') :
    ∃ r, TakesAnswer G (clk 0) requestId version value id r db
      ∧ db'.request id r.key = some (r.answeredWith value user (clk 1)) := by
  obtain ⟨d, s, hd, hs, rfl⟩ := Db.onRun_eq_ok hexec
  have hedits := RunCall.edits (raising_eq_ok.1 hs)
  have hid : s.run.id = id :=
    (congrArg RunOrigin.id (Steady.of_edits hedits).1).trans (Db.getRun_id hd)
  obtain ⟨a, hs⟩ := dropResult_eq_ok.1 (raising_eq_ok.1 hs)
  obtain ⟨r, hr, hpending, hversion, htime, hvalid, rfl, hs⟩ := answer_spec hs
  have hmem : r ∈ d.requests := get_mem hr
  refine ⟨r, ⟨h.request_of_mem hd hmem, get_key hr, hpending, hversion, htime, hvalid⟩, ?_⟩
  have hput : r.answeredWith value user (clk 1) ∈ s.requests := by
    rw [hs, resumed_requests]
    exact mem_put_self hmem rfl
  exact (h.store hd hedits).1.request_of_mem (hid ▸ Db.getRun_store (hid.symm ▸ hd)) hput

theorem Db.Filed.answered (h : db.Filed) (hop : op.Answers requestId version value user)
    (hexec : op.exec G clk db = .ok db') :
    ∃ id r, TakesAnswer G (clk 0) requestId version value id r db
      ∧ db'.request id r.key = some (r.answeredWith value user (clk 1)) := by
  cases hop with
  | form =>
    simp only [DbOp.exec, ClientOp.exec] at hexec
    split at hexec
    · cases hexec
    · exact ⟨_, h.answered_onRun hexec⟩
  | call => exact ⟨_, h.answered_onRun hexec⟩

theorem Db.Filed.not_answered (h : db.Filed) (hop : op.Answers requestId version value user)
    {id : RunId} (hr : db.request id key = some r) (hid : r.id = requestId)
    (hans : r.state = .answered) : op.exec G clk db ≠ .ok db' := by
  intro hexec
  obtain ⟨id', r', htakes, -⟩ := h.answered hop hexec
  obtain ⟨d', hd', hr'⟩ := Db.request_eq_some.1 htakes.row
  have heq : r' = r := h.request_unique hr hd' (get_mem hr') (hid.trans htakes.id_eq.symm)
  have hpending := htakes.pending
  rw [heq, hans] at hpending
  cases hpending

end Answering

/-- What `ask` requires of the run. -/
structure AdmitsAsk (n : ℕ) (run : AgentRun) : Prop where
  attempt : n = run.currentAttempt
  permitted : ((run.permissionsSnapshot.get? "userInput").getD .null).truthy = true
  state : run.state = .running ∨ run.state = .waitingInput

section Asking

variable {n : ℕ} {key title prompt : String} {schema : Json} {timeout : ℤ} {preview : Option Json}
  {r r' : InputRequest}

theorem ask_of_answered (hr : Table.get InputRequest.key key s.requests = some r)
    (hans : r.state = .answered) (hadmits : AdmitsAsk n s.run) :
    ask G clk n key title prompt schema timeout preview s = .ok (r, s) := by
  have hstate : ¬ (s.run.state ≠ .running ∧ s.run.state ≠ .waitingInput) := by
    rintro ⟨hrunning, hwaiting⟩
    exact hadmits.state.elim hrunning hwaiting
  have hattempt : requireAttempt n s = .ok () := requireAttempt_eq_ok.2 hadmits.attempt
  simp only [ask, hattempt, hadmits.permitted, hr, hans]
  simp [bind, Except.bind, hstate]

theorem eq_of_ask_answered (hr : Table.get InputRequest.key key s.requests = some r)
    (hans : r.state = .answered)
    (h : ask G clk n key title prompt schema timeout preview s = .ok (r', t)) : r' = r ∧ t = s := by
  cases (ask_asked h).2.2 with
  | closed row => exact ⟨some.inj (row.symm.trans hr), rfl⟩
  | waiting row pending =>
    obtain rfl := some.inj (row.symm.trans hr)
    rw [hans] at pending
    cases pending
  | reopened row closed =>
    obtain rfl := some.inj (row.symm.trans hr)
    rw [hans] at closed
    rcases closed with closed | closed <;> cases closed
  | new row =>
    rw [hr] at row
    cases row

end Asking

/-- In every state transactions reach: a run has one request a key; whatever follows, the request
of a key is as it was, or it had no answer and has a higher version; an answer succeeds only on an
open request of the stated version, in time and with a value that fits, and then no other answer to
that request ever does; and a question that was answered is read back, with nothing changed,
whenever the run takes a question. -/
theorem answers_kept {ops : List (Clock × DbOp)} {db : Db}
    (h : (dbMachine G).run ops Db.empty = some db) :
    (∀ d ∈ db.runs, (d.requests.map InputRequest.key).Nodup)
    ∧ (∀ (id : RunId) (key : String) (r : InputRequest), db.request id key = some r →
      ∀ (later : List (Clock × DbOp)) (db' : Db), (dbMachine G).run later db = some db' →
      ∃ r', db'.request id key = some r' ∧ (r' = r ∨ r.state ≠ .answered ∧ r.version < r'.version))
    ∧ (∀ (clk : Clock) (op : DbOp) (requestId version : ℕ) (value : Json) (user : UserId)
        (db' : Db),
      op.Answers requestId version value user → op.exec G clk db = .ok db' →
      (∃ id r, TakesAnswer G (clk 0) requestId version value id r db
        ∧ db'.request id r.key = some (r.answeredWith value user (clk 1)))
      ∧ ∀ (later : List (Clock × DbOp)) (db'' : Db), (dbMachine G).run later db' = some db'' →
        ∀ (clk : Clock) (op : DbOp) (version : ℕ) (value : Json) (user : UserId) (db₃ : Db),
        op.Answers requestId version value user → op.exec G clk db'' ≠ .ok db₃)
    ∧ ∀ (id : RunId) (d : RunData) (key : String) (r : InputRequest), db.getRun id = some d →
      Table.get InputRequest.key key d.requests = some r → r.state = .answered →
      ∀ (clk : Clock) (n : ℕ) (title prompt : String) (schema : Json) (timeout : ℤ)
        (preview : Option Json),
      (AdmitsAsk n d.run →
        ask G clk n key title prompt schema timeout preview (db.session d) = .ok (r, db.session d))
      ∧ ∀ r' t, ask G clk n key title prompt schema timeout preview (db.session d) = .ok (r', t) →
        r' = r ∧ t = db.session d := by
  have hfiled : db.Filed := (Db.Filed.empty.run h).1
  refine ⟨fun d hd => (hfiled.runs d hd).keys, ?_, ?_, ?_⟩
  · intro id key r hr later db' hlater
    obtain ⟨r', hr', hrev⟩ := (hfiled.run hlater).2 id key r hr
    exact ⟨r', hr', hrev.kept⟩
  · intro clk op requestId version value user db' hop hexec
    obtain ⟨id, r, htakes, hr⟩ := hfiled.answered hop hexec
    refine ⟨⟨id, r, htakes, hr⟩, ?_⟩
    intro later db'' hlater clk' op' version' value' user' db₃ hop'
    have hfiled' := (hfiled.exec hexec).1
    obtain ⟨r', hr', hrev⟩ := (hfiled'.run hlater).2 _ _ _ hr
    obtain rfl := hrev.eq_of_answered rfl
    exact (hfiled'.run hlater).1.not_answered hop' hr' htakes.id_eq rfl
  · intro id d key r hd hr hans clk n title prompt schema timeout preview
    exact ⟨fun hadmits => ask_of_answered (s := db.session d) hr hans hadmits,
      fun r' t hask => eq_of_ask_answered (s := db.session d) hr hans hask⟩

/-- The owner answers, and no form they still hold is taken after that. -/
theorem answers_kept_once : ∃ db db',
    (dbMachine plainGuards).run askedOps Db.empty = some db
    ∧ DbOp.exec plainGuards (fun _ => 0) (.client (.answer 2 1 (.bool true) 7)) db = .ok db'
    ∧ (∃ (id : RunId) (r : InputRequest), r.id = 2 ∧ r.version = 1
      ∧ db'.request id r.key = some (r.answeredWith (.bool true) 7 0))
    ∧ ∀ (later : List (Clock × DbOp)) (db'' : Db),
      (dbMachine plainGuards).run later db' = some db'' →
      ∀ (clk : Clock) (version : ℕ) (value : Json) (user : UserId) (db₃ : Db),
      DbOp.exec plainGuards clk (.client (.answer 2 version value user)) db'' ≠ .ok db₃ := by
  obtain ⟨db, h, hok⟩ : ∃ db, (dbMachine plainGuards).run askedOps Db.empty = some db
      ∧ (DbOp.exec plainGuards (fun _ => 0) (.client (.answer 2 1 (.bool true) 7)) db).isOk :=
    ⟨_, rfl, by decide +kernel⟩
  cases hanswer : DbOp.exec plainGuards (fun _ => 0) (.client (.answer 2 1 (.bool true) 7)) db with
  | error =>
    rw [hanswer] at hok
    cases hok
  | ok db' =>
    obtain ⟨⟨id, r, htakes, hr⟩, honce⟩ := (answers_kept h).2.2.1 _ _ _ _ _ _ _ .form hanswer
    refine ⟨db, db', h, hanswer, ⟨id, r, htakes.id_eq, htakes.version_eq, hr⟩, ?_⟩
    exact fun later db'' hlater clk version value user db₃ =>
      honce later db'' hlater clk _ version value user db₃ .form

end Crewquarters
