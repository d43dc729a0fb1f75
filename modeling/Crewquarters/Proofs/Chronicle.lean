import Crewquarters.Proofs.Commits
import Crewquarters.Proofs.Origins

/-!
# The chronicle of a run

The journal of a run along a sequence of transactions, from its creation on (`Chronicle`). Every
sequence has one. What a transaction writes of a run has the times of one clock and in their order:
the reconciler has a clock for every dead job and every run, but after it has failed a run it writes
nothing more of it (`Reconciles`).
-/

namespace Crewquarters

open List Option Table

variable {G : Guards} {clk : Clock} {op : DbOp} {id : RunId} {s t : Session} {db db' : Db}
  {d d' d'' : RunData}

/-- Nothing that has a time was written, or the run, which was not over, was written with one of the
clocks and is over now; if it is not, only the first reading of the clock was used. -/
def Reconciles (clocks : Set Clock) (again : Prop) (d d' : RunData) : Prop :=
  (d'.run.state = d.run.state ∧ ∀ c i, Wrote c False i i d d')
    ∨ d.run.state ∉ RunState.terminalStates ∧ ∃ c ∈ clocks, ∃ n, Wrote c False 0 n d d'
      ∧ (d'.run.state ∈ RunState.terminalStates ∨ again ∧ n ≤ 1)

namespace Reconciles

variable {clocks : Set Clock} {again : Prop}

theorem refl : Reconciles clocks again d d := .inl ⟨rfl, fun _ _ => .refl⟩

theorem trans (hsub : again → clocks.Subsingleton) (h : Reconciles clocks again d d')
    (h' : Reconciles clocks again d' d'') : Reconciles clocks again d d'' := by
  obtain ⟨hstate, hquiet⟩ | ⟨hopen, c, hc, n, hwrote, hend⟩ := h
  · obtain ⟨hstate', hquiet'⟩ | ⟨hopen, c, hc, n, hwrote, hend⟩ := h'
    · exact .inl ⟨hstate'.trans hstate, fun c i => (hquiet c i).trans (hquiet' c i)⟩
    · exact .inr ⟨hstate ▸ hopen, c, hc, n, (hquiet c 0).trans hwrote, hend⟩
  · obtain ⟨hstate', hquiet'⟩ | ⟨hopen', c', hc', n', hwrote', hend'⟩ := h'
    · exact .inr ⟨hopen, c, hc, n, hwrote.trans (hquiet' c n), hstate' ▸ hend⟩
    · obtain ⟨hagain, hn⟩ := hend.resolve_left hopen'
      obtain rfl := hsub hagain hc hc'
      refine .inr ⟨hopen, c, hc, max n n', hwrote.again hn hwrote', ?_⟩
      exact hend'.imp_right fun ⟨_, hn'⟩ => ⟨hagain, max_le hn hn'⟩

theorem fail {c : Clock} {code message : String} {retryable interrupted : Bool}
    {details : List (String × Json)} {k : ℕ} (hc : c ∈ clocks)
    (h : failRun (fun i => c (i + k)) code message retryable interrupted details s = .ok t) :
    Reconciles clocks again s.toRunData t.toRunData := by
  have hwrote : Wrote c False 0 (1 + k) s.toRunData t.toRunData := .failAfter h
  rcases failRun_cases h with rfl | ⟨hw, rfl⟩
  · exact refl
  · refine .inr ⟨not_terminal hw, c, hc, 1 + k, hwrote, .inl ?_⟩
    cases interrupted <;> simp [failedRun, RunState.terminalStates]

theorem deadJob {c : Clock} {type : JobType} {payload : JobPayload} (hc : c ∈ clocks)
    (h : onDeadJob c type payload s = .ok t) : Reconciles clocks again s.toRunData t.toRunData := by
  obtain ⟨n, hwrote⟩ := WorkerCall.wrote (c := .onDeadJob type payload) (raising_eq_ok.2 h)
  obtain ⟨rfl, -⟩ | ⟨-, hs, rfl⟩ | ⟨-, hs, rfl⟩ := onDeadJob_cases h
  · exact refl
  · refine .inr ⟨?_, c, hc, n, hwrote, .inl ?_⟩
    · rcases hs with hs | hs <;> rw [hs] <;> decide
    · simp [failedRun, RunState.terminalStates]
  · refine .inr ⟨?_, c, hc, n, hwrote, .inl ?_⟩
    · rw [hs]
      decide
    · simp [RunState.terminalStates]

theorem watch {c : Clock} {now : Time} (h : watch c now s = .ok t) :
    Reconciles {c} True s.toRunData t.toRunData := by
  rcases watch_cases h with rfl | ⟨k, code, message, retryable, interrupted, hf⟩ | ⟨n, he⟩
  · exact refl
  · exact fail rfl hf
  · obtain ⟨rfl, -⟩ | ⟨-, -, rfl⟩ := expireInputs_cases he
    · exact refl
    · have hclosed := foldl_closeRequest_frame .expired
        ((pendingRequests s).filter fun r => r.deadline ≤ now) s
      unfold resumed
      split_ifs with hw
      · refine .inr ⟨?_, c, rfl, 1, ?_, .inr ⟨trivial, le_rfl⟩⟩
        · rw [← hclosed.1, hw.1]
          decide
        · exact (Wrote.closeRequests .expired _ s).trans (.move (by rw [hw.1]; rfl) (by decide))
      · exact .inl ⟨by rw [hclosed.1], fun c i => .closeRequests .expired _ s⟩

end Reconciles

theorem WorkerCall.minted_eq_none {c : WorkerCall} (h : ∀ t, c.exec clk s ≠ .ok t) :
    c.minted clk s = none := by
  cases c with
  | dispatchPrepare settings catalog n =>
    simp only [WorkerCall.minted]
    split
    · rename_i spec t hspec
      exact absurd (dropResult_eq_ok.2 ⟨_, hspec⟩) (h t)
    · rfl
  | beginAttempt => rfl
  | dispatchRecord => rfl
  | cancelFinish => rfl
  | onDeadJob => rfl

theorem DbOp.exists_clock (clk : Clock) (op : DbOp) (id : RunId) : ∃ c, c ∈ op.clocks clk := by
  cases op with
  | client | worker => exact ⟨clk, rfl⟩
  | tick times => exact ⟨times.watch id, .inr ⟨id, rfl⟩⟩

theorem Journaled.refl (h : op.minted clk id s = none) : Journaled clk op id s s.toRunData [] := by
  obtain ⟨c, hc⟩ := op.exists_clock clk id
  rw [Journaled, h]
  exact ⟨⟨rfl, (append_nil _).symm, rfl⟩, c, hc, 0, .nil le_rfl⟩

theorem Reconciles.journaled {times : TickClock} {locked : List RunId}
    (h : Reconciles (Set.range times.dead) False s.toRunData d)
    (h' : Reconciles {times.watch id} True d d') :
    ∃ entries, Journaled clk (.tick times locked) id s d' entries := by
  obtain ⟨-, hquiet⟩ | ⟨-, c, hc, n, hwrote, hend⟩ := h
  · obtain ⟨-, hquiet'⟩ | ⟨-, c, rfl, n, hwrote, -⟩ := h'
    · obtain ⟨es, hes, hwritten⟩ := (hquiet (times.watch id) 0).trans (hquiet' _ 0)
      exact ⟨es, hes, times.watch id, .inr ⟨id, rfl⟩, 0, hwritten.mono False.elim⟩
    · obtain ⟨es, hes, hwritten⟩ := (hquiet _ 0).trans hwrote
      exact ⟨es, hes, times.watch id, .inr ⟨id, rfl⟩, n, hwritten.mono False.elim⟩
  · obtain ⟨-, hquiet'⟩ | ⟨hopen, -⟩ := h'
    · obtain ⟨es, hes, hwritten⟩ := hwrote.trans (hquiet' c n)
      exact ⟨es, hes, c, .inl hc, n, hwritten.mono False.elim⟩
    · exact absurd (hend.resolve_right fun h => h.1) hopen

namespace Db

theorem onRun_of_ok {f : Session → Except JobError Session} (hd : db.getRun id = some d)
    (hf : f (db.session d) = .ok t) : db.onRun id f = .ok (db.store t) := by
  simp only [onRun, withRun, hd, hf]
  rfl

theorem exec_journaled (hd : db.getRun id = some d) (h : op.exec G clk db = .ok db') :
    db'.Fact id fun d' => ∃ entries, Journaled clk op id (db.session d) d' entries := by
  let R : RunData → RunData → Prop := fun _ d' => ∃ es, Journaled clk op id (db.session d) d' es
  have hkept : op.minted clk id (db.session d) = none → R d d := fun h => ⟨[], .refl h⟩
  cases op with
  | client op =>
    cases op with
    | createRun =>
      have hsame : db'.Fact id fun d' => d' = d :=
        exec_relates (R := fun d d' => d' = d) (true_invariant G) (fun _ _ _ h h' => h'.trans h)
          (fun _ => rfl) (fun _ _ hp _ => by cases hp) (fun _ _ => trivial) hd h
      refine hsame.mono fun d' hd' => ?_
      subst hd'
      exact hkept rfl
    | call =>
      refine onRun_relates (R := R) (fun hs => .call (raising_eq_ok.1 hs)) hd (fun _ => hkept rfl)
        (fun hr t hs => ?_) h
      subst hr
      exact (Performs.call (raising_eq_ok.1 hs)).writes
    | answer =>
      simp only [DbOp.exec, ClientOp.exec] at h
      split at h
      · cases h
      · refine onRun_relates (R := R) (fun hs => .answer (raising_eq_ok.1 hs)) hd
          (fun _ => hkept rfl) (fun hr t hs => ?_) h
        exact (Performs.answer (raising_eq_ok.1 hs)).writes
  | worker =>
    refine onRun_relates (G := G) (R := R) .worker hd (fun hr => hkept (if_neg hr))
      (fun hr t hs => ?_) h
    subst hr
    exact (Performs.worker (G := G) hs).writes
  | tick times =>
    obtain ⟨v, hv, h⟩ := bind_eq_ok.1 h
    obtain ⟨hall, d₁, hd₁, hsettled⟩ :=
      Fact.settle (R := Reconciles (Set.range times.dead) False) (true_invariant G)
        (fun _ _ _ => .trans False.elim) (fun _ _ job hs _ => .deadJob ⟨job.id, rfl⟩ hs) hv
        (fun _ _ => trivial) ⟨d, hd, .refl⟩
    obtain ⟨-, d₂, hd₂, hwatched⟩ :=
      Fact.watch (R := Reconciles {times.watch id} True) (true_invariant G)
        (fun _ _ _ => .trans fun _ => Set.subsingleton_singleton) (fun _ _ hs _ => .watch hs) h hall
        ⟨d₁, hd₁, .refl⟩
    exact ⟨d₂, hd₂, hsettled.journaled hwatched⟩

theorem commit_journaled (hd : db.getRun id = some d) :
    (db.commit G clk op).Fact id fun d' =>
      ∃ entries, Journaled clk op id (db.session d) d' entries := by
  unfold commit
  split
  · exact exec_journaled hd ‹_›
  · rename_i err herr
    refine ⟨d, hd, [], .refl ?_⟩
    cases op with
    | client => rfl
    | tick => rfl
    | worker r c =>
      simp only [DbOp.minted]
      split_ifs with hr
      · subst hr
        refine WorkerCall.minted_eq_none fun t ht => ?_
        rw [show DbOp.exec G clk (.worker r c) db = .ok _ from onRun_of_ok hd ht] at herr
        cases herr
      · rfl

end Db

/-- What a transaction adds to the journal of a run. -/
inductive Records (G : Guards) (clk : Clock) (op : DbOp) (id : RunId) (db : Db) :
    List JournalEntry → Prop where
  | absent (after : (db.commit G clk op).getRun id = none) : Records G clk op id db []
  | create {d : RunData} (before : db.getRun id = none)
      (after : (db.commit G clk op).getRun id = some d) : Records G clk op id db [.create d.run]
  | write {d d' entries} (before : db.getRun id = some d)
      (after : (db.commit G clk op).getRun id = some d')
      (journaled : Journaled clk op id (db.session d) d' entries) : Records G clk op id db entries

/-- The chronicle of run `id` along transactions that start in `db`. -/
inductive Chronicle (G : Guards) (id : RunId) :
    List (Clock × DbOp) → Db → List JournalEntry → Prop where
  | nil {db : Db} : Chronicle G id [] db []
  | cons {clk op ops db entries later} (records : Records G clk op id db entries)
      (rest : Chronicle G id ops (db.commit G clk op) later) :
      Chronicle G id ((clk, op) :: ops) db (entries ++ later)

theorem Db.commit_records (G : Guards) (clk : Clock) (op : DbOp) (id : RunId) (db : Db) :
    ∃ entries, Records G clk op id db entries := by
  cases hd : db.getRun id with
  | none =>
    cases hd' : (db.commit G clk op).getRun id with
    | none => exact ⟨[], .absent hd'⟩
    | some => exact ⟨_, .create hd hd'⟩
  | some d =>
    obtain ⟨d', hd', es, hes⟩ : (db.commit G clk op).Fact id fun d' =>
      ∃ entries, Journaled clk op id (db.session d) d' entries := Db.commit_journaled hd
    exact ⟨es, .write hd hd' hes⟩

theorem exists_chronicle (G : Guards) (id : RunId) :
    ∀ (ops : List (Clock × DbOp)) (db : Db), ∃ entries, Chronicle G id ops db entries
  | [], _ => ⟨[], .nil⟩
  | (clk, op) :: ops, db => by
    obtain ⟨es, hes⟩ := db.commit_records G clk op id
    obtain ⟨later, hlater⟩ := exists_chronicle G id ops (db.commit G clk op)
    exact ⟨es ++ later, .cons hes hlater⟩

namespace Db

theorem SameRuns.getRun_eq_none (h : db.SameRuns db') (hd : db.getRun id = none) :
    db'.getRun id = none := by
  have hids : ∀ db : Db, db.runs.map RunData.id = db.origins.map RunOrigin.id := fun db => by
    rw [Db.origins, List.map_map]
    rfl
  have hsame : db'.runs.map RunData.id = db.runs.map RunData.id := by
    rw [hids, hids, h.origins]
  rw [← not_isSome_iff_eq_none] at hd ⊢
  exact fun hsome => hd (isSome_get.2 (hsame ▸ isSome_get.1 hsome))

theorem commit_numbered (hn : db.Numbered) : (db.commit G clk op).Numbered := by
  unfold commit
  split
  · rename_i db' hexec
    obtain hsame | ⟨installation, version, trigger, user, schedule, scheduledFor, parent, key,
      input, -, rfl⟩ := DbOp.origins hn hexec
    · exact hsame.numbered hn
    · obtain ⟨d, -, hcreated⟩ | ⟨-, -, horigins, hnext⟩ := insertRun_cases clk installation version
        trigger user schedule scheduledFor parent key input db
      · rw [hcreated]
        exact hn
      · exact hn.add horigins rfl hnext
  · exact hn

theorem commit_new (hn : db.Numbered) (hd : db.getRun id = none)
    (hd' : (db.commit G clk op).getRun id = some d) :
    clk ∈ op.clocks clk ∧ d.Created id (clk 0) := by
  unfold commit at hd'
  split at hd'
  · rename_i db' hexec
    obtain hsame | ⟨installation, version, trigger, user, schedule, scheduledFor, parent, key,
      input, rfl, rfl⟩ := DbOp.origins hn hexec
    · rw [hsame.getRun_eq_none hd] at hd'
      cases hd'
    · obtain hnone | ⟨e, jobs, hnew, hadd⟩ := insertRun_adds clk installation version trigger user
        schedule scheduledFor parent key input db
      · rw [hnone, hd] at hd'
        cases hd'
      · rw [hadd] at hd'
        simp only [getRun] at hd hd'
        rw [get_append, hd, none_or, get_cons] at hd'
        split_ifs at hd' with hid
        · obtain rfl := some.inj hd'
          exact ⟨rfl, { hnew with id_eq := hid }⟩
        · cases hd'
  · rw [hd] at hd'
    cases hd'

section All

variable {I P : RunData → Prop} {ok : Clock → DbOp → Prop} (hI : RunInvariant G I)
  (hnew : ∀ d : RunData, d.run.state = .queued → P d)
  (hstep : ∀ ⦃clk op id s t⦄, ok clk op → Performs G clk op id s t → I s.toRunData →
    P s.toRunData → P t.toRunData)

include hI hnew hstep

theorem commit_all (hn : db.Numbered) (hok : ok clk op) (hdb : db.All I) (hP : db.All P) :
    (db.commit G clk op).All P := by
  intro d hd
  have hget : (db.commit G clk op).getRun d.id = some d :=
    get_of_mem (commit_numbered hn).ids hd
  cases hbefore : db.getRun d.id with
  | none => exact hnew d (commit_new hn hbefore hget).2.state
  | some d₀ =>
    have hfact : (db.commit G clk op).Fact d.id fun d' => P d₀ → P d' :=
      commit_relates hI (R := fun d d' => P d → P d') (fun _ _ _ h h' hd => h' (h hd))
        (fun _ h => h) (fun _ _ hp hs => hstep hok hp hs) hdb hbefore
    exact hfact.get hget (hP d₀ (get_mem hbefore))

theorem run_all : ∀ (ops : List (Clock × DbOp)) {db db' : Db}, db.Numbered → db.All I → db.All P →
    (∀ a ∈ ops, ok a.1 a.2) → (dbMachine G).run ops db = some db' → db'.All P
  | [], _, _, _, _, hP, _, h => some.inj h ▸ hP
  | a :: ops, _, _, hn, hdb, hP, hok, h => by
    obtain ⟨u, hu, h⟩ := Machine.run_cons.1 h
    obtain rfl := some.inj hu
    exact run_all ops (commit_numbered hn) (hI.commit hdb)
      (commit_all hI hnew hstep hn (hok a (by simp)) hdb hP)
      (fun b hb => hok b (mem_cons_of_mem _ hb)) h

end All

theorem numbered_empty : Db.empty.Numbered :=
  ⟨by simp [origins, empty], by simp [origins, empty]⟩

theorem Numbered.run {ops : List (Clock × DbOp)} (hn : db.Numbered)
    (h : (dbMachine G).run ops db = some db') : db'.Numbered := by
  refine Machine.run_keeps (I := Db.Numbered) (fun a u v hu hstep => ?_) ops hn h
  exact some.inj hstep ▸ commit_numbered hu

theorem run_numbered {ops : List (Clock × DbOp)} (h : (dbMachine G).run ops Db.empty = some db) :
    db.Numbered :=
  numbered_empty.run h

end Db

/-- The clock does not go back, neither in a transaction nor from one to the next. -/
def Forward (ops : List (Clock × DbOp)) : Prop :=
  (∀ a ∈ ops, ∀ c ∈ a.2.clocks a.1, Monotone c)
    ∧ ops.Pairwise fun a b => ∀ c ∈ a.2.clocks a.1, ∀ c' ∈ b.2.clocks b.1, ∀ i j, c i ≤ c' j

section Times

variable {es : List JournalEntry}

theorem Records.mem_clocks (hn : db.Numbered) (h : Records G clk op id db es) {now : Time}
    (hnow : now ∈ es.filterMap JournalEntry.time) : ∃ c ∈ op.clocks clk, ∃ i, now = c i := by
  cases h with
  | absent => cases hnow
  | create before after =>
    obtain ⟨hmem, hnew⟩ := Db.commit_new hn before after
    exact ⟨clk, hmem, 0, (mem_singleton.1 hnow).trans hnew.entered⟩
  | write before after journaled =>
    obtain ⟨-, c, hc, n, hwritten⟩ := journaled
    obtain ⟨i, rfl⟩ := hwritten.mem_range hnow
    exact ⟨c, hc, i, rfl⟩

theorem Records.inOrder (h : Records G clk op id db es)
    (hclk : ∀ c ∈ op.clocks clk, Monotone c) : InOrder es := by
  cases h with
  | absent => exact .nil
  | create => exact pairwise_singleton ..
  | write before after journaled =>
    obtain ⟨-, c, hc, n, hwritten⟩ := journaled
    exact hwritten.inOrder (hclk c hc)

variable {ops : List (Clock × DbOp)}

theorem Chronicle.mem_clocks (h : Chronicle G id ops db es) (hn : db.Numbered) {now : Time}
    (hnow : now ∈ es.filterMap JournalEntry.time) :
    ∃ a ∈ ops, ∃ c ∈ a.2.clocks a.1, ∃ i, now = c i := by
  induction h with
  | nil => cases hnow
  | cons records rest ih =>
    rw [filterMap_append] at hnow
    rcases mem_append.1 hnow with hnow | hnow
    · obtain ⟨c, hc, i, hi⟩ := records.mem_clocks hn hnow
      exact ⟨_, mem_cons_self, c, hc, i, hi⟩
    · obtain ⟨a, ha, hrest⟩ := ih (Db.commit_numbered hn) hnow
      exact ⟨a, mem_cons_of_mem _ ha, hrest⟩

theorem Chronicle.inOrder (h : Chronicle G id ops db es) (hn : db.Numbered)
    (hops : Forward ops) : InOrder es := by
  induction h with
  | nil => exact .nil
  | cons records rest ih =>
    obtain ⟨hclk, hpair⟩ := hops
    obtain ⟨hfirst, hlater⟩ := pairwise_cons.1 hpair
    refine inOrder_append.2 ⟨records.inOrder (hclk _ mem_cons_self),
      ih (Db.commit_numbered hn) ⟨fun a ha => hclk a (mem_cons_of_mem _ ha), hlater⟩,
      fun now hnow now' hnow' => ?_⟩
    obtain ⟨c, hc, i, rfl⟩ := records.mem_clocks hn hnow
    obtain ⟨b, hb, c', hc', j, rfl⟩ := rest.mem_clocks (Db.commit_numbered hn) hnow'
    exact hfirst b hb c hc c' hc' i j

end Times

end Crewquarters
