import Crewquarters.Proofs.Journal
import Crewquarters.Proofs.Sound

/-!
# What a transaction does to one run

A transaction makes operations on the runs it locks, one after the other, and of these the ones on a
given run are `Performs`. So what each operation does to its run, a committed transaction does to
it (`Db.commit_relates`), and any sequence of transactions (`Db.run_relates`).
-/

namespace Crewquarters

open Option

variable {G : Guards} {clk : Clock} {op : DbOp} {id : RunId} {s t : Session} {db db' : Db}
  {d : RunData} {I : RunData → Prop} {r : RunId}

/-- The call on a locked run that a transaction is. -/
inductive Performs (G : Guards) (clk : Clock) : DbOp → RunId → Session → Session → Prop where
  | call {id c s t} (exec : c.exec G clk s = .ok t) : Performs G clk (.client (.call id c)) id s t
  | answer {id requestId version value user s t}
      (exec : (RunCall.answer requestId version value user).exec G clk s = .ok t) :
      Performs G clk (.client (.answer requestId version value user)) id s t
  | worker {id c s t} (exec : c.exec clk s = .ok t) : Performs G clk (.worker id c) id s t
  | dead {id : RunId} {tick : TickClock} {locked : List RunId} {job : Job} {s t : Session}
      (exec : onDeadJob (tick.dead job.id) job.type job.payload s = .ok t) :
      Performs G clk (.tick tick locked) id s t
  | watch {id tick locked s t} (exec : watch (tick.watch id) tick.now s = .ok t) :
      Performs G clk (.tick tick locked) id s t

theorem RowStep.id_eq {run run' : AgentRun} {e : JournalEntry} (h : RowStep run e run') :
    run'.id = run.id := by
  cases h <;> simp [AgentRun.reset]

theorem Path.rowId : ∀ {entries : List JournalEntry} {run run' : AgentRun},
    Path RowStep run entries run' → run'.id = run.id
  | [], _, _, h => h ▸ rfl
  | _ :: _, _, _, ⟨_, hstep, hrest⟩ => (rowId hrest).trans hstep.id_eq

def DbOp.clocks (clk : Clock) : DbOp → Set Clock
  | .tick times _ => Set.range times.dead ∪ Set.range times.watch
  | _ => {clk}

def DbOp.minted (clk : Clock) (id : RunId) (s : Session) : DbOp → Option CapabilityClaims
  | .worker r c => if r = id then c.minted clk s else none
  | _ => none

/-- What a transaction writes of run `id`, which it finds as in `s`: the times are readings of one
of its clocks, and only the owner's retry begins an attempt. -/
def Journaled (clk : Clock) (op : DbOp) (id : RunId) (s : Session) (d' : RunData)
    (entries : List JournalEntry) : Prop :=
  Writes (op.minted clk id s).toList s.toRunData d' entries
    ∧ ∃ c ∈ op.clocks clk, ∃ n, Written c (op = .client (.call id .retry)) 0 n entries

theorem watch_wrote {now : Time} (h : watch clk now s = .ok t) :
    ∃ n, Wrote clk False 0 n s.toRunData t.toRunData := by
  rcases watch_cases h with rfl | ⟨k, code, message, retryable, interrupted, hf⟩ | ⟨n, he⟩
  · exact ⟨0, .refl⟩
  · exact ⟨1 + k, .failAfter hf⟩
  · obtain ⟨rfl, -⟩ | ⟨-, -, rfl⟩ := expireInputs_cases he
    · exact ⟨0, .refl⟩
    · exact ⟨1, (Wrote.closeRequests .expired _ s).trans (.resume 0)⟩

theorem Performs.writes (h : Performs G clk op id s t) :
    ∃ entries, Journaled clk op id s t.toRunData entries := by
  cases h with
  | call exec =>
    obtain ⟨n, es, hes, hwritten⟩ := RunCall.wrote exec
    exact ⟨es, hes, clk, rfl, n, hwritten.mono fun hc => by rw [hc]⟩
  | answer exec =>
    obtain ⟨n, es, hes, hwritten⟩ := RunCall.wrote exec
    exact ⟨es, hes, clk, rfl, n, hwritten.mono nofun⟩
  | worker exec =>
    obtain ⟨n, es, hes, hwritten⟩ := WorkerCall.wrote exec
    refine ⟨es, ?_, clk, rfl, n, hwritten.mono False.elim⟩
    rwa [DbOp.minted, if_pos rfl]
  | dead exec =>
    obtain ⟨n, es, hes, hwritten⟩ := WorkerCall.wrote (c := .onDeadJob _ _) (raising_eq_ok.2 exec)
    exact ⟨es, hes, _, .inl ⟨_, rfl⟩, n, hwritten.mono False.elim⟩
  | watch exec =>
    obtain ⟨n, es, hes, hwritten⟩ := watch_wrote exec
    exact ⟨es, hes, _, .inr ⟨_, rfl⟩, n, hwritten.mono False.elim⟩

theorem Performs.id_eq (h : Performs G clk op id s t) : t.run.id = s.run.id := by
  obtain ⟨es, hes, -⟩ := h.writes
  exact hes.path.rowId

theorem Performs.edits (h : Performs G clk op id s t) : Edits G op.asks op.reports s t := by
  cases h with
  | call exec | answer exec => exact RunCall.edits exec
  | worker exec => exact WorkerCall.edits exec
  | dead exec => exact .deadJob exec
  | watch exec => exact watch_edits exec

theorem Performs.keeps (hI : RunInvariant G I) (h : Performs G clk op id s t)
    (hs : I s.toRunData) : I t.toRunData := by
  cases h with
  | call exec | answer exec => exact hI.call exec hs
  | worker exec => exact hI.worker exec hs
  | dead exec => exact hI.worker (c := .onDeadJob _ _) (raising_eq_ok.2 exec) hs
  | watch exec => exact hI.watch exec hs

theorem true_invariant (G : Guards) : RunInvariant G fun _ => True :=
  ⟨fun _ _ _ _ _ _ _ _ _ _ _ _ _ => trivial, fun _ _ => trivial, fun _ _ => trivial⟩

namespace Db

variable {R : RunData → RunData → Prop}

theorem Fact.store {d₁ : RunData} {u : Session}
    (htrans : ∀ ⦃d d' d''⦄, R d d' → R d' d'' → R d d'') (h : db.Fact id (R d))
    (hd : db.getRun r = some d₁) (hu : u.run.id = d₁.run.id) (hR : r = id → R d₁ u.toRunData) :
    (db.store u).Fact id (R d) := by
  obtain ⟨d', hd', hrel⟩ := h
  have hur : u.run.id = r := hu.trans (getRun_id hd)
  by_cases hr : r = id
  · subst hr
    obtain rfl := some.inj (hd.symm.trans hd')
    refine ⟨u.toRunData, ?_, htrans hrel (hR rfl)⟩
    rw [← hur]
    exact getRun_store (hur ▸ hd)
  · exact ⟨d', (getRun_store_of_ne (hur ▸ hr)).trans hd', hrel⟩

section Relating

variable (hI : RunInvariant G I) (htrans : ∀ ⦃d d' d''⦄, R d d' → R d' d'' → R d d'')

include hI htrans

theorem Fact.perform {d₁ : RunData} {u : Session} (hdb : db.All I) (h : db.Fact id (R d))
    (hd : db.getRun r = some d₁) (hu : Performs G clk op r (db.session d₁) u)
    (hR : r = id → I (db.session d₁).toRunData → R d₁ u.toRunData) :
    (db.store u).All I ∧ (db.store u).Fact id (R d) := by
  have hd₁ : I (db.session d₁).toRunData := hdb d₁ (Table.get_mem hd)
  exact ⟨hdb.store (hu.keeps hI hd₁), h.store htrans hd hu.id_eq fun hr => hR hr hd₁⟩

theorem Fact.onRun {f : Session → Except JobError Session} (hdb : db.All I)
    (hf : ∀ {s t : Session}, f s = .ok t → Performs G clk op r s t)
    (hR : r = id → ∀ {s t : Session}, f s = .ok t → I s.toRunData → R s.toRunData t.toRunData)
    (h : db.Fact id (R d)) (ho : db.onRun r f = .ok db') : db'.All I ∧ db'.Fact id (R d) := by
  obtain ⟨d₁, u, hd, hu, rfl⟩ := onRun_eq_ok ho
  exact h.perform hI htrans hdb hd (hf hu) fun hr hd₁ => hR hr hu hd₁

variable {times : TickClock} {locked : List RunId}

theorem Fact.settle {jobs : List Job}
    (hR : ∀ ⦃s t : Session⦄ ⦃job : Job⦄,
      onDeadJob (times.dead job.id) job.type job.payload s = .ok t → I s.toRunData →
      R s.toRunData t.toRunData)
    (hjobs : jobs.foldlM (settleUnlocked times.dead locked) db = .ok db')
    (hdb : db.All I) (h : db.Fact id (R d)) : db'.All I ∧ db'.Fact id (R d) := by
  refine foldlM_keeps (P := fun b => b.All I ∧ b.Fact id (R d)) ?_ ⟨hdb, h⟩ hjobs
  rintro b job b' ⟨hall, hb⟩ hjob
  unfold settleUnlocked at hjob
  split at hjob
  · exact Except.ok.inj hjob ▸ ⟨hall, hb⟩
  · split at hjob
    · exact Except.ok.inj hjob ▸ ⟨hall, hb⟩
    · rename_i r _ _ d₁ hd₁
      obtain ⟨u, hu, hjob⟩ := bind_eq_ok.1 hjob
      have hp : Performs G (times.dead job.id) (.tick times locked) r (b.session d₁) u :=
        .dead (raising_eq_ok.1 hu)
      exact Except.ok.inj hjob ▸ hb.perform hI htrans hall hd₁ hp fun _ => hR (raising_eq_ok.1 hu)

theorem Fact.watch {runs : List RunId}
    (hR : ∀ ⦃s t : Session⦄, watch (times.watch id) times.now s = .ok t → I s.toRunData →
      R s.toRunData t.toRunData)
    (hruns : runs.foldlM (watchRun times.watch times.now) db = .ok db')
    (hdb : db.All I) (h : db.Fact id (R d)) : db'.All I ∧ db'.Fact id (R d) := by
  refine foldlM_keeps (P := fun b => b.All I ∧ b.Fact id (R d)) ?_ ⟨hdb, h⟩ hruns
  rintro b r b' ⟨hall, hb⟩ hr
  have hp : ∀ {s t : Session}, raising (Crewquarters.watch (times.watch r) times.now s) = .ok t →
      Performs G (times.watch r) (.tick times []) r s t := fun hs => .watch (raising_eq_ok.1 hs)
  refine hb.onRun hI htrans hall hp (fun hr s t hs => ?_) hr
  subst hr
  exact hR (raising_eq_ok.1 hs)

variable (hrefl : ∀ d, R d d)
  (hR : ∀ ⦃s t : Session⦄, Performs G clk op id s t → I s.toRunData → R s.toRunData t.toRunData)

include hrefl hR

theorem exec_relates (hdb : db.All I) (hd : db.getRun id = some d)
    (h : op.exec G clk db = .ok db') : db'.Fact id (R d) := by
  have hstart : db.Fact id (R d) := ⟨d, hd, hrefl d⟩
  cases op with
  | client op =>
    cases op with
    | createRun =>
      obtain rfl := exec_createRun (G := G) h
      refine ⟨d, ?_, hrefl d⟩
      unfold insertRun
      split
      · exact hd
      · refine (Table.get_append ..).trans ?_
        rw [show Table.get RunData.id id db.runs = some d from hd]
        rfl
    | call =>
      refine (hstart.onRun hI htrans hdb (fun hs => .call (raising_eq_ok.1 hs))
        (fun hr s t hs => ?_) h).2
      subst hr
      exact hR (.call (raising_eq_ok.1 hs))
    | answer =>
      simp only [DbOp.exec, ClientOp.exec] at h
      split at h
      · cases h
      · refine (hstart.onRun hI htrans hdb (fun hs => .answer (raising_eq_ok.1 hs))
          (fun hr s t hs => ?_) h).2
        subst hr
        exact hR (.answer (raising_eq_ok.1 hs))
  | worker =>
    refine (hstart.onRun hI htrans hdb .worker (fun hr s t hs => ?_) h).2
    subst hr
    exact hR (.worker hs)
  | tick =>
    obtain ⟨v, hv, h⟩ := bind_eq_ok.1 h
    obtain ⟨hall, hsettled⟩ := Fact.settle hI htrans (fun _ _ _ hs => hR (.dead hs)) hv hdb hstart
    exact (Fact.watch hI htrans (fun _ _ hs => hR (.watch hs)) h hall hsettled).2

theorem commit_relates (hdb : db.All I) (hd : db.getRun id = some d) :
    (db.commit G clk op).Fact id (R d) := by
  unfold commit
  split
  · exact exec_relates hI htrans hrefl hR hdb hd ‹_›
  · exact ⟨d, hd, hrefl d⟩

end Relating

theorem onRun_relates {f : Session → Except JobError Session}
    (hf : ∀ {s t : Session}, f s = .ok t → Performs G clk op r s t) (hd : db.getRun id = some d)
    (hrefl : r ≠ id → R d d) (hR : r = id → ∀ {t}, f (db.session d) = .ok t → R d t.toRunData)
    (h : db.onRun r f = .ok db') : db'.Fact id (R d) := by
  obtain ⟨d₁, u, hd₁, hu, rfl⟩ := onRun_eq_ok h
  have hid : u.run.id = r := (hf hu).id_eq.trans (getRun_id hd₁)
  by_cases hr : r = id
  · subst hr
    obtain rfl := some.inj (hd.symm.trans hd₁)
    exact ⟨u.toRunData, hid ▸ getRun_store (hid.symm ▸ hd), hR rfl hu⟩
  · exact ⟨d, (getRun_store_of_ne (hid ▸ hr)).trans hd, hrefl hr⟩

theorem commit_call {c : RunCall} (hd : db.getRun id = some d) (hrefl : R d d)
    (hR : r = id → ∀ {t : Session}, c.exec G clk (db.session d) = .ok t → R d t.toRunData) :
    (db.commit G clk (.client (.call r c))).Fact id (R d) := by
  unfold commit
  split
  · exact onRun_relates (fun hs => .call (raising_eq_ok.1 hs)) hd (fun _ => hrefl)
      (fun hr _ hs => hR hr (raising_eq_ok.1 hs)) ‹_›
  · exact ⟨d, hd, hrefl⟩

theorem run_relates (hI : RunInvariant G I)
    (htrans : ∀ ⦃d d' d''⦄, R d d' → R d' d'' → R d d'') (hrefl : ∀ d, R d d)
    (hR : ∀ ⦃clk op s t⦄, Performs G clk op id s t → I s.toRunData → R s.toRunData t.toRunData) :
    ∀ (ops : List (Clock × DbOp)) {db db' : Db} {d : RunData}, db.All I →
      (dbMachine G).run ops db = some db' → db.getRun id = some d → db'.Fact id (R d)
  | [], _, _, d, _, h, hd => ⟨d, some.inj h ▸ hd, hrefl d⟩
  | (clk, op) :: ops, _, _, _, hdb, h, hd => by
    obtain ⟨u, hu, h⟩ := Machine.run_cons.1 h
    obtain rfl := some.inj hu
    obtain ⟨d₁, hd₁, hrel⟩ := commit_relates hI htrans hrefl (fun _ _ hp => hR hp) hdb hd
    obtain ⟨d₂, hd₂, hrel'⟩ := run_relates hI htrans hrefl hR ops (hI.commit hdb) h hd₁
    exact ⟨d₂, hd₂, htrans hrel hrel'⟩

end Db

end Crewquarters
