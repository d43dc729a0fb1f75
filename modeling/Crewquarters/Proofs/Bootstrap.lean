import Crewquarters.Bootstrap
import Crewquarters.Lib.Tasks

/-!
# At most one owner

Whoever has locked a row of the setup code has locked the row that is there, so nobody else has
locked one. A bootstrap that found no user after it locked the row therefore keeps finding none: the
only commits that add a user are those of bootstraps that have locked the row. And the row has the
token that was issued last.
-/

namespace Crewquarters

open List Option

namespace Setup

variable {η : Type*} {H : TokenDigest η} {s t : Setup η} {n : ℕ} {u : SetupTask η}

/-- The row was that of the token issued last when it was obtained. -/
structure FromIssue (H : TokenDigest η) (s : Setup η) (row : TokenRow η) (obtainedAt : Time)
    (issuedBefore : ℕ) : Prop where
  before : issuedBefore ≤ s.issued.length
  past : obtainedAt ≤ s.now
  issue : ∃ i, (s.issued.take issuedBefore).getLast? = some i ∧ row.hash = H.hash i.token
    ∧ row.expiresAt = i.expiresAt

def PhaseFits (H : TokenDigest η) (s : Setup η) (token : String) : BootstrapPhase η → Prop
  | .obtained got => ∀ row, got.row = some row →
    s.FromIssue H row got.obtainedAt got.issuedBefore
  | .counted got => ∀ row, got.row = some row →
    s.FromIssue H row got.obtainedAt got.issuedBefore ∧ s.users = 0
  | .flushed row obtainedAt issuedBefore => s.FromIssue H row obtainedAt issuedBefore
    ∧ s.users = 0 ∧ row.hash = H.hash token ∧ obtainedAt < row.expiresAt
  | .starting | .waiting _ | .ended _ | .aborted => True

def TaskFits (H : TokenDigest η) (s : Setup η) : SetupTask η → Prop
  | .bootstrap r => s.PhaseFits H r.token r.phase
  | .issue _ _ => True

/-- The token was the one issued last when its row was obtained, and had not expired. -/
def SuccessFits (s : Setup η) (e : SetupSuccess) : Prop :=
  e.issuedBefore ≤ s.issued.length ∧ ∃ i, (s.issued.take e.issuedBefore).getLast? = some i
    ∧ i.token = e.token ∧ e.obtainedAt < i.expiresAt

def Locks (t : SetupTask η) (life : ℕ) : Prop := t.locks = some life

def Inserts (t : SetupTask η) (_ : Unit) : Prop := t.inserts = true

/-- What the locks give: one task at a time has the row, and one success is all there is. -/
structure Sound (H : TokenDigest η) (s : Setup η) : Prop where
  locks : Tasks.Exclusive Locks s.tasks
  inserts : Tasks.Exclusive Inserts s.tasks
  held : ∀ t ∈ s.tasks, ∀ life, Locks t life → s.row.map (·.life) = some life
  absent : ∀ t ∈ s.tasks, Inserts t () → s.row = none
  latest : ∀ row, s.row = some row → ∃ i, s.issued.getLast? = some i
    ∧ row.hash = H.hash i.token ∧ row.expiresAt = i.expiresAt
  tasks : ∀ t ∈ s.tasks, s.TaskFits H t
  users : s.users = s.successes.length ∧ s.users ≤ 1
  successes : ∀ e ∈ s.successes, s.SuccessFits e

/-- Time passes and tokens are issued, but no user is added. -/
structure Grows (s t : Setup η) : Prop where
  now : s.now ≤ t.now
  users : t.users = s.users
  issued : ∃ more, t.issued = s.issued ++ more

theorem Grows.setTasks (s : Setup η) (tasks : List (SetupTask η)) : Grows s { s with tasks } :=
  ⟨le_rfl, rfl, [], (append_nil _).symm⟩

theorem Grows.take (hg : Grows s t) {k : ℕ} (hk : k ≤ s.issued.length) :
    k ≤ t.issued.length ∧ t.issued.take k = s.issued.take k := by
  obtain ⟨more, hmore⟩ := hg.issued
  rw [hmore, length_append, take_append_of_le_length hk]
  exact ⟨hk.trans (Nat.le_add_right _ _), rfl⟩

theorem FromIssue.mono (hg : Grows s t) {row : TokenRow η} {obtainedAt : Time} {issuedBefore : ℕ}
    (h : s.FromIssue H row obtainedAt issuedBefore) :
    t.FromIssue H row obtainedAt issuedBefore where
  before := (hg.take h.before).1
  past := h.past.trans hg.now
  issue := (hg.take h.before).2 ▸ h.issue

theorem TaskFits.mono (hg : Grows s t) (h : s.TaskFits H u) : t.TaskFits H u := by
  cases u with
  | issue => trivial
  | bootstrap r =>
    obtain ⟨token, phase⟩ := r
    cases phase with
    | obtained => exact fun row hrow => FromIssue.mono hg (h row hrow)
    | counted =>
      exact fun row hrow => ⟨FromIssue.mono hg (h row hrow).1, hg.users.trans (h row hrow).2⟩
    | flushed =>
      exact ⟨FromIssue.mono hg h.1, hg.users.trans h.2.1, h.2.2⟩
    | starting | waiting | ended | aborted => trivial

theorem SuccessFits.mono (hg : Grows s t) {e : SetupSuccess} (h : s.SuccessFits e) :
    t.SuccessFits e :=
  ⟨(hg.take h.1).1, (hg.take h.1).2 ▸ h.2⟩

theorem TaskFits.of_unlocked (hu : u.locks = none) : s.TaskFits H u := by
  cases u with
  | issue => trivial
  | bootstrap r =>
    obtain ⟨token, phase⟩ := r
    cases phase with
    | obtained | counted =>
      intro row hrow
      simp [SetupTask.locks, hrow] at hu
    | flushed => cases hu
    | starting | waiting | ended | aborted => trivial

namespace Sound

variable {u : SetupTask η}

theorem start (now : Time) : Sound H (start now) where
  locks := .nil
  inserts := .nil
  held t ht := by cases ht
  absent t ht := by cases ht
  latest row hrow := by cases hrow
  tasks t ht := by cases ht
  users := ⟨rfl, Nat.zero_le 1⟩
  successes e he := by cases he

section

variable (h : Sound H s)
include h

/-- A task moves on: it has locked what it had, or the row that nobody has; it inserts only where
there is no row and no other insert. -/
theorem goto {u' : SetupTask η} (hn : s.tasks[n]? = some u)
    (hlocks : ∀ life, Locks u' life → Locks u life ∨ Tasks.Free Locks life s.tasks
      ∧ s.row.map (·.life) = some life)
    (hinserts : Inserts u' () → s.row = none ∧ Tasks.Free Inserts () s.tasks)
    (hfits : s.TaskFits H u') : Sound H (s.goto n u') := by
  have hmem := mem_of_getElem? hn
  refine { h with
    locks := h.locks.set hn fun life hlife => (hlocks life hlife).imp_right And.left
    inserts := h.inserts.set hn fun _ hins => .inr (hinserts hins).2
    held := fun v hv life hlife => ?_
    absent := fun v hv hins => ?_
    tasks := fun v hv => ?_ }
  · rcases Tasks.mem_of_mem_set hv with rfl | hv
    · rcases hlocks life hlife with hold | hnew
      · exact h.held u hmem life hold
      · exact hnew.2
    · exact h.held v hv life hlife
  · rcases Tasks.mem_of_mem_set hv with rfl | hv
    · exact (hinserts hins).1
    · exact h.absent v hv hins
  · rcases Tasks.mem_of_mem_set hv with rfl | hv
    · exact hfits.mono (.setTasks s _)
    · exact (h.tasks v hv).mono (.setTasks s _)

theorem release (v : SetupTask η) (hn : s.tasks[n]? = some u) (hlocks : v.locks = none)
    (hinserts : v.inserts = false) : Sound H (s.goto n v) := by
  refine h.goto hn (fun life hlife => ?_) (fun hins => ?_) (.of_unlocked hlocks)
  · rw [Locks, hlocks] at hlife
    cases hlife
  · rw [Inserts, hinserts] at hins
    cases hins

theorem addTask (hlocks : u.locks = none) (hinserts : u.inserts = false) :
    Sound H { s with tasks := s.tasks ++ [u] } := by
  have hlocks' : ∀ life, ¬ Locks u life := by
    intro life hlife
    rw [Locks, hlocks] at hlife
    cases hlife
  have hinserts' : ¬ Inserts u () := by
    intro hins
    rw [Inserts, hinserts] at hins
    cases hins
  refine { h with
    locks := h.locks.append fun life hlife => absurd hlife (hlocks' life)
    inserts := h.inserts.append fun _ hins => absurd hins hinserts'
    held := fun v hv life hlife => ?_
    absent := fun v hv hins => ?_
    tasks := fun v hv => ?_ }
  · rcases mem_append.1 hv with hv | hv
    · exact h.held v hv life hlife
    · exact absurd (mem_singleton.1 hv ▸ hlife) (hlocks' life)
  · rcases mem_append.1 hv with hv | hv
    · exact h.absent v hv hins
    · exact absurd (mem_singleton.1 hv ▸ hins) hinserts'
  · rcases mem_append.1 hv with hv | hv
    · exact (h.tasks v hv).mono (.setTasks s _)
    · rw [mem_singleton.1 hv]
      exact .of_unlocked hlocks

theorem advance {seconds : ℚ} (hseconds : 0 ≤ seconds) :
    Sound H { s with now := s.now + seconds } := by
  have hg : Grows s { s with now := s.now + seconds } :=
    ⟨le_add_of_nonneg_right hseconds, rfl, [], (append_nil _).symm⟩
  exact { h with
    tasks := fun u hu => (h.tasks u hu).mono hg
    successes := fun e he => (h.successes e he).mono hg }

theorem receive (hn : s.tasks[n]? = some u) {row : Option (TokenRow η)}
    (hrow : ∀ r, row = some r → s.row = some r ∧ s.locked r.life = false) :
    Sound H (s.receive n row u) := by
  have hfree : ∀ r, row = some r →
      Tasks.Free Locks r.life s.tasks ∧ s.row.map (·.life) = some r.life := by
    intro r hr
    obtain ⟨hs, hlocked⟩ := hrow r hr
    refine ⟨fun v hv hlife => ?_, by rw [hs]; rfl⟩
    have hnot := any_eq_false.1 hlocked v hv
    simp only [decide_eq_true_eq] at hnot
    exact hnot hlife
  cases u with
  | issue =>
    refine h.goto hn (fun life hlife => .inr ?_) (fun hins => by cases hins) trivial
    obtain ⟨r, hr, rfl⟩ := map_eq_some_iff.1 hlife
    exact hfree r hr
  | bootstrap =>
    refine h.goto hn (fun life hlife => .inr ?_) (fun hins => by cases hins) fun r' hr' => ?_
    · obtain ⟨r', hr', rfl⟩ := map_eq_some_iff.1 hlife
      exact hfree r' hr'
    · obtain ⟨i, hlast, hhash, hexpires⟩ := h.latest r' (hrow r' hr').1
      refine ⟨le_rfl, le_rfl, i, ?_, hhash, hexpires⟩
      rw [take_length]
      exact hlast

theorem selectRow (hn : s.tasks[n]? = some u) : Sound H (s.selectRow n u) := by
  unfold Setup.selectRow
  split
  · exact h.receive hn fun r hr => by cases hr
  · rename_i row hrow
    split_ifs with hlocked
    · cases u <;> exact h.release _ hn rfl rfl
    · refine h.receive hn fun r hr => ?_
      obtain rfl := some.inj hr
      exact ⟨hrow, Bool.eq_false_iff.2 hlocked⟩

theorem wake (hn : s.tasks[n]? = some u) {life : ℕ} (ht : s.wake n life u = some t) :
    Sound H t := by
  unfold Setup.wake at ht
  split at ht
  · obtain rfl := some.inj ht
    exact h.receive hn fun r hr => by cases hr
  · rename_i row hrow
    split_ifs at ht with hlocked
    obtain rfl := some.inj ht
    obtain ⟨hs, hlife⟩ := filter_eq_some_iff.1 hrow
    refine h.receive hn fun r hr => ?_
    obtain rfl := some.inj hr
    exact ⟨hs, (of_decide_eq_true hlife).symm ▸ Bool.eq_false_iff.2 hlocked⟩

end

section Bootstrap

variable {token : String} {got : ObtainedRow η}

theorem count (h : Sound H s) (hn : s.tasks[n]? = some (.bootstrap ⟨token, .obtained got⟩)) :
    Sound H (s.count n ⟨token, .obtained got⟩ got) := by
  have hfits : ∀ row, got.row = some row → s.FromIssue H row got.obtainedAt got.issuedBefore :=
    h.tasks _ (mem_of_getElem? hn)
  unfold Setup.count
  split_ifs with husers
  · exact h.release _ hn rfl rfl
  · exact h.goto hn (fun life hlife => .inl hlife) (fun hins => by cases hins)
      fun row hrow => ⟨hfits row hrow, not_not.1 husers⟩

theorem check [DecidableEq η] (h : Sound H s)
    (hn : s.tasks[n]? = some (.bootstrap ⟨token, .counted got⟩)) :
    Sound H (s.check n ⟨token, .counted got⟩ H got) := by
  have hfits : ∀ row, got.row = some row →
      s.FromIssue H row got.obtainedAt got.issuedBefore ∧ s.users = 0 :=
    h.tasks _ (mem_of_getElem? hn)
  unfold Setup.check
  split
  · exact h.release _ hn rfl rfl
  · rename_i row hrow
    obtain ⟨hissue, husers⟩ := hfits row hrow
    split_ifs with hvalid
    · refine h.goto hn (fun life hlife => .inl ?_) (fun hins => by cases hins)
        ⟨hissue, husers, hvalid.2, hissue.past.trans_lt hvalid.1⟩
      rw [Locks, SetupTask.locks, hrow]
      exact hlife
    · exact h.release _ hn rfl rfl

theorem unlocked (h : Sound H s) {u v : SetupTask η} (hn : s.tasks[n]? = some u) {m : ℕ} (life : ℕ)
    (hlife : Locks u life) (hmn : m ≠ n) (hv : s.tasks[m]? = some v) : v.locks = none := by
  by_contra hne
  obtain ⟨life', hlife'⟩ := ne_none_iff_exists'.1 hne
  have hu := h.held u (mem_of_getElem? hn) life hlife
  have hv' := h.held v (mem_of_getElem? hv) life' hlife'
  obtain rfl := some.inj (hu.symm.trans hv')
  exact h.locks.not_holds hn hlife hmn hv hlife'

theorem commitOwner (h : Sound H s) {row : TokenRow η} {obtainedAt : Time} {issuedBefore : ℕ}
    (hn : s.tasks[n]? = some (.bootstrap ⟨token, .flushed row obtainedAt issuedBefore⟩)) :
    Sound H (s.commitOwner n ⟨token, .flushed row obtainedAt issuedBefore⟩ obtainedAt
      issuedBefore) := by
  obtain ⟨hissue, husers, hhash, hexpires⟩ : s.FromIssue H row obtainedAt issuedBefore
      ∧ s.users = 0 ∧ row.hash = H.hash token ∧ obtainedAt < row.expiresAt :=
    h.tasks _ (mem_of_getElem? hn)
  have hended := h.release (.bootstrap ⟨token, .ended (.ok ())⟩) hn rfl rfl
  -- with the row deleted, nobody has locked one
  have hunlocked : ∀ v ∈ (s.goto n (.bootstrap ⟨token, .ended (.ok ())⟩)).tasks,
      v.locks = none := by
    intro v hv
    rcases Tasks.mem_set hv with rfl | ⟨m, hm, hvm⟩
    · rfl
    · exact h.unlocked hn row.life rfl hm hvm
  exact {
    locks := hended.locks
    inserts := hended.inserts
    held := fun v hv life hlife => by
      rw [Locks, hunlocked v hv] at hlife
      cases hlife
    absent := fun v hv hins => rfl
    latest := fun row hrow => by cases hrow
    tasks := fun v hv => .of_unlocked (hunlocked v hv)
    users := by
      obtain ⟨hlength, -⟩ := h.users
      refine ⟨?_, ?_⟩
      · change s.users + 1 = (s.successes ++ _).length
        rw [hlength, length_append]
        rfl
      · change s.users + 1 ≤ 1
        rw [husers]
    successes := fun e he => by
      rcases mem_append.1 he with he | he
      · exact h.successes e he
      · obtain rfl := mem_singleton.1 he
        obtain ⟨i, hi, hih, hie⟩ := hissue.issue
        refine ⟨hissue.before, i, hi, ?_, hie ▸ hexpires⟩
        exact H.collisionFree (hih.symm.trans hhash) }

end Bootstrap

section Issue

variable {i : TokenIssuance}

theorem draw (h : Sound H s) (hn : s.tasks[n]? = some (.issue i .starting)) (token : String)
    (ttlHours : ℚ) : Sound H (s.draw n i token ttlHours) := by
  unfold Setup.draw
  split_ifs <;> exact h.release _ hn rfl rfl

theorem write (h : Sound H s) {life : Option ℕ}
    (hn : s.tasks[n]? = some (.issue i (.obtained life))) (ht : s.write n i life = some t) :
    Sound H t := by
  unfold Setup.write at ht
  split at ht
  · obtain rfl := some.inj ht
    exact h.goto hn (fun _ hlife => .inl hlife) (fun hins => by cases hins) trivial
  · rename_i hrow
    split_ifs at ht with hother
    obtain rfl := some.inj ht
    refine h.goto hn (fun _ hlife => by cases hlife) (fun _ => ⟨hrow, fun v hv hins => ?_⟩) trivial
    exact hother (any_eq_true.2 ⟨v, hv, hins⟩)
  · split_ifs at ht
    obtain rfl := some.inj ht
    exact h.release _ hn rfl rfl

theorem commitToken (h : Sound H s) (hn : s.tasks[n]? = some u) {life : ℕ} (lives : ℕ)
    (hunlocked : ∀ m ≠ n, ∀ v, s.tasks[m]? = some v → v.locks = none ∧ v.inserts = false) :
    Sound H (Setup.commitToken n i H life { s with lives }) := by
  have hended := h.release (.issue i .ended) hn rfl rfl
  have hothers : ∀ v ∈ (s.goto n (.issue i .ended)).tasks, v.locks = none ∧ v.inserts = false := by
    intro v hv
    rcases Tasks.mem_set hv with rfl | ⟨m, hm, hvm⟩
    · exact ⟨rfl, rfl⟩
    · exact hunlocked m hm v hvm
  have hg : Grows s (Setup.commitToken n i H life { s with lives }) := ⟨le_rfl, rfl, [i], rfl⟩
  exact {
    locks := hended.locks
    inserts := hended.inserts
    held := fun v hv life hlife => by
      rw [Locks, (hothers v hv).1] at hlife
      cases hlife
    absent := fun v hv hins => by
      rw [Inserts, (hothers v hv).2] at hins
      cases hins
    latest := fun row hrow => by
      obtain rfl := some.inj hrow
      exact ⟨i, getLast?_append_cons _ _ _, rfl, rfl⟩
    tasks := fun v hv => .of_unlocked (hothers v hv).1
    users := h.users
    successes := fun e he => (h.successes e he).mono hg }

theorem commitInserted (h : Sound H s) (hn : s.tasks[n]? = some (.issue i .inserted)) :
    Sound H (Setup.commitToken n i H s.lives { s with lives := s.lives + 1 }) := by
  have hrow := h.absent _ (mem_of_getElem? hn) rfl
  refine h.commitToken hn (s.lives + 1) fun m hm v hv => ⟨?_, ?_⟩
  · by_contra hne
    obtain ⟨life, hlife⟩ := ne_none_iff_exists'.1 hne
    have hheld := h.held v (mem_of_getElem? hv) life hlife
    rw [hrow] at hheld
    cases hheld
  · exact Bool.eq_false_iff.2 (h.inserts.not_holds (k := ()) hn rfl hm hv)

theorem commitUpdated (h : Sound H s) {life : ℕ}
    (hn : s.tasks[n]? = some (.issue i (.updated life))) : Sound H (s.commitToken n i H life) := by
  have hrow := h.held _ (mem_of_getElem? hn) life rfl
  refine h.commitToken hn s.lives fun m hm v hv => ⟨h.unlocked hn life rfl hm hv, ?_⟩
  refine Bool.eq_false_iff.2 fun hins => ?_
  rw [h.absent v (mem_of_getElem? hv) hins] at hrow
  cases hrow

end Issue

section Task
variable (h : Sound H s) (hn : s.tasks[n]? = some u)
include h hn

theorem onSelect (ht : s.onSelect n u = some t) : Sound H t := by
  unfold Setup.onSelect at ht
  split at ht <;> cases ht <;> exact h.selectRow hn

theorem onWake (ht : s.onWake n u = some t) : Sound H t := by
  unfold Setup.onWake at ht
  split at ht
  · exact h.wake hn ht
  · exact h.wake hn ht
  · cases ht

theorem onCommit (ht : s.onCommit H n u = some t) : Sound H t := by
  unfold Setup.onCommit at ht
  split at ht <;> cases ht
  · exact h.commitOwner hn
  · exact h.commitInserted hn
  · exact h.commitUpdated hn

theorem onAbort (ht : s.onAbort n u = some t) : Sound H t := by
  unfold Setup.onAbort at ht
  split at ht <;> cases ht <;> exact h.release _ hn rfl rfl

end Task

variable [DecidableEq η]

theorem step (h : Sound H s) (a : SetupAction) (ht : step H a s = some t) : Sound H t := by
  cases a with
  | advance =>
    rw [Setup.step] at ht
    split_ifs at ht with hseconds
    obtain rfl := some.inj ht
    exact h.advance hseconds
  | request | issue =>
    obtain rfl := some.inj ht
    exact h.addTask rfl rfl
  | draw n token ttlHours =>
    obtain ⟨u, hn, ht⟩ := bind_eq_some_iff.1 ht
    split at ht <;> cases ht
    exact h.draw hn token ttlHours
  | select =>
    obtain ⟨u, hn, ht⟩ := bind_eq_some_iff.1 ht
    exact h.onSelect hn ht
  | wake =>
    obtain ⟨u, hn, ht⟩ := bind_eq_some_iff.1 ht
    exact h.onWake hn ht
  | count =>
    obtain ⟨u, hn, ht⟩ := bind_eq_some_iff.1 ht
    split at ht <;> cases ht
    exact h.count hn
  | check =>
    obtain ⟨u, hn, ht⟩ := bind_eq_some_iff.1 ht
    split at ht <;> cases ht
    exact h.check hn
  | write =>
    obtain ⟨u, hn, ht⟩ := bind_eq_some_iff.1 ht
    split at ht
    · exact h.write hn ht
    · cases ht
  | commit =>
    obtain ⟨u, hn, ht⟩ := bind_eq_some_iff.1 ht
    exact h.onCommit hn ht
  | abort =>
    obtain ⟨u, hn, ht⟩ := bind_eq_some_iff.1 ht
    exact h.onAbort hn ht

theorem run {acts : List SetupAction} (h : Sound H s) (ht : (machine H).run acts s = some t) :
    Sound H t :=
  Machine.run_keeps (fun a _ _ hs hstep => hs.step a hstep) acts h ht

end Sound

/-- The token presented was the one issued last when the request obtained the row, and had not
expired by then. -/
def PresentsLatest (s : Setup η) (e : SetupSuccess) : Prop :=
  ∃ i, (s.issued.take e.issuedBefore).getLast? = some i ∧ i.token = e.token
    ∧ e.obtainedAt < i.expiresAt

/-- There is at most one owner, whose request presented the latest token, and no token served
twice. -/
theorem one_owner [DecidableEq η] (now : Time) (acts : List SetupAction)
    (ht : (machine H).run acts (start now) = some t) :
    t.users ≤ 1 ∧ t.users = t.successes.length ∧ (∀ e ∈ t.successes, t.PresentsLatest e)
      ∧ (t.successes.map (·.token)).Nodup := by
  have h := (Sound.start now).run ht
  obtain ⟨hlength, hone⟩ := h.users
  refine ⟨hone, hlength, fun e he => (h.successes e he).2, ?_⟩
  refine pairwise_iff_getElem.2 fun i j hi hj hij => ?_
  rw [length_map] at hj
  omega

def plainDigest : TokenDigest String := ⟨id, Function.injective_id⟩

/-- A token is issued while the bootstrap with an earlier one is under way, and is refused. -/
def issuedMeanwhile : List SetupAction :=
  [.issue, .draw 0 "first" 24, .select 0, .write 0, .commit 0, .advance 60,
    .request "first", .issue, .draw 2 "second" 24, .select 1, .select 2, .count 1, .check 1,
    .commit 1, .wake 2, .write 2, .commit 2, .request "second", .select 3, .count 3]

theorem one_owner_issuedMeanwhile : ∃ t,
    (machine plainDigest).run issuedMeanwhile (start 0) = some t ∧ t.successes.length = 1
      ∧ t.issued.length = 2 ∧ t.users ≤ 1 ∧ t.users = t.successes.length
      ∧ (∀ e ∈ t.successes, t.PresentsLatest e) ∧ (t.successes.map (·.token)).Nodup := by
  have hrun : (((machine plainDigest).run issuedMeanwhile (start 0)).any fun t =>
      t.successes.length = 1 ∧ t.issued.length = 2) = true := by decide +kernel
  obtain ⟨t, ht, hlengths⟩ := (any_eq_true _ _).mp hrun
  obtain ⟨hsuccesses, hissued⟩ := of_decide_eq_true hlengths
  exact ⟨t, ht, hsuccesses, hissued, one_owner 0 issuedMeanwhile ht⟩

end Setup

end Crewquarters
