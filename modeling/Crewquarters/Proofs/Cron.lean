import Crewquarters.Cron
import Crewquarters.Lib.Outcome

/-!
# The next occurrence

`_resolve_local` follows the rule for every minute (`fires_iff`), and it is monotone. So the minutes
up to what the clock shows at `after` fire by then, and those after it fire in order; only minutes
of a stretch that is being repeated are still passed over (`late_or_repeated`).
-/

namespace Crewquarters

open WallClock Except List

variable {zone : Zone} {expr : Expression} {m m' w t t' after o : Time} {e : PlatformError}
  {n : ℕ}

theorem isMinute_iff : IsMinute t ↔ ∃ k : ℤ, t = minute * k := by
  refine ⟨fun h => ⟨⌊t / minute⌋, h.symm⟩, ?_⟩
  rintro ⟨k, rfl⟩
  have hne : minute ≠ 0 := by norm_num [minute]
  rw [IsMinute, floorMinute, mul_div_cancel_left₀ _ hne, Int.floor_intCast]

theorem IsMinute.succ (h : IsMinute t) : IsMinute (t + minute) := by
  obtain ⟨k, rfl⟩ := isMinute_iff.1 h
  refine isMinute_iff.2 ⟨k + 1, ?_⟩
  push_cast
  ring

theorem IsMinute.exists_add (h : IsMinute t) (h' : IsMinute t') (hle : t ≤ t') :
    ∃ k : ℕ, t' = t + minute * k := by
  obtain ⟨i, rfl⟩ := isMinute_iff.1 h
  obtain ⟨j, rfl⟩ := isMinute_iff.1 h'
  have hij : i ≤ j := by
    have := le_of_mul_le_mul_left hle (by norm_num [minute])
    exact_mod_cast this
  refine ⟨(j - i).toNat, ?_⟩
  have hcast : (((j - i).toNat : ℤ) : Time) = ((j - i : ℤ) : Time) := by
    rw [Int.toNat_of_nonneg (by omega)]
  rw [Int.cast_natCast] at hcast
  rw [hcast]
  push_cast
  ring

theorem exists_nextIn {S : Set Time} (hS : ∀ m ∈ S, IsMinute m) (hm : m ∈ S) (htm : t < m) :
    ∃ m', NextIn S t m' := by
  obtain ⟨k, rfl⟩ := isMinute_iff.1 (hS m hm)
  have hpos : (0 : Time) < minute := by norm_num [minute]
  have hbound : ∀ i : ℤ, minute * i ∈ S ∧ t < minute * i → ⌊t / minute⌋ ≤ i := by
    intro i hi
    have hlt : t / minute < i := (div_lt_iff₀' hpos).2 hi.2
    exact (Int.floor_lt.2 hlt).le
  obtain ⟨i, hi, hleast⟩ := Int.exists_least_of_bdd ⟨_, hbound⟩ ⟨k, hm, htm⟩
  refine ⟨minute * i, hi, fun x hx => ?_⟩
  obtain ⟨j, rfl⟩ := isMinute_iff.1 (hS x hx.1)
  have hij : (i : Time) ≤ j := Int.cast_le.2 (hleast j hx)
  exact mul_le_mul_of_nonneg_left hij hpos.le

theorem Expression.getNext_none (h : expr.getNext t = none) (hm : m ∈ expr.matching) : m ≤ t := by
  by_contra hlt
  obtain ⟨m', hm'⟩ := exists_nextIn expr.isMinute hm (not_le.1 hlt)
  exact absurd ((expr.getNext_eq t m').2 hm') (h ▸ nofun)

def Zone.Shows (zone : Zone) (naive w : Time) : Prop := IsLeast {w | naive ≤ w ∧ zone.Exists w} w

theorem isValidLocal_iff : isValidLocal w zone = true ↔ zone.Exists w := by
  rw [isValidLocal, decide_eq_true_iff]
  exact ⟨fun h => ⟨_, h⟩, fun h => toLocal_toUtc zone.apart h⟩

theorem Zone.Shows.self (h : zone.Exists w) : zone.Shows w w := ⟨⟨le_rfl, h⟩, fun _ hx => hx.1⟩

theorem exists_shows (zone : Zone) (hm : IsMinute m) :
    ∃ w, zone.Shows m w ∧ IsMinute w ∧ w - m < 24 * 60 * minute := by
  by_cases hread : zone.Exists m
  · exact ⟨m, .self hread, hm, by norm_num [minute]⟩
  · obtain ⟨gap, hgap, hstart, hlt, hend, hnot⟩ :=
      skipped_of_not_reads zone.apart hread
    obtain ⟨hminute, hlength⟩ := zone.gaps gap hgap
    refine ⟨gap.2, ⟨⟨hlt.le, hend⟩, fun x hx => not_lt.1 fun hxg => ?_⟩, hminute, by linarith⟩
    exact hnot x hx.1 hxg hx.2

theorem probeLocal_eq {n k : ℕ} (hm : IsMinute m) (hk : k < n)
    (hw : zone.Shows m (m + minute * k)) :
    probeLocal zone n m = .ok (zone.toUtc (m + minute * k)) := by
  induction n generalizing m k with
  | zero => exact absurd hk (Nat.not_lt_zero k)
  | succ n ih =>
    rw [probeLocal]
    cases k with
    | zero =>
      rw [Nat.cast_zero, mul_zero, add_zero] at hw ⊢
      rw [if_pos (isValidLocal_iff.2 hw.1.2)]
    | succ k =>
      have heq : m + minute * (k + 1 : ℕ) = m + minute + minute * k := by
        push_cast
        ring
      rw [heq] at hw ⊢
      have hk0 : (0 : Time) ≤ minute * k := by
        rw [minute]
        positivity
      have hminute : (0 : Time) < minute := by norm_num [minute]
      have hnot : ¬ isValidLocal m zone = true := fun hvalid => by
        have := hw.2 ⟨le_rfl, isValidLocal_iff.1 hvalid⟩
        linarith
      have hshows : zone.Shows (m + minute) (m + minute + minute * k) := by
        refine ⟨⟨by linarith, hw.1.2⟩, fun x hx => hw.2 ⟨?_, hx.2⟩⟩
        have := hx.1
        linarith
      have hfloor : floorMinute m = m := hm
      rw [if_neg hnot, hfloor]
      exact ih hm.succ (Nat.lt_of_succ_lt_succ hk) hshows

theorem resolveLocal_eq (hm : IsMinute m) (hw : zone.Shows m w) :
    resolveLocal m zone = .ok (zone.toUtc w) := by
  obtain ⟨w', hw', hminute, hlength⟩ := exists_shows zone hm
  obtain rfl := hw'.unique hw
  obtain ⟨k, rfl⟩ := hm.exists_add hminute hw'.1.1
  refine probeLocal_eq hm ?_ hw'
  rw [add_sub_cancel_left] at hlength
  have hk : (k : Time) < (24 * 60 : ℕ) := by
    rw [minute] at hlength
    push_cast
    linarith
  exact_mod_cast hk

theorem exists_resolveLocal (zone : Zone) (hm : IsMinute m) : ∃ t, resolveLocal m zone = .ok t := by
  obtain ⟨w, hw, -⟩ := exists_shows zone hm
  exact ⟨_, resolveLocal_eq hm hw⟩

theorem shows_of_resolveLocal (hm : IsMinute m) (h : resolveLocal m zone = .ok t) :
    ∃ w, zone.Shows m w ∧ t = zone.toUtc w := by
  obtain ⟨w, hw, -⟩ := exists_shows zone hm
  rw [resolveLocal_eq hm hw] at h
  exact ⟨w, hw, (ok.inj h).symm⟩

theorem toUtc_isLeast (hw : zone.Exists w) : IsLeast {t | zone.toLocal t = w} (zone.toUtc w) :=
  WallClock.toUtc_isLeast zone.apart hw

theorem fires_iff (hm : IsMinute m) : zone.Fires m t ↔ resolveLocal m zone = .ok t := by
  obtain ⟨w, hw, hminute, -⟩ := exists_shows zone hm
  rw [resolveLocal_eq hm hw]
  have hfirst := toUtc_isLeast hw.1.2
  constructor
  · rintro (hleast | ⟨hgap, next, hnext, hleast⟩)
    · obtain rfl := hw.unique (Zone.Shows.self ⟨t, hleast.1⟩)
      rw [hfirst.unique hleast]
    · have hmw : m < w := hw.1.1.lt_of_ne fun heq => hgap (heq ▸ hw.1.2)
      have hle : next ≤ w := hnext.2 ⟨hmw, hminute, hw.1.2⟩
      obtain rfl := hle.antisymm (hw.2 ⟨hnext.1.1.le, hnext.1.2.2⟩)
      rw [hfirst.unique hleast]
  · intro h
    obtain rfl := ok.inj h
    rcases hw.1.1.eq_or_lt with rfl | hlt
    · exact .existing hfirst
    · refine .nonexistent (fun hread => ?_) w ⟨⟨hlt, hminute, hw.1.2⟩, fun x hx => ?_⟩ hfirst
      · exact absurd (hw.2 ⟨le_rfl, hread⟩) (not_le.2 hlt)
      · exact hw.2 ⟨hx.1.le, hx.2.2⟩

theorem resolveLocal_mono (hm : IsMinute m) (hm' : IsMinute m') (hle : m ≤ m')
    (h : resolveLocal m zone = .ok t) (h' : resolveLocal m' zone = .ok t') : t ≤ t' := by
  obtain ⟨w, hw, rfl⟩ := shows_of_resolveLocal hm h
  obtain ⟨w', hw', rfl⟩ := shows_of_resolveLocal hm' h'
  have hww : w ≤ w' := hw.2 ⟨hle.trans hw'.1.1, hw'.1.2⟩
  exact toUtc_mono zone.apart hw.1.2 hw'.1.2 hww

theorem resolveLocal_le (hm : IsMinute m) (hle : m ≤ zone.toLocal after)
    (h : resolveLocal m zone = .ok t) : t ≤ after := by
  obtain ⟨w, hw, rfl⟩ := shows_of_resolveLocal hm h
  exact toUtc_le zone.apart hw.1.2 (hw.2 ⟨hle, after, rfl⟩)

theorem late_or_repeated (zone : Zone) (after : Time) :
    (∀ m t, IsMinute m → zone.toLocal after < m → resolveLocal m zone = .ok t → after < t)
    ∨ ∃ stretch ∈ WallClock.repeated zone.offset zone.transitions,
      stretch.1 ≤ zone.toLocal after
      ∧ ∀ m t, IsMinute m → stretch.2 ≤ m → resolveLocal m zone = .ok t → after < t := by
  rcases lt_toUtc_or_repeated zone.apart after with hall | ⟨r, hr, hstart, hall⟩
  · refine .inl fun m t hm hlt h => ?_
    obtain ⟨w, hw, rfl⟩ := shows_of_resolveLocal hm h
    exact hall w hw.1.2 (hlt.trans_le hw.1.1)
  · refine .inr ⟨r, hr, hstart, fun m t hm hle h => ?_⟩
    obtain ⟨w, hw, rfl⟩ := shows_of_resolveLocal hm h
    exact hall w hw.1.2 (hle.trans hw.1.1)

theorem mem_occurrences : o ∈ zone.occurrences expr
    ↔ ∃ m ∈ expr.matching, resolveLocal m zone = .ok o :=
  exists_congr fun _ => and_congr_right fun hm => fires_iff (expr.isMinute _ hm)

def passed (expr : Expression) (zone : Zone) (after naive : Time) : Set Time :=
  {m | m ∈ expr.matching ∧ naive < m ∧ ∀ t, resolveLocal m zone = .ok t → t ≤ after}

theorem searchFrom_eq {naive : Time}
    (hpast : ∀ x ∈ expr.matching, x ≤ naive → ∀ t, resolveLocal x zone = .ok t → t ≤ after)
    (hn : (passed expr zone after naive).encard < n) :
    searchFrom expr zone after n naive = .ok o ↔ NextIn (zone.occurrences expr) after o := by
  induction n generalizing naive with
  | zero => simp at hn
  | succ n ih =>
    rw [searchFrom]
    cases hnext : expr.getNext naive with
    | none =>
      refine ⟨nofun, fun h => ?_⟩
      obtain ⟨m, hm, hresolve⟩ := mem_occurrences.1 h.mem
      exact absurd (hpast m hm (expr.getNext_none hnext hm) o hresolve) (not_le.2 h.lt)
    | some m =>
      have hm : NextIn expr.matching naive m := (expr.getNext_eq naive m).1 hnext
      have hminute := expr.isMinute m hm.mem
      obtain ⟨candidate, hcandidate⟩ := exists_resolveLocal zone hminute
      dsimp only
      rw [hcandidate]
      change (if after < candidate then _ else _) = _ ↔ _
      split_ifs with hlate
      · have hfirst : NextIn (zone.occurrences expr) after candidate := by
          refine ⟨⟨mem_occurrences.2 ⟨m, hm.mem, hcandidate⟩, hlate⟩, fun x hx => ?_⟩
          obtain ⟨m', hm', hresolve⟩ := mem_occurrences.1 hx.1
          have hlt : naive < m' :=
            not_le.1 fun hle => absurd (hpast m' hm' hle x hresolve) (not_le.2 hx.2)
          exact resolveLocal_mono hminute (expr.isMinute m' hm') (hm.le hm' hlt) hcandidate hresolve
        exact ⟨fun h => ok.inj h ▸ hfirst, fun h => congrArg _ (hfirst.unique h)⟩
      · have hfired : ∀ t, resolveLocal m zone = .ok t → t ≤ after := fun t ht => by
          obtain rfl := ok.inj (hcandidate.symm.trans ht)
          exact not_lt.1 hlate
        refine ih (fun x hx hle => ?_) (hm.encard_lt hfired hn)
        rcases le_or_gt x naive with hxn | hxn
        · exact hpast x hx hxn
        · obtain rfl := hle.antisymm (hm.le hx hxn)
          exact hfired

theorem lt_of_searchFrom {naive : Time} (h : searchFrom expr zone after n naive = .ok o) :
    after < o := by
  induction n generalizing naive with
  | zero => exact absurd h nofun
  | succ n ih =>
    rw [searchFrom] at h
    split at h
    · exact absurd h nofun
    · obtain ⟨candidate, -, h⟩ := bind_eq_ok.1 h
      split_ifs at h with hlate
      · exact ok.inj h ▸ hlate
      · exact ih h

theorem passed_lt (hs : zone.Sparse expr) (after : Time) :
    (passed expr zone after (zone.toLocal after)).encard < (10000 : ℕ) := by
  rcases late_or_repeated zone after with hall | ⟨stretch, hstretch, hstart, hall⟩
  · have hempty : passed expr zone after (zone.toLocal after) = ∅ := by
      refine Set.eq_empty_of_forall_notMem fun m ⟨hm, hlt, hfired⟩ => ?_
      obtain ⟨t, ht⟩ := exists_resolveLocal zone (expr.isMinute m hm)
      exact absurd (hfired t ht) (not_le.2 (hall m t (expr.isMinute m hm) hlt ht))
    rw [hempty, Set.encard_empty]
    norm_num
  · have hsub : passed expr zone after (zone.toLocal after)
        ⊆ {m | m ∈ expr.matching ∧ stretch.1 ≤ m ∧ m < stretch.2} := by
      rintro m ⟨hm, hlt, hfired⟩
      refine ⟨hm, hstart.trans hlt.le, not_le.1 fun hle => ?_⟩
      obtain ⟨t, ht⟩ := exists_resolveLocal zone (expr.isMinute m hm)
      exact absurd (hfired t ht) (not_le.2 (hall m t (expr.isMinute m hm) hle ht))
    exact (Set.encard_le_encard hsub).trans_lt (hs stretch hstretch)

theorem exists_nextIn_occurrences (ho : o ∈ zone.occurrences expr) (hlt : after < o) :
    ∃ o', NextIn (zone.occurrences expr) after o' := by
  let S : Set Time := {m | m ∈ expr.matching ∧ ∃ t, resolveLocal m zone = .ok t ∧ after < t}
  have hS : ∀ m ∈ S, IsMinute m := fun m hm => expr.isMinute m hm.1
  have hlater : ∀ m ∈ S, zone.toLocal after < m := by
    rintro m ⟨hm, t, ht, hat⟩
    exact not_le.1 fun hle => absurd (resolveLocal_le (expr.isMinute m hm) hle ht) (not_le.2 hat)
  obtain ⟨m, hm, hresolve⟩ := mem_occurrences.1 ho
  have hmS : m ∈ S := ⟨hm, o, hresolve, hlt⟩
  obtain ⟨m', hnext⟩ := exists_nextIn hS hmS (hlater m hmS)
  obtain ⟨hm', o', ho', hafter⟩ := hnext.mem
  refine ⟨o', ⟨mem_occurrences.2 ⟨m', hm', ho'⟩, hafter⟩, fun x hx => ?_⟩
  obtain ⟨y, hy, hyx⟩ := mem_occurrences.1 hx.1
  have hyS : y ∈ S := ⟨hy, x, hyx, hx.2⟩
  exact resolveLocal_mono (expr.isMinute m' hm') (expr.isMinute y hy)
    (hnext.le hyS (hlater y hyS)) ho' hyx

section

variable {zones : String → Option Zone} {timezone : String}

theorem lt_of_nextOccurrence (h : nextOccurrence zones expr timezone after = .ok o) :
    after < o := by
  obtain ⟨zone, -, h⟩ := bind_eq_ok.1 h
  exact lt_of_searchFrom h

variable (hz : validateTimezone zones timezone = .ok zone) (hs : zone.Sparse expr)
include hz hs

theorem nextOccurrence_eq : nextOccurrence zones expr timezone after = .ok o
    ↔ NextIn (zone.occurrences expr) after o := by
  rw [nextOccurrence, hz]
  refine searchFrom_eq (fun m hm hle t ht => ?_) (passed_lt hs after)
  exact resolveLocal_le (expr.isMinute m hm) hle ht

theorem nextOccurrences_eq {out : List Time} :
    nextOccurrences zones expr timezone after n = .ok out
      ↔ out.length = n ∧ (after :: out).IsChain (NextIn (zone.occurrences expr)) := by
  induction n generalizing after out with
  | zero =>
    rw [nextOccurrences, ok.injEq, length_eq_zero_iff]
    exact ⟨fun h => h ▸ ⟨rfl, .singleton after⟩, fun h => h.1.symm⟩
  | succ n ih =>
    simp only [nextOccurrences, bind_eq_ok, nextOccurrence_eq hz hs, ih, ok.injEq]
    constructor
    · rintro ⟨cursor, hnext, rest, ⟨hlength, hchain⟩, rfl⟩
      exact ⟨congrArg Nat.succ hlength, isChain_cons_cons.2 ⟨hnext, hchain⟩⟩
    · rintro ⟨hlength, hchain⟩
      cases out with
      | nil => exact absurd hlength nofun
      | cons cursor rest =>
        obtain ⟨hnext, hrest⟩ := isChain_cons_cons.1 hchain
        exact ⟨cursor, hnext, rest, ⟨Nat.succ.inj hlength, hrest⟩, rfl⟩

theorem exists_nextOccurrences (hmore : ∀ t, ∃ o ∈ zone.occurrences expr, t < o) (n : ℕ) :
    ∃ out, nextOccurrences zones expr timezone after n = .ok out := by
  induction n generalizing after with
  | zero => exact ⟨[], rfl⟩
  | succ n ih =>
    obtain ⟨o, ho, hlt⟩ := hmore after
    obtain ⟨cursor, hnext⟩ := exists_nextIn_occurrences ho hlt
    obtain ⟨rest, hrest⟩ := @ih cursor
    refine ⟨cursor :: rest, ?_⟩
    rw [nextOccurrences]
    exact bind_eq_ok.2 ⟨cursor, (nextOccurrence_eq hz hs).2 hnext, bind_eq_ok.2 ⟨rest, hrest, rfl⟩⟩

theorem latestFrom_isGreatest {start now latest : Time}
    (hn : {x | x ∈ zone.occurrences expr ∧ start < x ∧ x ≤ now}.encard < n)
    (hstart : start ∈ zone.occurrences expr) (hle : start ≤ now)
    (h : latestFrom zones expr timezone now n start = .ok latest) :
    start ≤ latest ∧ IsGreatest {x | x ∈ zone.occurrences expr ∧ x ≤ now} latest := by
  induction n generalizing start with
  | zero => simp at hn
  | succ n ih =>
    rw [latestFrom] at h
    obtain ⟨next, hnext, h⟩ := bind_eq_ok.1 h
    have hnext := (nextOccurrence_eq hz hs).1 hnext
    split_ifs at h with hlate
    · obtain rfl := ok.inj h
      refine ⟨le_rfl, ⟨hstart, hle⟩, fun x hx => (hnext.lt_iff hx.1).1 (hx.2.trans_lt hlate)⟩
    · have hnow := not_lt.1 hlate
      obtain ⟨hstep, hgreatest⟩ := ih (hnext.encard_lt hnow hn) hnext.mem hnow h
      exact ⟨hnext.lt.le.trans hstep, hgreatest⟩

omit hz hs

/-- `next_occurrence` is the least occurrence after a time, and returns one if there is any;
`next_occurrences` goes on in order and leaves none out. -/
theorem nextOccurrence_isLeast (hz : validateTimezone zones timezone = .ok zone)
    (hs : zone.Sparse expr) :
    (∀ after o, nextOccurrence zones expr timezone after = .ok o
      ↔ IsLeast {x | x ∈ zone.occurrences expr ∧ after < x} o)
    ∧ (∀ after, ∀ x ∈ zone.occurrences expr, after < x →
      ∃ o, nextOccurrence zones expr timezone after = .ok o)
    ∧ (∀ after n out, nextOccurrences zones expr timezone after n = .ok out →
      out.length = n ∧ out.Pairwise (· < ·) ∧ (∀ o ∈ out, o ∈ zone.occurrences expr ∧ after < o)
      ∧ ∀ last ∈ out.getLast?, ∀ x ∈ zone.occurrences expr, after < x → x ≤ last → x ∈ out)
    ∧ ((∀ t, ∃ x ∈ zone.occurrences expr, t < x) →
      ∀ after n, ∃ out, nextOccurrences zones expr timezone after n = .ok out) := by
  refine ⟨fun after o => nextOccurrence_eq hz hs, fun after x hx hlt => ?_, fun after n out h => ?_,
    fun hmore after n => exists_nextOccurrences hz hs hmore n⟩
  · obtain ⟨o, ho⟩ := exists_nextIn_occurrences hx hlt
    exact ⟨o, (nextOccurrence_eq hz hs).2 ho⟩
  · obtain ⟨hlength, hchain⟩ := (nextOccurrences_eq hz hs).1 h
    obtain ⟨hafter, hpairwise⟩ := pairwise_cons.1 (NextIn.pairwise_of_chain hchain)
    refine ⟨hlength, hpairwise, fun o ho => ⟨NextIn.subset_of_chain hchain o ho, hafter o ho⟩, ?_⟩
    exact fun last hlast x hx hlt hle => NextIn.mem_of_chain hchain x hx hlt last hlast hle

end

def daily (start : ℕ) : Expression where
  matching := {m | ∃ day : ℤ, m = minute * (1440 * day + start)}
  isMinute := by
    rintro m ⟨day, rfl⟩
    exact isMinute_iff.2 ⟨1440 * day + start, by push_cast; rfl⟩
  getNext t := some (minute * (1440 * (⌊(t / minute - start) / 1440⌋ + 1) + start))
  getNext_eq t m := by
    have hnext : NextIn {m | ∃ day : ℤ, m = minute * (1440 * day + start)} t
        (minute * (1440 * (⌊(t / minute - start) / 1440⌋ + 1) + start)) := by
      refine ⟨⟨⟨⌊(t / minute - start) / 1440⌋ + 1, by push_cast; rfl⟩, ?_⟩, ?_⟩
      · have := Int.lt_floor_add_one ((t / minute - start) / 1440)
        rw [minute] at *
        linarith
      · rintro x ⟨⟨day, rfl⟩, hlt⟩
        have hday : (t / minute - start) / 1440 < day := by
          rw [minute] at *
          linarith
        have : (⌊(t / minute - start) / 1440⌋ : Time) + 1 ≤ day := by
          exact_mod_cast Int.add_one_le_iff.2 (Int.floor_lt.2 hday)
        rw [minute] at *
        linarith
    rw [Option.some.injEq]
    exact ⟨fun h => h ▸ hnext, fun h => hnext.unique h⟩

/-- The clock goes forward on March 8 at 07:00 UTC and back on November 1 at 06:00 UTC. -/
def newYork : Zone where
  offset := -18000
  transitions := [⟨1772953200, -14400⟩, ⟨1793512800, -18000⟩]
  apart := by simp [WallClock.Apart]; norm_num
  gaps := by
    norm_num [WallClock.skipped, minute]
    decide +kernel

theorem newYork_sparse : newYork.Sparse (daily 90) := by
  intro stretch hstretch
  have heq : stretch = (1793494800, 1793498400) := by
    norm_num [newYork, WallClock.repeated] at hstretch
    exact hstretch
  subst heq
  refine (Set.encard_le_one_iff.2 ?_).trans_lt (by norm_num)
  rintro _ _ ⟨⟨i, rfl⟩, hi⟩ ⟨⟨j, rfl⟩, hj⟩
  obtain rfl : i = j := by
    rw [minute] at hi hj
    have hlt : (i : Time) < j + 1 := by linarith
    have hgt : (j : Time) < i + 1 := by linarith
    have hij : i < j + 1 := by exact_mod_cast hlt
    have hji : j < i + 1 := by exact_mod_cast hgt
    omega
  rfl

/-- At 01:10 for the second time that night, 01:30 has had its first and only turn. -/
theorem nextOccurrence_repeated :
    IsLeast {x | x ∈ newYork.occurrences (daily 90) ∧ 1793513400 < x} 1793601000 := by
  have hz : validateTimezone (fun _ => some newYork) "America/New_York" = .ok newYork := by
    rw [validateTimezone, if_neg (by decide), if_pos (by decide)]
  have hvalue : (nextOccurrence (fun _ => some newYork) (daily 90) "America/New_York"
      1793513400).toOption = some 1793601000 := by decide +kernel
  refine ((nextOccurrence_isLeast hz newYork_sparse).1 1793513400 1793601000).1 ?_
  cases hnext : nextOccurrence (fun _ => some newYork) (daily 90) "America/New_York" 1793513400 with
  | error =>
    rw [hnext] at hvalue
    exact absurd hvalue nofun
  | ok =>
    rw [hnext] at hvalue
    exact congrArg _ (Option.some.inj hvalue)

end Crewquarters
