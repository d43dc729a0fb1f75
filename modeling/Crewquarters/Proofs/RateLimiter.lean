import Crewquarters.RateLimiter

/-!
# A sliding window

The hits of a key are the calls it was granted, but for some that are out of the window. So a call
is refused when the window behind it is full, and the hits stay as they are until a call is granted.
-/

namespace Crewquarters

open List

namespace RateLimiter

variable {κ : Type*} [DecidableEq κ] {L : RateLimiter} {calls : List (κ × ℚ)} {key : κ} {now : ℚ}

/-- The hits are the granted calls that are still in the window. -/
structure Tracks (L : RateLimiter) (now : ℚ) (hits granted : List ℚ) : Prop where
  gone : ∃ old, granted = old ++ hits ∧ ∀ t ∈ old, L.window < now - t
  past : ∀ t ∈ granted, t ≤ now
  sorted : granted.Pairwise (· ≤ ·)
  few : hits.length ≤ L.limit
  spread : ∀ x, granted.countP (fun t => x ≤ t ∧ t ≤ x + L.window) ≤ L.limit

theorem served_append (calls : List (κ × ℚ)) (key : κ) (now : ℚ) :
    L.served (calls ++ [(key, now)]) = (L.allow key now (L.served calls)).2 := by
  simp [served]

theorem allow_of_ne {key' : κ} (h : key ≠ key') (s : Limiting κ) :
    (L.allow key' now s).2.hits key = s.hits key
      ∧ (L.allow key' now s).2.granted key = s.granted key := by
  simp only [allow]
  split_ifs <;> simp [h]

theorem allow_cases (key : κ) (now : ℚ) (s : Limiting κ) :
    (L.limit ≤ (L.kept now (s.hits key)).length ∧ (L.allow key now s).1 = false
      ∧ (L.allow key now s).2.hits key = L.kept now (s.hits key)
      ∧ (L.allow key now s).2.granted key = s.granted key)
    ∨ ((L.kept now (s.hits key)).length < L.limit ∧ (L.allow key now s).1 = true
      ∧ (L.allow key now s).2.hits key = L.kept now (s.hits key) ++ [now]
      ∧ (L.allow key now s).2.granted key = s.granted key ++ [now]) := by
  simp only [allow]
  split_ifs with h
  · exact .inl ⟨h, rfl, by simp, rfl⟩
  · exact .inr ⟨not_le.1 h, rfl, by simp, by simp⟩

theorem allowed_iff : L.allowed calls key now = true
    ↔ (L.kept now ((L.served calls).hits key)).length < L.limit := by
  rw [allowed]
  rcases allow_cases (L := L) key now (L.served calls) with ⟨h, hanswer, -⟩ | ⟨h, hanswer, -⟩
  · simpa [hanswer] using h
  · simpa [hanswer] using h

theorem limit_le_of_not_allowed (h : L.allowed calls key now = false) :
    L.limit ≤ (L.kept now ((L.served calls).hits key)).length := by
  by_contra hroom
  exact Bool.false_ne_true (h ▸ allowed_iff.2 (not_le.1 hroom))

namespace Tracks

variable {hits granted : List ℚ} {last : ℚ}

/-- The hits that are popped are out of the window; those that are left are the last. -/
theorem kept (h : Tracks L last hits granted) (hle : last ≤ now) :
    Tracks L now (L.kept now hits) granted := by
  obtain ⟨old, rfl, hold⟩ := h.gone
  refine ⟨⟨old ++ hits.takeWhile fun hit => L.window < now - hit, ?_, ?_⟩,
    fun t ht => (h.past t ht).trans hle, h.sorted, ?_, h.spread⟩
  · rw [append_assoc, RateLimiter.kept, takeWhile_append_dropWhile]
  · intro t ht
    rcases mem_append.1 ht with ht | ht
    · have hout := hold t ht
      linarith
    · simpa using mem_takeWhile_imp ht
  · exact (dropWhile_sublist _).length_le.trans h.few

/-- What is in a window that ends at the last time is among the hits. -/
theorem countP_le (h : Tracks L now hits granted) {x : ℚ} (hx : now ≤ x + L.window) :
    granted.countP (fun t => x ≤ t ∧ t ≤ x + L.window) ≤ hits.length := by
  obtain ⟨old, rfl, hold⟩ := h.gone
  have hnone : old.countP (fun t => x ≤ t ∧ t ≤ x + L.window) = 0 := by
    rw [countP_eq_zero]
    intro t ht hin
    have hout := hold t ht
    have hx' := (of_decide_eq_true hin).1
    linarith
  rw [countP_append, hnone, zero_add]
  exact countP_le_length

/-- What is left is in the window behind `now`: the first is, and the hits are sorted. -/
theorem length_kept_le (h : Tracks L last hits granted) (hle : last ≤ now) :
    (L.kept now hits).length
      ≤ granted.countP (fun t => now - L.window ≤ t ∧ t ≤ now) := by
  obtain ⟨old, hsplit, -⟩ := (h.kept hle).gone
  have hsorted := h.sorted
  have hpast := (h.kept hle).past
  rw [hsplit, pairwise_append] at hsorted
  suffices hall : (L.kept now hits).countP (fun t => now - L.window ≤ t ∧ t ≤ now)
      = (L.kept now hits).length by
    rw [hsplit, countP_append, hall]
    exact Nat.le_add_left _ _
  rw [countP_eq_length]
  intro t ht
  refine decide_eq_true ⟨?_, hpast t (hsplit ▸ mem_append_right _ ht)⟩
  have hhead := head?_dropWhile_not (fun hit => decide (L.window < now - hit)) hits
  rw [← RateLimiter.kept] at hhead
  cases hkept : L.kept now hits with
  | nil => simp [hkept] at ht
  | cons first =>
    have hfirst : now - first ≤ L.window := by simpa [hkept] using hhead
    rw [hkept] at ht hsorted
    rcases mem_cons.1 ht with rfl | ht
    · linarith
    · have hfirst_le := rel_of_pairwise_cons hsorted.2.1 ht
      linarith

theorem grant (h : Tracks L now hits granted) (hroom : hits.length < L.limit) :
    Tracks L now (hits ++ [now]) (granted ++ [now]) := by
  obtain ⟨old, hsplit, hold⟩ := h.gone
  refine ⟨⟨old, by rw [hsplit, append_assoc], hold⟩, ?_, ?_, ?_, fun x => ?_⟩
  · simpa [or_imp, forall_and] using h.past
  · rw [pairwise_append]
    exact ⟨h.sorted, pairwise_singleton _ _, by simpa using h.past⟩
  · simpa using hroom
  · rw [countP_append]
    by_cases hx : x ≤ now ∧ now ≤ x + L.window
    · have hcount := h.countP_le hx.2
      rw [countP_singleton, if_pos (decide_eq_true hx)]
      omega
    · simpa [hx] using h.spread x

end Tracks

variable (L) in
theorem tracks_served (calls : List (κ × ℚ)) (hclock : (calls.map Prod.snd).Pairwise (· ≤ ·))
    (hnow : ∀ c ∈ calls, c.2 ≤ now) (key : κ) :
    Tracks L now ((L.served calls).hits key) ((L.served calls).granted key) := by
  induction calls using List.reverseRecOn generalizing now with
  | nil =>
    exact ⟨⟨[], rfl, by simp⟩, by simp [served], by simp [served], by simp [served],
      by simp [served]⟩
  | append_singleton calls call ih =>
    obtain ⟨key', time⟩ := call
    rw [map_append, pairwise_append] at hclock
    have hbefore : ∀ c ∈ calls, c.2 ≤ time := fun c hc =>
      hclock.2.2 _ (mem_map_of_mem hc) _ (by simp)
    have htime : time ≤ now := hnow (key', time) (by simp)
    have hold := ih hclock.1 hbefore
    suffices h : Tracks L time ((L.allow key' time (L.served calls)).2.hits key)
        ((L.allow key' time (L.served calls)).2.granted key) by
      rw [served_append]
      obtain ⟨old, hsplit, hgone⟩ := h.gone
      exact ⟨⟨old, hsplit, fun t ht => by have := hgone t ht; linarith⟩,
        fun t ht => (h.past t ht).trans htime, h.sorted, h.few, h.spread⟩
    by_cases hkey : key = key'
    · subst hkey
      rcases allow_cases (L := L) key time (L.served calls) with
        ⟨-, -, hhits, hgranted⟩ | ⟨hroom, -, hhits, hgranted⟩ <;> rw [hhits, hgranted]
      · exact hold.kept le_rfl
      · exact (hold.kept le_rfl).grant hroom
    · rw [(allow_of_ne hkey _).1, (allow_of_ne hkey _).2]
      exact hold

/-- Other keys' calls do not matter. -/
theorem served_filter (calls : List (κ × ℚ)) (key : κ) :
    (L.served (calls.filter fun c => c.1 = key)).hits key = (L.served calls).hits key := by
  induction calls using List.reverseRecOn with
  | nil => rfl
  | append_singleton calls call ih =>
    obtain ⟨key', time⟩ := call
    rw [served_append]
    by_cases hkey : key = key'
    · subst hkey
      rw [filter_append, filter_cons_of_pos (by simp), filter_nil, served_append]
      simp only [allow, ih]
      split_ifs <;> simp
    · rw [(allow_of_ne hkey _).1, filter_append, filter_cons_of_neg (by simpa using Ne.symm hkey),
        filter_nil, append_nil, ih]

theorem granted_grows (calls more : List (κ × ℚ)) (key : κ) :
    (L.served calls).granted key <+: (L.served (calls ++ more)).granted key := by
  induction more using List.reverseRecOn with
  | nil => simp
  | append_singleton more call ih =>
    obtain ⟨key', time⟩ := call
    rw [← append_assoc, served_append]
    by_cases hkey : key = key'
    · subst hkey
      rcases allow_cases (L := L) key time (L.served (calls ++ more)) with
        ⟨-, -, -, hgranted⟩ | ⟨-, -, -, hgranted⟩ <;> rw [hgranted]
      · exact ih
      · exact ih.trans (prefix_append _ _)
    · rwa [(allow_of_ne hkey _).2]

theorem granted_eq_of_append {more later : List (κ × ℚ)}
    (h : (L.served (calls ++ more ++ later)).granted key = (L.served calls).granted key) :
    (L.served (calls ++ more)).granted key = (L.served calls).granted key := by
  have hle := (granted_grows (L := L) (calls ++ more) later key).length_le
  rw [h] at hle
  exact ((granted_grows calls more key).eq_of_length_le hle).symm

theorem kept_eq {hits : List ℚ} (hfew : hits.length ≤ L.limit)
    (hfull : L.limit ≤ (L.kept now hits).length) : L.kept now hits = hits :=
  (dropWhile_suffix _).eq_of_length_le (hfew.trans hfull)

/-- While a full key is granted nothing, its hits stay as they are. -/
theorem hits_eq {more : List (κ × ℚ)} (hfull : ((L.served calls).hits key).length = L.limit)
    (hsame : (L.served (calls ++ more)).granted key = (L.served calls).granted key) :
    (L.served (calls ++ more)).hits key = (L.served calls).hits key := by
  induction more using List.reverseRecOn with
  | nil => rw [append_nil]
  | append_singleton more call ih =>
    obtain ⟨key', time⟩ := call
    rw [← append_assoc, served_append] at hsame ⊢
    by_cases hkey : key = key'
    · subst hkey
      have hgrown := (granted_grows (L := L) calls more key).length_le
      rcases allow_cases (L := L) key time (L.served (calls ++ more)) with
        ⟨hless, -, hhits, hgranted⟩ | ⟨-, -, -, hgranted⟩
      · have hbefore := ih (hgranted.symm.trans hsame)
        rw [hhits, kept_eq (hbefore ▸ hfull.le) hless, hbefore]
      · have hlength := congrArg List.length (hgranted.symm.trans hsame)
        rw [length_append, length_singleton] at hlength
        omega
    · rw [(allow_of_ne hkey _).2] at hsame
      rw [(allow_of_ne hkey _).1, ih hsame]

omit [DecidableEq κ] in
/-- A wait of `retryAfter` takes the first of the hits out of the window. -/
theorem window_lt_of_retryAfter {s : Limiting κ} {first time : ℚ} {rest : List ℚ}
    (hhits : s.hits key = first :: rest) (hwait : time + L.retryAfter key time s ≤ now) :
    L.window < now - first := by
  have hless : L.window - (time - first) < truncate (L.window - (time - first)) + 1 := by
    rw [truncate]
    split_ifs
    · exact Int.lt_floor_add_one _
    · exact (Int.le_ceil _).trans_lt (lt_add_one _)
  have hmax : ((truncate (L.window - (time - first)) + 1 : ℤ) : ℚ) ≤ L.retryAfter key time s := by
    rw [retryAfter, hhits]
    exact_mod_cast le_max_right _ _
  push_cast at hmax
  linarith

/-- The limiter is an exact sliding window: no closed window holds more than `limit` granted calls;
a call is refused only when the window behind it holds that many; the other keys do not matter; and
once a call is refused, waiting for what `retryAfter` then says is enough if nothing is granted. -/
theorem sliding_window (L : RateLimiter) (hlimit : 1 ≤ L.limit)
    (calls : List (κ × ℚ)) (hclock : (calls.map Prod.snd).Pairwise (· ≤ ·)) (key : κ) :
    (∀ x, ((L.served calls).granted key).countP (fun t => x ≤ t ∧ t ≤ x + L.window) ≤ L.limit)
    ∧ (∀ now, (∀ c ∈ calls, c.2 ≤ now) → L.allowed calls key now = false → L.limit ≤
        ((L.served calls).granted key).countP fun t => now - L.window ≤ t ∧ t ≤ now)
    ∧ (∀ now, L.allowed calls key now = L.allowed (calls.filter fun c => c.1 = key) key now)
    ∧ ∀ refusal asked now meanwhile later, L.allowed calls key refusal = false →
        (L.served (calls ++ (key, refusal) :: (meanwhile ++ later))).granted key
          = (L.served calls).granted key →
        asked + L.retryAfter key asked (L.served (calls ++ (key, refusal) :: meanwhile)) ≤ now →
        L.allowed (calls ++ (key, refusal) :: (meanwhile ++ later)) key now = true := by
  obtain ⟨last, hlast⟩ : ∃ last, ∀ c ∈ calls, c.2 ≤ last := by
    obtain ⟨last, hlast⟩ := (calls.map Prod.snd).toFinset.bddAbove
    exact ⟨last, fun c hc => hlast (by simpa using ⟨c.1, hc⟩)⟩
  have h := tracks_served L calls hclock hlast key
  refine ⟨h.spread, fun now hnow hrefused => ?_, fun now => ?_,
    fun refusal asked now meanwhile later hrefused hsame hwait => ?_⟩
  · exact (limit_le_of_not_allowed hrefused).trans
      ((tracks_served L calls hclock hnow key).length_kept_le le_rfl)
  · rw [Bool.eq_iff_iff, allowed_iff, allowed_iff, served_filter]
  · have hless := limit_le_of_not_allowed hrefused
    have hkept := kept_eq h.few hless
    obtain ⟨hhits, hgranted⟩ : (L.served (calls ++ [(key, refusal)])).hits key
        = (L.served calls).hits key
        ∧ (L.served (calls ++ [(key, refusal)])).granted key = (L.served calls).granted key := by
      rw [served_append]
      rcases allow_cases (L := L) key refusal (L.served calls) with
        ⟨-, -, hhits, hgranted⟩ | ⟨hroom, -⟩
      · exact ⟨hhits.trans hkept, hgranted⟩
      · omega
    rw [hkept] at hless
    have hfull := hhits ▸ le_antisymm h.few hless
    -- the refused call leaves the key full, and so it stays until `now`
    rw [append_cons] at hsame hwait ⊢
    rw [← hgranted, ← append_assoc] at hsame
    have hmeanwhile := hits_eq hfull (granted_eq_of_append hsame)
    have hlater := hits_eq hfull (append_assoc .. ▸ hsame)
    rw [allowed_iff, hlater]
    cases hfirst : (L.served (calls ++ [(key, refusal)])).hits key with
    | nil => simp [hfirst] at hfull; omega
    | cons =>
      have hout := window_lt_of_retryAfter (hmeanwhile.trans hfirst) hwait
      rw [kept, dropWhile_cons_of_pos (by simpa using hout)]
      rw [hfirst, length_cons] at hfull
      exact (dropWhile_sublist _).length_le.trans_lt (by omega)

/-- One attempt in ten seconds: the second is refused, and let in once it has waited. -/
theorem sliding_window_login :
    RateLimiter.allowed ⟨1, 10⟩ [("ip", 0), ("ip", 3)] "ip" 11 = true :=
  (sliding_window ⟨1, 10⟩ le_rfl [("ip", 0)] (by simp) "ip").2.2.2 3 3 11 [] []
    (by decide +kernel) (by decide +kernel) (by decide +kernel)

end RateLimiter

end Crewquarters
