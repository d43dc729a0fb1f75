import Crewquarters.Pagination

/-!
# Following the cursors misses and repeats nothing

A cursor decodes to the key it was made of, so each request goes on behind the last key received.
-/

namespace Crewquarters.Pagination

open List

theorem value_symbol : ∀ n < 64, value (symbol n) = some n ∧ symbol n ≠ '=' ∧
    (symbol n).val < 128 := by
  decide +kernel

section Symbol
variable {n : ℕ} {left : ℕ} {rest : List Char} (hn : n < 64)
include hn

theorem decode_first : b64decode 0 left 0 (symbol n :: rest) = b64decode 1 n 0 rest := by
  obtain ⟨hv, he, -⟩ := value_symbol n hn
  simp [b64decode, he, hv]

theorem decode_second {a : UInt8} (h : left * 4 + n / 16 = a.toNat) :
    b64decode 1 left 0 (symbol n :: rest) = (b64decode 2 (n % 16) 0 rest).map (a :: ·) := by
  obtain ⟨hv, he, -⟩ := value_symbol n hn
  simp only [b64decode, he, hv, h, if_false, UInt8.ofNat_toNat]

theorem decode_third {a : UInt8} (h : left * 16 + n / 4 = a.toNat) :
    b64decode 2 left 0 (symbol n :: rest) = (b64decode 3 (n % 4) 0 rest).map (a :: ·) := by
  obtain ⟨hv, he, -⟩ := value_symbol n hn
  simp only [b64decode, he, hv, h, if_false, UInt8.ofNat_toNat]

theorem decode_fourth {a : UInt8} (h : left * 64 + n = a.toNat) :
    b64decode 3 left 0 (symbol n :: rest) = (b64decode 0 0 0 rest).map (a :: ·) := by
  obtain ⟨hv, he, -⟩ := value_symbol n hn
  simp only [b64decode, he, hv, h, if_false, UInt8.ofNat_toNat]

end Symbol

theorem decode_encode (bytes : List UInt8) : b64decode 0 0 0 (b64encode bytes) = some bytes := by
  fun_induction b64encode bytes with
  | case1 => rfl
  | case2 a =>
    have ha := a.toNat_lt
    rw [decode_first (by omega), decode_second (a := a) (by omega) (by omega)]
    rfl
  | case3 a b =>
    have ha := a.toNat_lt
    have hb := b.toNat_lt
    rw [decode_first (by omega), decode_second (a := a) (by omega) (by omega),
      decode_third (a := b) (by omega) (by omega)]
    rfl
  | case4 a b c rest ih =>
    have ha := a.toNat_lt
    have hb := b.toNat_lt
    have hc := c.toNat_lt
    rw [decode_first (by omega), decode_second (a := a) (by omega) (by omega),
      decode_third (a := b) (by omega) (by omega),
      decode_fourth (a := c) (by omega) (by omega), ih]
    rfl

/-- An encoding is whole groups, its symbols before at most two pads. -/
theorem encode_shape (bytes : List UInt8) : ∃ body k, b64encode bytes = body ++ replicate k '=' ∧
    k ≤ 2 ∧ (body.length + k) % 4 = 0 ∧ ∀ c ∈ body, c ≠ '=' ∧ c.val < 128 := by
  have h {n : ℕ} (hn : n < 64) := (value_symbol n hn).2
  fun_induction b64encode bytes with
  | case1 => exact ⟨[], 0, by simp⟩
  | case2 a =>
    have ha := a.toNat_lt
    exact ⟨[_, _], 2, rfl, le_rfl, by simp,
      by simp only [forall_mem_cons]; exact ⟨h (by omega), h (by omega), by simp⟩⟩
  | case3 a b =>
    have ha := a.toNat_lt
    have hb := b.toNat_lt
    exact ⟨[_, _, _], 1, rfl, by simp, by simp,
      by simp only [forall_mem_cons]; exact ⟨h (by omega), h (by omega), h (by omega), by simp⟩⟩
  | case4 a b c rest ih =>
    have ha := a.toNat_lt
    have hb := b.toNat_lt
    have hc := c.toNat_lt
    obtain ⟨body, k, heq, hk, hlen, hall⟩ := ih
    refine ⟨_ :: _ :: _ :: _ :: body, k, by rw [heq]; rfl, hk,
      by simp only [length_cons]; omega, ?_⟩
    simp only [forall_mem_cons]
    exact ⟨h (by omega), h (by omega), h (by omega), h (by omega), hall⟩

theorem decode_cursor {text : List Char} (h : text ≠ []) :
    decodeTextCursor (some (encodeTextCursor text)) = .ok (some text) := by
  obtain ⟨body, k, heq, hk, hlen, hall⟩ := encode_shape (text.flatMap String.utf8EncodeChar)
  have hcursor : encodeTextCursor text = body := by
    rw [encodeTextCursor, heq, rdropWhile, reverse_append, reverse_replicate,
      dropWhile_append_of_pos (by simp), dropWhile_eq_self_iff.2, reverse_reverse]
    intro hl
    simpa using (hall _ (mem_reverse.1 (getElem_mem hl))).1
  have hpad : body ++ replicate ((4 - body.length % 4) % 4) '='
      = b64encode (text.flatMap String.utf8EncodeChar) := by
    rw [heq, show (4 - body.length % 4) % 4 = k by omega]
  have hascii : (b64encode (text.flatMap String.utf8EncodeChar)).all (·.val < 128) = true := by
    rw [heq, all_append, all_replicate, Bool.and_eq_true, all_eq_true]
    exact ⟨fun c hc => decide_eq_true (hall c hc).2, by split <;> decide⟩
  have hbody : body ≠ [] := by
    rintro rfl
    have hz : k = 0 := by simp only [length_nil] at hlen; omega
    have hd := decode_encode (text.flatMap String.utf8EncodeChar)
    rw [heq, hz] at hd
    obtain ⟨c, hc⟩ := exists_mem_of_ne_nil _ h
    have hnil := flatMap_eq_nil_iff.1 (Option.some.inj hd).symm c hc
    have hpos := c.utf8Size_pos
    rw [← String.length_utf8EncodeChar, hnil] at hpos
    exact hpos.false
  rw [hcursor, decodeTextCursor]
  · simp only [hpad, hascii, if_true, decode_encode, Option.bind_some]
    rw [← List.utf8Encode, utf8Decode?_utf8Encode]
  · exact hbody

variable {α : Type} (key : α → List Char) (limit : ℤ)

/-- What a request looks for: the keys behind its cursor's. -/
def Behind (after : Option (List Char)) (k : List Char) : Prop := ∀ x ∈ after, x < k

section Page
variable {items : List α} (hd : (items.map key).Nodup) {after : Option (List Char)}
include hd

theorem sorted_ordered (p : α → Bool) :
    (((items.insertionSort fun a b => key a ≤ key b).filter p).map key).Pairwise (· < ·) := by
  have hs := pairwise_insertionSort (fun a b => key a ≤ key b) items
  have hn := ((perm_insertionSort (fun a b => key a ≤ key b) items).map key).nodup_iff.2 hd
  rw [pairwise_map]
  exact ((hs.and (pairwise_map.1 hn)).imp fun h => lt_of_le_of_ne h.1 h.2).filter p

theorem page_ordered (ha : ∀ k ∈ after, k ≠ []) : ∃ ordered : List α,
    (∀ i, i ∈ ordered ↔ i ∈ items ∧ Behind after (key i)) ∧ (ordered.map key).Pairwise (· < ·) ∧
    pageInMemory key items limit (after.map encodeTextCursor)
      = .ok (ordered.take (clampLimit limit), if clampLimit limit < ordered.length then
        (ordered.take (clampLimit limit)).getLast?.map fun i => encodeTextCursor (key i)
        else none) := by
  rcases after with _ | k
  · have hs := sorted_ordered key hd fun _ => true
    rw [filter_true] at hs
    exact ⟨_, by simp [Behind], hs, rfl⟩
  · rw [pageInMemory, Option.map_some, decode_cursor (ha k rfl)]
    exact ⟨_, by simp [Behind], sorted_ordered key hd fun i => k < key i, rfl⟩

/-- A page is in order behind the cursor, and has all of the list up to the next cursor's key. -/
theorem page_in_memory (ha : ∀ k ∈ after, k ≠ []) : ∃ page, ∃ last : Option (List Char),
    pageInMemory key items limit (after.map encodeTextCursor)
      = .ok (page, last.map encodeTextCursor) ∧ (page.map key).Pairwise (· < ·) ∧
    (∀ i ∈ page, i ∈ items ∧ Behind after (key i) ∧ ∀ k ∈ last, key i ≤ k) ∧
    (∀ k ∈ last, k ∈ page.map key) ∧
    ∀ i ∈ items, Behind after (key i) → (∀ k ∈ last, key i ≤ k) → i ∈ page := by
  obtain ⟨ordered, hmem, hsort, hpage⟩ := page_ordered key limit hd ha
  rw [hpage]
  rcases le_or_gt ordered.length (clampLimit limit) with hl | hl
  · rw [if_neg hl.not_gt, take_of_length_le hl]
    exact ⟨ordered, none, rfl, hsort, fun i hi => ⟨((hmem i).1 hi).1, ((hmem i).1 hi).2, by simp⟩,
      by simp, fun i hi hb _ => (hmem i).2 ⟨hi, hb⟩⟩
  · have hpos : 0 < clampLimit limit := by unfold clampLimit; omega
    have hsplit := take_append_drop (clampLimit limit) ordered
    obtain ⟨init, l, hinit⟩ := (eq_nil_or_concat' (ordered.take (clampLimit limit))).resolve_left
      (ne_nil_of_length_pos (by rw [length_take]; omega))
    rw [if_pos hl, hinit]
    rw [hinit] at hsplit
    rw [← hsplit, map_append, pairwise_append] at hsort
    have hlast : ∀ i ∈ init ++ [l], key i ≤ key l := by
      intro i hi
      rcases mem_append.1 hi with hi | hi
      · have := hsort.1
        rw [map_append, pairwise_append] at this
        exact (this.2.2 _ (mem_map_of_mem hi) _ (by simp)).le
      · rw [mem_singleton.1 hi]
    refine ⟨init ++ [l], some (key l), by simp, hsort.1, fun i hi => ?_, by simp, ?_⟩
    · have := (hmem i).1 (hsplit ▸ mem_append_left _ hi)
      exact ⟨this.1, this.2, by simpa using hlast i hi⟩
    · intro i hi hb hk
      rcases mem_append.1 (hsplit ▸ (hmem i).2 ⟨hi, hb⟩) with h | h
      · exact h
      · have := hsort.2.2 (key l) (by simp) _ (mem_map_of_mem h)
        exact absurd (hk _ rfl) this.not_ge

end Page

theorem follow_behind {lists : List (List α)}
    (hl : ∀ items ∈ lists, (items.map key).Nodup ∧ ∀ i ∈ items, key i ≠ [])
    (after : Option (List Char)) (ha : ∀ k ∈ after, k ≠ []) :
    ∃ pages ended, follow key limit lists (after.map encodeTextCursor) = .ok (pages, ended) ∧
      (pages.flatten.map key).Pairwise (· < ·) ∧ (∀ i ∈ pages.flatten, Behind after (key i)) ∧
      (ended → ∀ a, (∀ items ∈ lists.take pages.length, a ∈ items) → Behind after (key a) →
        a ∈ pages.flatten) := by
  induction lists generalizing after with
  | nil => exact ⟨[], false, rfl, by simp⟩
  | cons items lists ih =>
    obtain ⟨⟨hd, he⟩, hl⟩ := forall_mem_cons.1 hl
    obtain ⟨page, last, hpage, hsort, hin, hlast, hall⟩ := page_in_memory key limit hd ha
    rw [follow, hpage]
    rcases last with _ | k
    · refine ⟨[page], true, rfl, by simpa using hsort,
        by simpa using fun i hi => (hin i hi).2.1, ?_⟩
      intro _ a hm hb
      simpa using hall a (by simpa using hm) hb (by simp)
    · obtain ⟨l, hlp, rfl⟩ := mem_map.1 (hlast k rfl)
      obtain ⟨pages, ended, hf, hs, hb, hr⟩ := ih hl (some (key l))
        (by simpa using he l (hin l hlp).1)
      rw [Option.map_some] at hf ⊢
      refine ⟨page :: pages, ended, by simp [hf, bind, Except.bind], ?_, ?_, ?_⟩
      · rw [flatten_cons, map_append, pairwise_append]
        refine ⟨hsort, hs, ?_⟩
        simp only [mem_map, forall_exists_index, and_imp, forall_apply_eq_imp_iff₂]
        exact fun i hi j hj => ((hin i hi).2.2 _ rfl).trans_lt (hb j hj _ rfl)
      · intro i hi x hx
        rcases mem_append.1 hi with hi | hi
        · exact (hin i hi).2.1 x hx
        · exact ((hin l hlp).2.1 x hx).trans (hb i hi _ rfl)
      · intro hend a hm hba
        rw [length_cons, take_succ_cons, forall_mem_cons] at hm
        rcases le_or_gt (key a) (key l) with h | h
        · exact mem_append_left _ (hall a hm.1 hba (by simpa using h))
        · exact mem_append_right _ (hr hend a hm.2 (by simpa [Behind] using h))

/-- A client that follows the cursors gets the items in order, each at most once, and those that
were there all along, although the list changes between its requests. -/
theorem follow_increasing_once (lists : List (List α))
    (hl : ∀ items ∈ lists, (items.map key).Nodup ∧ ∀ i ∈ items, key i ≠ []) :
    ∃ pages ended, follow key limit lists none = .ok (pages, ended) ∧
      (pages.flatten.map key).Pairwise (· < ·) ∧
      (ended → ∀ a, (∀ items ∈ lists.take pages.length, a ∈ items) →
        a ∈ pages.flatten ∧ (pages.flatten.map key).count (key a) = 1) := by
  obtain ⟨pages, ended, hf, hs, -, hr⟩ := follow_behind key limit hl none (by simp)
  refine ⟨pages, ended, hf, hs, fun hend a hm => ?_⟩
  have hmem := hr hend a hm (by simp [Behind])
  exact ⟨hmem, count_eq_one_of_mem (hs.imp ne_of_lt) (mem_map_of_mem hmem)⟩

theorem follow_increasing_once_ca : ∃ pages ended,
    follow id 1 [["c".toList, "a".toList], ["c".toList]] none = .ok (pages, ended) ∧
      (pages.flatten.map id).Pairwise (· < ·) ∧
      (ended → ∀ a, (∀ items ∈ [["c".toList, "a".toList], ["c".toList]].take pages.length,
        a ∈ items) → a ∈ pages.flatten ∧ (pages.flatten.map id).count (id a) = 1) :=
  follow_increasing_once id 1 _ (by decide)

end Crewquarters.Pagination
