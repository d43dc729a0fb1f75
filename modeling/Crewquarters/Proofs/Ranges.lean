import Mathlib.Data.ENat.Basic
import Mathlib.Data.Nat.Digits.Defs
import Mathlib.Data.Set.Prod
import Mathlib.Tactic
import Crewquarters.Ranges

/-!
# What a range means

A grammar for ranges, with the tab and the set of cells that each denotes. The parser disagrees with
it in two ways only. The `$` of its pattern lets a line break stand before the colon, so that it
reads a range where there is none (`LineBroken`); and it takes a bare text for a range, and refuses
it, that is three references or more or has such a line break in it (`Mistaken`).
-/

namespace Crewquarters

open List Option

variable {name p text written : List Char} {first last ref : List Char × List Char}

/-- The name with its quotes doubled. -/
def doubled (name : List Char) : List Char :=
  name.flatMap fun c => if c = '\'' then ['\'', '\''] else [c]

/-- How a tab is written: as it is, or in quotes. -/
inductive WritesTab : List Char → List Char → Prop
  | plain {name : List Char} : name.head? ≠ some '\'' → WritesTab name name
  | quoted {name : List Char} : WritesTab ('\'' :: (doubled name ++ ['\''])) name

/-- `p` is a reference with these letters and digits. -/
structure IsRef (p : List Char) (ref : List Char × List Char) : Prop where
  text : p = ref.1 ++ ref.2
  given : p ≠ []
  letters : ∀ c ∈ ref.1, c.isAlpha = true
  digits : ∀ c ∈ ref.2, c.isDigit = true
  lengths : ref.1.length ≤ 3 ∧ ref.2.length ≤ 7
  lead : ref.2.head? ≠ some '0'

/-- One reference, or two with a colon between them. -/
def IsCells (text : List Char) (first last : List Char × List Char) : Prop :=
  IsRef text first ∧ last = first ∨ ∃ p q, text = p ++ ':' :: q ∧ IsRef p first ∧ IsRef q last

def columnOf (letters : List Char) : ℕ :=
  Nat.ofDigits 26 (letters.reverse.map fun c => c.toUpper.toNat - 'A'.toNat + 1)

def rowOf (digits : List Char) : ℕ :=
  Nat.ofDigits 10 (digits.reverse.map fun c => c.toNat - '0'.toNat)

def BoundsInOrder (first last : List Char × List Char) : Prop :=
  (first.1 ≠ [] → last.1 ≠ [] → columnOf first.1 ≤ columnOf last.1)
    ∧ (first.2 ≠ [] → last.2 ≠ [] → rowOf first.2 ≤ rowOf last.2)

/-- The cells, by column and row, from one reference to another; missing bounds are open. -/
def cellsBetween (first last : List Char × List Char) : Set (ℕ × ℕ) :=
  {x | 1 ≤ x.1 ∧ 1 ≤ x.2 ∧ (first.1 ≠ [] → columnOf first.1 ≤ x.1)
    ∧ (last.1 ≠ [] → x.1 ≤ columnOf last.1) ∧ (first.2 ≠ [] → rowOf first.2 ≤ x.2)
    ∧ (last.2 ≠ [] → x.2 ≤ rowOf last.2)}

/-- The tab and the cells that a trimmed text denotes; a bare text must not read as cells. -/
inductive Denotes : List Char → List Char → Set (ℕ × ℕ) → Prop
  | tab {written name : List Char} : WritesTab written name → name ≠ [] → '!' ∉ name →
      (written.head? ≠ some '\'' → ∀ first last, ¬ IsCells written first last) →
      Denotes written name {x | 1 ≤ x.1 ∧ 1 ≤ x.2}
  | cells {written name ref : List Char} {first last : List Char × List Char} :
      WritesTab written name → name ≠ [] → '!' ∉ name → IsCells ref first last →
      BoundsInOrder first last → Denotes (written ++ '!' :: ref) name (cellsBetween first last)

/-- A reference, or nothing. -/
def Shaped (p : List Char) (ref : List Char × List Char) : Prop :=
  p = [] ∧ ref = ([], []) ∨ IsRef p ref

/-- A line break stands before the colon of a range that is well formed otherwise, but that its
first reference may be missing. -/
def LineBroken (t : List Char) : Prop :=
  ∃ written name p q first last, WritesTab written name ∧ name ≠ [] ∧ '!' ∉ name
    ∧ t = written ++ '!' :: (p ++ '\n' :: ':' :: q) ∧ Shaped p first ∧ IsRef q last
    ∧ BoundsInOrder first last

/-- The name of a tab, in no quotes, that the parser takes for a range: the pattern matches each
part, but there are more than two or a line break is in it. -/
structure Mistaken (t : List Char) : Prop where
  bare : '!' ∉ t ∧ t.head? ≠ some '\''
  parts : ∀ p ∈ t.splitOn ':', readPart p ≠ none
  odd : 2 < (t.splitOn ':').length ∨ '\n' ∈ t

/-- In the grammar, the request is in the tab that is configured and asks for cells of it. -/
def Inside (casefold : List Char → List Char) (configured requested : List Char) : Prop :=
  ∃ tab cells tab' cells', Denotes (trim configured) tab cells
    ∧ Denotes (trim requested) tab' cells' ∧ casefold tab = casefold tab' ∧ cells' ⊆ cells

theorem readRef_append {letters digits tail : List Char} (hl : ∀ c ∈ letters, c.isAlpha = true)
    (hd : ∀ c ∈ digits, c.isDigit = true) (hlengths : letters.length ≤ 3 ∧ digits.length ≤ 7)
    (hlead : digits.head? ≠ some '0') (htail : tail = [] ∨ tail = ['\n']) :
    readRef (letters ++ (digits ++ tail)) = some (letters, digits) := by
  have hdigit : ∀ c : Char, c.isDigit = true → c.isAlpha = false := by
    intro c hc
    delta Char.isDigit at hc
    delta Char.isAlpha Char.isUpper Char.isLower
    simp only [Bool.and_eq_true, decide_eq_true_eq, Bool.or_eq_false_iff,
      Bool.and_eq_false_iff, decide_eq_false_iff_not] at hc ⊢
    grind
  have hrest : (digits ++ tail).takeWhile Char.isAlpha = [] := by
    cases digits with
    | nil => rcases htail with rfl | rfl <;> decide
    | cons d => simp [hdigit d (hd d mem_cons_self)]
  have hrest' : (digits ++ tail).dropWhile Char.isAlpha = digits ++ tail := by
    have h := takeWhile_append_dropWhile (p := Char.isAlpha) (l := digits ++ tail)
    rwa [hrest, nil_append] at h
  have htake : tail.takeWhile Char.isDigit = [] := by rcases htail with rfl | rfl <;> decide
  have hdrop : tail.dropWhile Char.isDigit = tail := by rcases htail with rfl | rfl <;> decide
  simp only [readRef, takeWhile_append_of_pos hl, dropWhile_append_of_pos hl, hrest, hrest',
    takeWhile_append_of_pos hd, dropWhile_append_of_pos hd, htake, hdrop, append_nil]
  exact if_pos ⟨hlengths.1, hlengths.2, hlead, htail⟩

theorem readPart_cases (h : readPart p = some ref) :
    IsRef p ref ∨ ∃ q, p = q ++ ['\n'] ∧ Shaped q ref := by
  unfold readPart at h
  split_ifs at h with hp
  simp only [readRef] at h
  split_ifs at h with hmatch
  obtain ⟨hletters, hdigits, hlead, htail⟩ := hmatch
  obtain rfl := some.inj h
  have hsplit := takeWhile_append_dropWhile (p := Char.isDigit) (l := p.dropWhile Char.isAlpha)
  have hwhole := takeWhile_append_dropWhile (p := Char.isAlpha) (l := p)
  have href : ∀ q,
      q = p.takeWhile Char.isAlpha ++ (p.dropWhile Char.isAlpha).takeWhile Char.isDigit →
      q ≠ [] →
      IsRef q (p.takeWhile Char.isAlpha, (p.dropWhile Char.isAlpha).takeWhile Char.isDigit) :=
    fun q hq hgiven => ⟨hq, hgiven, fun c hc => mem_takeWhile_imp hc,
      fun c hc => mem_takeWhile_imp hc, ⟨hletters, hdigits⟩, hlead⟩
  rcases htail with hnil | hline
  · rw [hnil, append_nil] at hsplit
    exact .inl (href p (by rw [hsplit, hwhole]) hp)
  · refine .inr ⟨_, by rw [← hline, append_assoc, hsplit, hwhole], ?_⟩
    by_cases hgiven :
        p.takeWhile Char.isAlpha ++ (p.dropWhile Char.isAlpha).takeWhile Char.isDigit = []
    · obtain ⟨hnone, hnone'⟩ := append_eq_nil_iff.1 hgiven
      exact .inl ⟨hgiven, by rw [hnone, hnone']⟩
    · exact .inr (href _ rfl hgiven)

theorem isRef_of_readPart (h : readPart p = some ref) (hline : p.getLast? ≠ some '\n') :
    IsRef p ref := by
  rcases readPart_cases h with href | ⟨q, rfl, -⟩
  · exact href
  · exact absurd (by simp) hline

theorem Shaped.readPart_line (h : Shaped p ref) : readPart (p ++ ['\n']) = some ref := by
  rw [readPart, if_neg (by simp)]
  rcases h with ⟨rfl, rfl⟩ | h
  · decide
  · rw [h.text, append_assoc]
    exact readRef_append h.letters h.digits h.lengths h.lead (.inr rfl)

theorem IsRef.readPart_eq (h : IsRef p ref) : readPart p = some ref := by
  rw [readPart, if_neg h.given, h.text]
  simpa using readRef_append h.letters h.digits h.lengths h.lead (.inl rfl)

theorem IsRef.notMem (h : IsRef p ref) {c : Char} (hc : c.isAlphanum = false) : c ∉ p := by
  rw [h.text, mem_append]
  rw [Char.isAlphanum, Bool.or_eq_false_iff] at hc
  rintro (hmem | hmem)
  · rw [h.letters c hmem] at hc
    cases hc.1
  · rw [h.digits c hmem] at hc
    cases hc.2

theorem Shaped.notMem (h : Shaped p ref) {c : Char} (hc : c.isAlphanum = false) : c ∉ p := by
  rcases h with ⟨rfl, -⟩ | h
  · exact not_mem_nil
  · exact h.notMem hc

theorem IsCells.notMem (h : IsCells text first last) {c : Char} (hc : c.isAlphanum = false)
    (hcolon : c ≠ ':') : c ∉ text := by
  rcases h with ⟨h, -⟩ | ⟨p, q, rfl, hp, hq⟩
  · exact h.notMem hc
  · simp [hp.notMem hc, hq.notMem hc, hcolon]

theorem splitOn_colon (parts : List (List Char)) (h : ∀ p ∈ parts, ':' ∉ p) (hne : parts ≠ []) :
    ([':'].intercalate parts).splitOn ':' = parts :=
  splitOn_intercalate ':' h hne

theorem IsCells.splitOn (h : IsCells text first last) :
    (IsRef text first ∧ last = first ∧ text.splitOn ':' = [text])
      ∨ ∃ p q, text.splitOn ':' = [p, q] ∧ IsRef p first ∧ IsRef q last := by
  have hcolon : Char.isAlphanum ':' = false := by decide
  rcases h with ⟨h, hlast⟩ | ⟨p, q, rfl, hp, hq⟩
  · have hsplit := splitOn_colon [text] (by simpa using h.notMem hcolon) (by simp)
    exact .inl ⟨h, hlast, by simpa using hsplit⟩
  · have hsplit := splitOn_colon [p, q]
      (by simp [hp.notMem hcolon, hq.notMem hcolon]) (by simp)
    exact .inr ⟨p, q, by simpa using hsplit, hp, hq⟩

theorem IsCells.readCells_eq (h : IsCells text first last) :
    readCells text = some (first, last) := by
  rcases h.splitOn with ⟨href, rfl, hsplit⟩ | ⟨p, q, hsplit, hp, hq⟩
  · simp [readCells, hsplit, href.readPart_eq]
  · simp [readCells, hsplit, hp.readPart_eq, hq.readPart_eq]

/-- Two references the pattern matches, the last one without a line break. -/
theorem cells_of_readCells (hline : text.getLast? ≠ some '\n')
    (h : readCells text = some (first, last)) :
    IsCells text first last
      ∨ ∃ p q, text = p ++ '\n' :: ':' :: q ∧ Shaped p first ∧ IsRef q last := by
  have hjoin : [':'].intercalate (text.splitOn ':') = text := intercalate_splitOn ':'
  unfold readCells at h
  split at h
  · rename_i ref hparts
    obtain ⟨p, hp, hread⟩ := map_eq_singleton_iff.1 hparts
    obtain rfl : p = text := by simpa [hp] using hjoin
    obtain ⟨rfl, rfl⟩ := Prod.mk.inj (some.inj h)
    exact .inl (.inl ⟨isRef_of_readPart hread hline, rfl⟩)
  · rename_i first' last' hparts
    obtain ⟨p, rest, hsplit, hfirst, hrest⟩ := map_eq_cons_iff.1 hparts
    obtain ⟨q, rfl, hlast⟩ := map_eq_singleton_iff.1 hrest
    obtain ⟨rfl, rfl⟩ := Prod.mk.inj (some.inj h)
    obtain rfl : p ++ ':' :: q = text := by simpa [hsplit] using hjoin
    have hq : IsRef q last' := by
      refine isRef_of_readPart hlast fun hlast' => hline ?_
      rw [getLast?_append, getLast?_cons, hlast']
      rfl
    rcases readPart_cases hfirst with hp | ⟨p', rfl, hp⟩
    · exact .inl (.inr ⟨p, q, rfl, hp, hq⟩)
    · exact .inr ⟨p', q, by simp, hp, hq⟩
  · cases h

theorem quotedGroup_doubled {rest : List Char} (hrest : rest.head? ≠ some '\'') :
    quotedGroup (doubled name ++ '\'' :: rest) = some (doubled name, rest) := by
  induction name with
  | nil =>
    cases rest with
    | nil => rfl
    | cons =>
      rw [head?_cons, ne_eq, some.injEq] at hrest
      simp [doubled, quotedGroup, hrest]
  | cons c name ih =>
    have ih' : quotedGroup (List.flatMap (fun c => if c = '\'' then ['\'', '\''] else [c]) name
        ++ '\'' :: rest) = some (doubled name, rest) := ih
    by_cases hc : c = '\''
    · subst hc
      simp [doubled, quotedGroup, ih']
    · simp [doubled, quotedGroup, hc, ih']

theorem exists_doubled_of_quotedGroup : ∀ {cs group rest : List Char},
    quotedGroup cs = some (group, rest) →
      ∃ name, group = doubled name ∧ cs = group ++ '\'' :: rest := by
  intro cs
  fun_induction quotedGroup cs with
  | case1 => simp
  | case2 cs ih =>
    intro group rest h
    obtain ⟨x, hx, heq⟩ := map_eq_some_iff.1 h
    obtain ⟨rfl, rfl⟩ := Prod.mk.inj heq
    obtain ⟨name, hname, rfl⟩ := ih hx
    exact ⟨'\'' :: name, by simp [doubled, hname], rfl⟩
  | case3 cs hpair =>
    intro group rest h
    obtain ⟨rfl, rfl⟩ := Prod.mk.inj (some.inj h)
    exact ⟨[], rfl, rfl⟩
  | case4 c cs hpair hquote ih =>
    intro group rest h
    obtain ⟨x, hx, heq⟩ := map_eq_some_iff.1 h
    obtain ⟨rfl, rfl⟩ := Prod.mk.inj heq
    obtain ⟨name, hname, rfl⟩ := ih hx
    have hc : c ≠ '\'' := by
      rintro rfl
      exact hquote rfl
    exact ⟨c :: name, by simp [doubled, hname, hc], rfl⟩

theorem replaceText_doubled (name : List Char) :
    replaceText "''".toList "'".toList (doubled name) = name := by
  induction name with
  | nil => rfl
  | cons c name ih =>
    unfold replaceText Matcher.replace doubled at ih ⊢
    by_cases hc : c = '\''
    · subst hc
      simpa [Matcher.replaceFrom, Matcher.literal] using ih
    · simpa [Matcher.replaceFrom, Matcher.literal, hc, Ne.symm hc] using ih

theorem WritesTab.notMem (h : WritesTab written name) (hbang : '!' ∉ name) : '!' ∉ written := by
  cases h with
  | plain => exact hbang
  | quoted =>
    simp only [doubled, mem_cons, mem_append, mem_flatMap]
    grind

theorem forall_ne_of_notMem {l : List Char} (h : '!' ∉ l) : ∀ c ∈ l, decide (c ≠ '!') = true := by
  intro c hc
  rw [decide_eq_true_eq]
  rintro rfl
  exact h hc

def afterTab (ref : Option (List Char)) : List Char := (ref.map ('!' :: ·)).getD []

def barred (text : List Char) : Bool := (text.splitOn ':').all fun p => (readPart p).isSome

theorem splitTab_eq_some {ref : Option (List Char)} (hw : WritesTab written name) (hne : name ≠ [])
    (hbang : '!' ∉ name) (hbare : ref = none → written.head? ≠ some '\'' → barred written = false) :
    splitTab (written ++ afterTab ref) = some (name, ref) := by
  cases hw with
  | plain hhead =>
    have hall := forall_ne_of_notMem hbang
    unfold splitTab
    split
    · rename_i cs heq
      obtain ⟨c, rest, hname⟩ := exists_cons_of_ne_nil hne
      rw [hname, cons_append] at heq
      rw [hname, head?_cons, (cons.inj heq).1] at hhead
      exact absurd rfl hhead
    · rw [dropWhile_append_of_pos hall, takeWhile_append_of_pos hall]
      cases ref with
      | none =>
        have hbarred := hbare rfl hhead
        rw [barred] at hbarred
        simp [afterTab, hbarred]
      | some => simp [afterTab]
  | quoted =>
    have hdoubled : doubled name ≠ [] := by
      intro hnil
      have hname := replaceText_doubled name
      rw [hnil] at hname
      exact hne hname.symm
    have hgroup : quotedGroup (doubled name ++ ['\''] ++ afterTab ref)
        = some (doubled name, afterTab ref) := by
      rw [append_assoc]
      refine quotedGroup_doubled ?_
      cases ref <;> simp [afterTab]
    rw [cons_append, splitTab, hgroup, bind_some, replaceText_doubled]
    cases ref <;> simp [afterTab, hdoubled]

theorem exists_of_splitTab {t : List Char} {ref : Option (List Char)}
    (h : splitTab t = some (name, ref)) (hne : name ≠ []) :
    ∃ written, WritesTab written name ∧ t = written ++ afterTab ref
      ∧ (ref = none → written.head? ≠ some '\'' → barred written = false) := by
  unfold splitTab at h
  split at h
  · obtain ⟨⟨group, rest⟩, hgroup, hrest⟩ := bind_eq_some_iff.1 h
    obtain ⟨name', rfl, rfl⟩ := exists_doubled_of_quotedGroup hgroup
    have hquoted : name' = name ∧ rest = afterTab ref := by
      dsimp only at hrest
      rw [replaceText_doubled] at hrest
      split at hrest
      · split_ifs at hrest
        obtain ⟨rfl, rfl⟩ := Prod.mk.inj (some.inj hrest)
        exact ⟨rfl, rfl⟩
      · split_ifs at hrest
        obtain ⟨rfl, rfl⟩ := Prod.mk.inj (some.inj hrest)
        exact ⟨rfl, rfl⟩
      · cases hrest
    obtain ⟨rfl, rfl⟩ := hquoted
    exact ⟨_, .quoted, by simp, fun _ hhead => absurd rfl hhead⟩
  · rename_i hquote
    have hhead : t.head? ≠ some '\'' := by
      intro hhead
      obtain ⟨cs, rfl⟩ := List.head?_eq_some_iff.1 hhead
      exact hquote cs rfl
    have hsplit := takeWhile_append_dropWhile (p := (decide <| · ≠ '!')) (l := t)
    split at h
    · rename_i c ref' hdrop
      obtain ⟨rfl, rfl⟩ := Prod.mk.inj (some.inj h)
      have hc : c = '!' := by
        have hlast := head?_dropWhile_not (fun c => decide (c ≠ '!')) t
        rw [hdrop] at hlast
        simpa using hlast
      rw [hdrop, hc] at hsplit
      refine ⟨_, .plain fun hfirst => hhead ?_, hsplit.symm, fun hnone => by cases hnone⟩
      rw [← hsplit, head?_append, hfirst, some_or]
    · split_ifs at h with hbarred
      obtain ⟨rfl, rfl⟩ := Prod.mk.inj (some.inj h)
      exact ⟨t, .plain hhead, (append_nil t).symm, fun _ _ => Bool.eq_false_iff.2 hbarred⟩

theorem column_eq (letters : List Char) : column letters = columnOf letters := by
  simp only [column, columnOf, Nat.ofDigits_eq_foldr, foldr_map, foldr_reverse, Nat.cast_id]
  congr 1
  funext index c
  ring

theorem rowNumber_eq (digits : List Char) : rowNumber digits = rowOf digits := by
  simp only [rowNumber, rowOf, Nat.ofDigits_eq_foldr, foldr_map, foldr_reverse, Nat.cast_id]
  congr 1
  funext n c
  ring

theorem one_le_columnOf {letters : List Char} (h : letters ≠ []) : 1 ≤ columnOf letters := by
  rw [← column_eq]
  rcases eq_nil_or_concat letters with rfl | ⟨init, c, rfl⟩
  · exact absurd rfl h
  · simp only [column, concat_eq_append, foldl_append, foldl_cons, foldl_nil]
    omega

theorem le_foldl_row (digits : List Char) (n : ℕ) :
    n ≤ digits.foldl (fun n c => n * 10 + (c.toNat - '0'.toNat)) n := by
  induction digits generalizing n with
  | nil => exact le_rfl
  | cons c digits ih => exact le_trans (by dsimp only; omega) (ih _)

theorem IsRef.one_le_rowOf (h : IsRef p ref) (hne : ref.2 ≠ []) : 1 ≤ rowOf ref.2 := by
  obtain ⟨c, digits, hdigits⟩ := exists_cons_of_ne_nil hne
  have hdigit := h.digits c (by simp [hdigits])
  have hlead := h.lead
  rw [← rowNumber_eq, hdigits, rowNumber, foldl_cons]
  rw [hdigits, head?_cons, ne_eq, some.injEq] at hlead
  refine le_trans ?_ (le_foldl_row digits _)
  have hzero : c.toNat ≠ '0'.toNat := fun heq => hlead (Char.toNat_inj.1 heq)
  simp only [Char.isDigit, Bool.and_eq_true, decide_eq_true_eq] at hdigit
  have hle : '0'.toNat ≤ c.toNat := hdigit.1
  omega

def between (first : ℕ) (last : ℕ∞) : Set ℕ := {n | first ≤ n ∧ (n : ℕ∞) ≤ last}

theorem between_subset_iff {first first' : ℕ} {last last' : ℕ∞} (h : first' ≤ last') :
    between first' last' ⊆ between first last ↔ first ≤ first' ∧ last' ≤ last := by
  constructor
  · intro hsub
    refine ⟨(hsub ⟨le_rfl, h⟩).1, ?_⟩
    cases last' with
    | coe => exact (hsub ⟨by exact_mod_cast h, le_rfl⟩).2
    | top =>
      cases last with
      | top => exact le_rfl
      | coe k =>
        have hk := (hsub (a := max first' (k + 1)) ⟨le_max_left _ _, le_top⟩).2
        have hk' : max first' (k + 1) ≤ k := by exact_mod_cast hk
        omega
  · rintro ⟨hfirst, hlast⟩ n ⟨hn, hn'⟩
    exact ⟨hfirst.trans hn, hn'.trans hlast⟩

namespace Area

def cells (a : Area) : Set (ℕ × ℕ) := between a.firstCol a.lastCol ×ˢ between a.firstRow a.lastRow

def Proper (a : Area) : Prop := a.firstCol ≤ a.lastCol ∧ a.firstRow ≤ a.lastRow

theorem contains_iff {a b : Area} (hb : b.Proper) (casefold : List Char → List Char) :
    a.contains casefold b = true ↔ casefold a.tab = casefold b.tab ∧ b.cells ⊆ a.cells := by
  have hne : b.cells.Nonempty := ⟨(b.firstCol, b.firstRow), ⟨le_rfl, hb.1⟩, le_rfl, hb.2⟩
  unfold cells at hne ⊢
  rw [Set.prod_subset_prod_iff' hne, between_subset_iff hb.1, between_subset_iff hb.2]
  simp only [contains, Bool.and_eq_true, decide_eq_true_eq]
  tauto

end Area

/-! One coordinate, of which `v` is the number. -/

section Bounds

variable {v : List Char → ℕ} {first last : List Char}

theorem bounds_le_iff (hlast : last ≠ [] → 1 ≤ v last) :
    ((if first = [] then 1 else v first : ℕ) : ℕ∞) ≤ (if last = [] then ⊤ else (v last : ℕ∞))
      ↔ (first ≠ [] → last ≠ [] → v first ≤ v last) := by
  split_ifs with hf hl hl
  · simp [hl]
  · simpa [hf] using hlast hl
  · simp [hl]
  · simp [hf, hl]

theorem mem_between_bounds (hfirst : first ≠ [] → 1 ≤ v first) {n : ℕ} :
    n ∈ between (if first = [] then 1 else v first) (if last = [] then ⊤ else (v last : ℕ∞))
      ↔ 1 ≤ n ∧ (first ≠ [] → v first ≤ n) ∧ (last ≠ [] → n ≤ v last) := by
  have hone : first ≠ [] → v first ≤ n → 1 ≤ n := fun hf => (hfirst hf).trans
  simp only [between, Set.mem_ofPred_eq]
  split_ifs with hf hl hl <;> simp [hf, hl] <;> grind

end Bounds

section Areas

variable {tab p q : List Char} {first last : List Char × List Char} {a : Area}

theorem areaOf_eq_some_iff (hq : IsRef q last) : areaOf tab first last = some a
    ↔ BoundsInOrder first last ∧ a = ⟨tab, if first.1 = [] then 1 else column first.1,
      if first.2 = [] then 1 else rowNumber first.2, if last.1 = [] then ⊤ else column last.1,
      if last.2 = [] then ⊤ else rowNumber last.2⟩ := by
  have hcol : _ ↔ (first.1 ≠ [] → last.1 ≠ [] → columnOf first.1 ≤ columnOf last.1) :=
    bounds_le_iff one_le_columnOf
  have hrow : _ ↔ (first.2 ≠ [] → last.2 ≠ [] → rowOf first.2 ≤ rowOf last.2) :=
    bounds_le_iff hq.one_le_rowOf
  rw [BoundsInOrder, ← hcol, ← hrow, eq_comm (a := a)]
  simp only [areaOf, column_eq, rowNumber_eq, ite_none_left_eq_some, not_or, not_lt,
    some.injEq]

theorem cells_of_areaOf (hp : IsRef p first) (hq : IsRef q last)
    (h : areaOf tab first last = some a) :
    a.Proper ∧ a.tab = tab ∧ a.cells = cellsBetween first last := by
  obtain ⟨hin, rfl⟩ := (areaOf_eq_some_iff hq).1 h
  refine ⟨⟨?_, ?_⟩, rfl, ?_⟩
  · simpa only [column_eq] using (bounds_le_iff one_le_columnOf).2 hin.1
  · simpa only [rowNumber_eq] using (bounds_le_iff hq.one_le_rowOf).2 hin.2
  · ext x
    simp only [Area.cells, Set.mem_prod, column_eq, rowNumber_eq,
      mem_between_bounds one_le_columnOf, mem_between_bounds hp.one_le_rowOf, cellsBetween,
      Set.mem_ofPred_eq]
    tauto

end Areas

theorem IsCells.barred (h : IsCells text first last) : barred text = true := by
  rw [Crewquarters.barred]
  rcases h.splitOn with ⟨href, -, hsplit⟩ | ⟨p, q, hsplit, hp, hq⟩
  · simp [hsplit, href.readPart_eq]
  · simp [hsplit, hp.readPart_eq, hq.readPart_eq]

/-- A bare text that the parser takes for cells is cells, or mistaken. -/
theorem cells_of_barred {t : List Char} (hbang : '!' ∉ t) (hhead : t.head? ≠ some '\'')
    (h : barred t = true) : (∃ first last, IsCells t first last) ∨ Mistaken t := by
  have hparts : ∀ p ∈ t.splitOn ':', ∃ ref, readPart p = some ref := fun p hp =>
    isSome_iff_exists.1 (all_eq_true.1 h p hp)
  by_cases hodd : 2 < (t.splitOn ':').length ∨ '\n' ∈ t
  · refine .inr ⟨⟨hbang, hhead⟩, fun p hp => ?_, hodd⟩
    obtain ⟨ref, href⟩ := hparts p hp
    rw [href]
    exact some_ne_none ref
  · obtain ⟨hfew, hline⟩ := not_or.1 hodd
    have hread : ∃ refs, readCells t = some refs := by
      rcases hsplit : t.splitOn ':' with _ | ⟨p, _ | ⟨q, _ | ⟨r, rest⟩⟩⟩
      · exact absurd hsplit (splitOnP_ne_nil _ _)
      · obtain ⟨ref, href⟩ := hparts p (by simp [hsplit])
        exact ⟨_, by rw [readCells, hsplit, map_singleton, href]⟩
      · obtain ⟨first, hfirst⟩ := hparts p (by simp [hsplit])
        obtain ⟨last, hlast⟩ := hparts q (by simp [hsplit])
        exact ⟨_, by rw [readCells, hsplit, map_cons, map_singleton, hfirst, hlast]⟩
      · rw [hsplit] at hfew
        simp at hfew
    obtain ⟨refs, hrefs⟩ := hread
    rcases cells_of_readCells (fun hlast => hline (mem_of_getLast? hlast)) hrefs with hcells |
      ⟨p, q, rfl, -⟩
    · exact .inl ⟨refs.1, refs.2, hcells⟩
    · exact absurd (by simp) hline

theorem IsCells.exists_isRef (h : IsCells text first last) :
    (∃ p, IsRef p first) ∧ ∃ q, IsRef q last := by
  rcases h with ⟨h, rfl⟩ | ⟨p, q, -, hp, hq⟩
  · exact ⟨⟨_, h⟩, _, h⟩
  · exact ⟨⟨p, hp⟩, q, hq⟩

theorem cells_whole (tab : List Char) :
    Area.cells ⟨tab, 1, 1, ⊤, ⊤⟩ = {x | 1 ≤ x.1 ∧ 1 ≤ x.2} := by
  ext x
  simp [Area.cells, between]

theorem Denotes.parseRange_eq {cells : Set (ℕ × ℕ)} (hden : Denotes (trim text) name cells)
    (h : ¬ Mistaken (trim text)) :
    ∃ a, parseRange text = some a ∧ a.tab = name ∧ a.cells = cells := by
  unfold parseRange
  generalize trim text = t at h hden ⊢
  cases hden with
  | tab hw hne hbang hbare =>
    have hsplit : splitTab (t ++ afterTab none) = _ :=
      splitTab_eq_some hw hne hbang fun _ hhead => by
      rw [Bool.eq_false_iff]
      intro hbarred
      rcases cells_of_barred (hw.notMem hbang) hhead hbarred with ⟨first, last, hcells⟩ | hmistaken
      · exact hbare hhead first last hcells
      · exact h hmistaken
    rw [afterTab, map_none, getD_none, append_nil] at hsplit
    exact ⟨_, by simp [hsplit, hne, hbang], rfl, cells_whole name⟩
  | @cells written _ ref first last hw hne hbang hcells hin =>
    have hsplit : splitTab (written ++ afterTab (some ref)) = _ :=
      splitTab_eq_some hw hne hbang fun hnone => by cases hnone
    obtain ⟨⟨p, hp⟩, q, hq⟩ := hcells.exists_isRef
    have harea : areaOf name first last = _ := (areaOf_eq_some_iff hq).2 ⟨hin, rfl⟩
    have hmark : '!' ∉ ref := hcells.notMem (by decide) (by decide)
    refine ⟨_, ?_, (cells_of_areaOf hp hq harea).2⟩
    rw [afterTab, map_some, getD_some] at hsplit
    simp [hsplit, hne, hbang, hmark, hcells.readCells_eq, harea]

theorem Mistaken.parseRange_eq_none (h : Mistaken (trim text)) : parseRange text = none := by
  have hbarred : barred (trim text) = true := all_eq_true.2 fun p hp =>
    isSome_iff_ne_none.2 (h.parts p hp)
  have hsplit : splitTab (trim text) = none := by
    unfold splitTab
    split
    · rename_i cs hquote
      rw [hquote] at h
      exact absurd rfl h.bare.2
    · rw [dropWhile_eq_nil_iff.2 (forall_ne_of_notMem h.bare.1)]
      exact if_pos hbarred
  rw [parseRange, hsplit, bind_none]

theorem trim_getLast?_ne (text : List Char) : (trim text).getLast? ≠ some '\n' := by
  intro hlast
  have hne : trim text ≠ [] := fun hnil => by simp [hnil] at hlast
  have hspace := rdropWhile_last_not isSpace (text.dropWhile isSpace) hne
  rw [getLast?_eq_some_getLast hne, some.injEq] at hlast
  change isSpace ((trim text).getLast hne) ≠ true at hspace
  rw [hlast] at hspace
  exact absurd (by decide) hspace

/-- What the parser reads is what the text denotes, unless a line break is in it. -/
theorem denotes_of_parseRange {a : Area} (ha : parseRange text = some a) :
    (a.Proper ∧ Denotes (trim text) a.tab a.cells) ∨ LineBroken (trim text) := by
  have hlast := trim_getLast?_ne text
  unfold parseRange at ha
  generalize trim text = t at hlast ha ⊢
  obtain ⟨⟨name, ref⟩, hsplit, hrest⟩ := bind_eq_some_iff.1 ha
  split_ifs at hrest with hbad
  simp only [not_or] at hbad
  obtain ⟨hne, hbang, hmark⟩ := hbad
  obtain ⟨written, hw, rfl, hbare⟩ := exists_of_splitTab hsplit hne
  cases ref with
  | none =>
    obtain rfl := some.inj hrest
    rw [afterTab, map_none, getD_none, append_nil, cells_whole]
    refine .inl ⟨⟨le_top, le_top⟩, .tab hw hne hbang fun hhead first last hcells => ?_⟩
    have hbarred := hbare rfl hhead
    rw [hcells.barred] at hbarred
    cases hbarred
  | some ref =>
    obtain ⟨⟨first, last⟩, hread, harea⟩ := bind_eq_some_iff.1 hrest
    rw [afterTab, map_some, getD_some] at hlast ⊢
    have hline : ref.getLast? ≠ some '\n' := fun hline => hlast (by
      rw [getLast?_append, getLast?_cons, hline]
      rfl)
    rcases cells_of_readCells hline hread with hcells | ⟨p, q, rfl, hp, hq⟩
    · obtain ⟨⟨p, hp⟩, q, hq⟩ := hcells.exists_isRef
      obtain ⟨hproper, htab, harea'⟩ := cells_of_areaOf hp hq harea
      rw [htab, harea']
      exact .inl ⟨hproper, .cells hw hne hbang hcells ((areaOf_eq_some_iff hq).1 harea).1⟩
    · exact .inr ⟨written, name, p, q, first, last, hw, hne, hbang, rfl, hp, hq,
        ((areaOf_eq_some_iff hq).1 harea).1⟩

namespace LineBroken

theorem parseRange_ne_none (h : LineBroken (trim text)) : parseRange text ≠ none := by
  obtain ⟨written, name, p, q, first, last, hw, hne, hbang, htext, hp, hq, hin⟩ := h
  have hcolon : Char.isAlphanum ':' = false := by decide
  have hmark : Char.isAlphanum '!' = false := by decide
  have hsplit : splitTab (written ++ afterTab (some (p ++ '\n' :: ':' :: q))) = _ :=
    splitTab_eq_some hw hne hbang fun hnone => by cases hnone
  have hparts : (p ++ '\n' :: ':' :: q).splitOn ':' = [p ++ ['\n'], q] := by
    have hsplit := splitOn_colon [p ++ ['\n'], q]
      (by simp [hp.notMem hcolon, hq.notMem hcolon]) (by simp)
    simpa using hsplit
  have hread : readCells (p ++ '\n' :: ':' :: q) = some (first, last) := by
    simp [readCells, hparts, hp.readPart_line, hq.readPart_eq]
  have harea : areaOf name first last = _ := (areaOf_eq_some_iff hq).2 ⟨hin, rfl⟩
  rw [afterTab, map_some, getD_some, ← htext] at hsplit
  simp [parseRange, hsplit, hne, hbang, hp.notMem hmark, hq.notMem hmark, hread, harea]

theorem not_denotes {t tab : List Char} {cells : Set (ℕ × ℕ)} (h : LineBroken t) :
    ¬ Denotes t tab cells := by
  obtain ⟨written, name, p, q, first, last, hw, -, hbang, rfl, hp, hq, -⟩ := h
  have hmark : Char.isAlphanum '!' = false := by decide
  have href : '!' ∉ p ++ '\n' :: ':' :: q := by simp [hp.notMem hmark, hq.notMem hmark]
  generalize ht : written ++ '!' :: (p ++ '\n' :: ':' :: q) = t
  intro hden
  cases hden with
  | tab hw' _ hbang' =>
    have hmark := hw'.notMem hbang'
    rw [← ht] at hmark
    exact absurd (by simp) hmark
  | cells hw' _ hbang' hcells =>
    obtain ⟨-, -, rfl⟩ := (append_cons_inj_of_notMem (hw.notMem hbang) href).1 ht
    exact absurd (by simp) (hcells.notMem (c := '\n') (by decide) (by decide))

end LineBroken

theorem within_eq_ok_iff {casefold : List Char → List Char} {key : String} {c r : List Char} :
    within casefold key c r = .ok () ↔ ∃ a b, parseRange c = some a ∧ parseRange r = some b
      ∧ a.contains casefold b = true := by
  unfold within
  cases parseRange c <;> cases parseRange r <;> simp

/-- A call is let through iff the grammar has the request inside the configuration, and a text
outside the grammar is refused: exactly if in neither text a line break stands before the colon, and
neither is a tab's name that the parser takes for a range where the request is inside. -/
theorem within_iff (casefold : List Char → List Char) (key : String) (c r : List Char) :
    ((within casefold key c r = .ok () ↔ Inside casefold c r)
      ∧ ∀ text ∈ [c, r], (∀ tab cells, ¬ Denotes (trim text) tab cells) → parseRange text = none)
    ↔ ∀ text ∈ [c, r], ¬ LineBroken (trim text)
      ∧ (Inside casefold c r → ¬ Mistaken (trim text)) := by
  constructor
  · rintro ⟨hiff, hrefused⟩ text htext
    refine ⟨fun hbroken => ?_, fun hinside hmistaken => ?_⟩
    · exact hbroken.parseRange_ne_none (hrefused text htext fun _ _ => hbroken.not_denotes)
    · obtain ⟨a, b, ha, hb, -⟩ := within_eq_ok_iff.1 (hiff.2 hinside)
      have hnone := hmistaken.parseRange_eq_none
      rcases mem_pair.1 htext with rfl | rfl
      · rw [ha] at hnone
        cases hnone
      · rw [hb] at hnone
        cases hnone
  · intro h
    have hdenotes : ∀ text ∈ [c, r], ∀ a, parseRange text = some a →
        a.Proper ∧ Denotes (trim text) a.tab a.cells := fun text htext a ha =>
      (denotes_of_parseRange ha).resolve_right (h text htext).1
    refine ⟨⟨fun hok => ?_, fun hinside => ?_⟩, fun text htext hnone => ?_⟩
    · obtain ⟨a, b, ha, hb, hcontains⟩ := within_eq_ok_iff.1 hok
      obtain ⟨-, hden⟩ := hdenotes c (by simp) a ha
      obtain ⟨hproper, hden'⟩ := hdenotes r (by simp) b hb
      obtain ⟨htab, hsub⟩ := (Area.contains_iff hproper casefold).1 hcontains
      exact ⟨_, _, _, _, hden, hden', htab, hsub⟩
    · obtain ⟨tab, cells, tab', cells', hden, hden', htab, hsub⟩ := id hinside
      obtain ⟨a, ha, rfl, rfl⟩ := hden.parseRange_eq ((h c (by simp)).2 hinside)
      obtain ⟨b, hb, rfl, rfl⟩ := hden'.parseRange_eq ((h r (by simp)).2 hinside)
      have hproper := (hdenotes r (by simp) b hb).1
      exact within_eq_ok_iff.2 ⟨a, b, ha, hb, (Area.contains_iff hproper casefold).2 ⟨htab, hsub⟩⟩
    · rw [eq_none_iff_forall_ne_some]
      intro a ha
      exact hnone _ _ (hdenotes text htext a ha).2

/-- A line break before the colon is let through. -/
theorem within_line_break :
    within id "inputRange" "Tab!A1:D9".toList "Tab!A1\n:B2".toList = .ok ()
      ∧ ∀ tab cells, ¬ Denotes (trim "Tab!A1\n:B2".toList) tab cells := by
  have hbroken : LineBroken (trim "Tab!A1\n:B2".toList) := by
    refine ⟨"Tab".toList, "Tab".toList, "A1".toList, "B2".toList, (['A'], ['1']), (['B'], ['2']),
      .plain (by decide), by decide, by decide, by decide, .inr ⟨rfl, by decide, ?_, ?_, by decide,
      by decide⟩, ⟨rfl, by decide, ?_, ?_, by decide, by decide⟩, by decide, by decide⟩ <;>
      simp
  exact ⟨by rfl, fun _ _ => hbroken.not_denotes⟩

end Crewquarters
