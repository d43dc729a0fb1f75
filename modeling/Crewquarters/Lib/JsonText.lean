import Mathlib.Tactic

/-!
# JSON text of string objects

A string is written between quotes, character by character (`escape`): printable ASCII as it is,
everything else by an escape, outside the basic plane by a pair of surrogates. No escape is the
beginning of another, as the first character of a text can be read back (`readChar_escape`), so
neither strings nor objects of strings can be taken for others (`object_append_inj`).
-/

namespace Crewquarters

open List Option

namespace JsonText

variable {n : ℕ} {c d : Char} {x y : List Char}

/-! ## Characters -/

def hexDigit (n : ℕ) : Char := if n < 10 then Char.ofNat (48 + n) else Char.ofNat (87 + n)

def hex4 (n : ℕ) : List Char :=
  [hexDigit (n / 4096 % 16), hexDigit (n / 256 % 16), hexDigit (n / 16 % 16), hexDigit (n % 16)]

def unicodeEscape (n : ℕ) : List Char := '\\' :: 'u' :: hex4 n

/-- The characters with an escape of two characters, and its second one. -/
def short : Char → Option Char
  | '"' => some '"'
  | '\\' => some '\\'
  | '\n' => some 'n'
  | '\r' => some 'r'
  | '\t' => some 't'
  | '\x0c' => some 'f'
  | '\x08' => some 'b'
  | _ => none

def escape (c : Char) : List Char :=
  match short c with
  | some d => ['\\', d]
  | none =>
    if ' ' ≤ c ∧ c ≤ '~' then [c]
    else if c.toNat < 0x10000 then unicodeEscape c.toNat
    else unicodeEscape (0xd800 + (c.toNat - 0x10000) / 1024)
      ++ unicodeEscape (0xdc00 + (c.toNat - 0x10000) % 1024)

/-! ## Reading a character back -/

def unhex (c : Char) : ℕ := if c.toNat < 58 then c.toNat - 48 else c.toNat - 87

def readHex : List Char → Option (ℕ × List Char)
  | a :: b :: c :: d :: rest =>
    some (((unhex a * 16 + unhex b) * 16 + unhex c) * 16 + unhex d, rest)
  | _ => none

def unshort : Char → Option Char
  | '"' => some '"'
  | '\\' => some '\\'
  | 'n' => some '\n'
  | 'r' => some '\r'
  | 't' => some '\t'
  | 'f' => some '\x0c'
  | 'b' => some '\x08'
  | _ => none

def readLow (high : ℕ) (l : List Char) : Option (Char × List Char) :=
  (readHex (l.drop 2)).map fun r =>
    (Char.ofNat (0x10000 + (high - 0xd800) * 1024 + (r.1 - 0xdc00)), r.2)

def readUnicode (l : List Char) : Option (Char × List Char) :=
  (readHex l).bind fun r =>
    if 0xd800 ≤ r.1 ∧ r.1 < 0xdc00 then readLow r.1 r.2 else some (Char.ofNat r.1, r.2)

/-- The first character of a text, and the rest of it. -/
def readChar : List Char → Option (Char × List Char)
  | [] => none
  | c :: rest =>
    if c = '\\' then
      match rest with
      | [] => none
      | d :: rest => if d = 'u' then readUnicode rest else (unshort d).map fun c => (c, rest)
    else some (c, rest)

theorem unhex_hexDigit : ∀ n < 16, unhex (hexDigit n) = n := by
  decide

theorem readHex_hex4 (h : n < 0x10000) (rest : List Char) :
    readHex (hex4 n ++ rest) = some (n, rest) := by
  have hmod : ∀ m, m % 16 < 16 := fun m => Nat.mod_lt m (by decide)
  simp only [hex4, cons_append, nil_append, readHex, unhex_hexDigit _ (hmod _),
    some.injEq, Prod.mk.injEq, and_true]
  omega

theorem unshort_of_short (h : short c = some d) : unshort d = some c ∧ d ≠ 'u' := by
  unfold short at h
  split at h <;> simp only [some.injEq, reduceCtorEq] at h <;> subst h <;> decide

/-- No escape begins with a character that stands for itself. -/
theorem ne_of_short_none (h : short c = none) : c ≠ '\\' ∧ c ≠ '"' := by
  constructor <;> rintro rfl <;> cases h

theorem readUnicode_bmp (h : n < 0x10000) (hnot : ¬ (0xd800 ≤ n ∧ n < 0xdc00)) (rest : List Char) :
    readUnicode (hex4 n ++ rest) = some (Char.ofNat n, rest) := by
  simp only [readUnicode, readHex_hex4 h, bind_some]
  rw [if_neg hnot]

theorem readUnicode_pair (h : n < 0x100000) (rest : List Char) :
    readUnicode (hex4 (0xd800 + n / 1024) ++ (unicodeEscape (0xdc00 + n % 1024) ++ rest))
      = some (Char.ofNat (0x10000 + n), rest) := by
  have hdiv : n / 1024 < 1024 := by omega
  have hmod : n % 1024 < 1024 := Nat.mod_lt n (by decide)
  have hsum : 0x10000 + (0xd800 + n / 1024 - 0xd800) * 1024 + (0xdc00 + n % 1024 - 0xdc00)
      = 0x10000 + n := by omega
  have hlow : 0xdc00 + n % 1024 < 0x10000 := by omega
  simp only [readUnicode, readHex_hex4 (n := 0xd800 + n / 1024) (by omega), bind_some]
  rw [if_pos (by omega)]
  simp only [readLow, unicodeEscape, cons_append, drop_succ_cons, drop_zero,
    readHex_hex4 hlow, map_some, hsum]

/-- A character beyond the basic plane is less than a pair of surrogates can say. -/
theorem toNat_lt (c : Char) : c.toNat < 0x110000 := by
  rcases c.valid with h | ⟨-, h⟩ <;> simp only [Char.toNat, UInt32.toNat] at * <;> omega

/-- No character is itself a surrogate. -/
theorem not_surrogate (c : Char) : ¬ (0xd800 ≤ c.toNat ∧ c.toNat < 0xdc00) := by
  rcases c.valid with h | ⟨h, -⟩ <;> simp only [Char.toNat, UInt32.toNat] at * <;> omega

/-- What was written is what is read, whatever comes after it. -/
theorem readChar_escape (c : Char) (rest : List Char) :
    readChar (escape c ++ rest) = some (c, rest) := by
  unfold escape
  split
  · rename_i d hd
    obtain ⟨hback, hu⟩ := unshort_of_short hd
    simp only [cons_append, nil_append, readChar, if_true]
    rw [if_neg hu, hback]
    rfl
  · rename_i hshort
    split_ifs with hprint hbmp
    · simp only [cons_append, nil_append, readChar]
      rw [if_neg (ne_of_short_none hshort).1]
    · have hread := readUnicode_bmp hbmp (not_surrogate c) rest
      rw [Char.ofNat_toNat] at hread
      simpa only [unicodeEscape, cons_append, readChar, if_true] using hread
    · have hlt := toNat_lt c
      have hread := readUnicode_pair (n := c.toNat - 0x10000) (by omega) rest
      rw [show 0x10000 + (c.toNat - 0x10000) = c.toNat by omega, Char.ofNat_toNat] at hread
      rw [append_assoc]
      simpa only [unicodeEscape, cons_append, readChar, if_true] using hread

theorem escape_append_inj (h : escape c ++ x = escape d ++ y) : c = d ∧ x = y := by
  have hread := congrArg readChar h
  rw [readChar_escape, readChar_escape] at hread
  simpa using hread

/-- A quote ends the text of a string: no character is written with one first. -/
theorem escape_append_ne_quote (c : Char) (x y : List Char) : escape c ++ x ≠ '"' :: y := by
  intro h
  have hread := congrArg readChar h
  rw [readChar_escape] at hread
  obtain ⟨rfl, -⟩ : c = '"' ∧ x = y := by simpa [readChar] using hread
  simp [escape, short] at h

/-! ## Strings and objects of strings -/

def quote (s : String) : List Char := '"' :: (s.toList.flatMap escape ++ ['"'])

def member (p : String × String) : List Char := quote p.1 ++ ':' :: quote p.2

/-- The members after the first one, each with its comma. -/
def others (ps : List (String × String)) : List Char := ps.flatMap fun p => ',' :: member p

def members : List (String × String) → List Char
  | [] => []
  | p :: ps => member p ++ others ps

def object (ps : List (String × String)) : List Char := '{' :: (members ps ++ ['}'])

theorem flatMap_escape_append_inj : ∀ {s t : List Char} {x y : List Char},
    s.flatMap escape ++ '"' :: x = t.flatMap escape ++ '"' :: y → s = t ∧ x = y
  | [], [], x, y, h => by simpa using h
  | [], d :: t, x, y, h => by
    rw [flatMap_cons, append_assoc] at h
    exact absurd h.symm (escape_append_ne_quote _ _ _)
  | c :: s, [], x, y, h => by
    rw [flatMap_cons, append_assoc] at h
    exact absurd h (escape_append_ne_quote _ _ _)
  | c :: s, d :: t, x, y, h => by
    rw [flatMap_cons, flatMap_cons, append_assoc, append_assoc] at h
    obtain ⟨rfl, hrest⟩ := escape_append_inj h
    obtain ⟨rfl, hxy⟩ := flatMap_escape_append_inj hrest
    exact ⟨rfl, hxy⟩

theorem quote_append_inj {s t : String} (h : quote s ++ x = quote t ++ y) : s = t ∧ x = y := by
  simp only [quote, cons_append, append_assoc, nil_append, cons.injEq,
    true_and] at h
  obtain ⟨hst, hxy⟩ := flatMap_escape_append_inj h
  exact ⟨String.toList_inj.mp hst, hxy⟩

theorem member_append_inj {p q : String × String} (h : member p ++ x = member q ++ y) :
    p = q ∧ x = y := by
  simp only [member, append_assoc, cons_append] at h
  obtain ⟨hkey, hrest⟩ := quote_append_inj h
  obtain ⟨hvalue, hxy⟩ := quote_append_inj (cons.inj hrest).2
  exact ⟨Prod.ext hkey hvalue, hxy⟩

theorem others_append_inj : ∀ {ps qs : List (String × String)} {x y : List Char},
    others ps ++ '}' :: x = others qs ++ '}' :: y → ps = qs ∧ x = y
  | [], [], x, y, h => by simpa [others] using h
  | [], q :: qs, x, y, h => by simp [others] at h
  | p :: ps, [], x, y, h => by simp [others] at h
  | p :: ps, q :: qs, x, y, h => by
    simp only [others, flatMap_cons, cons_append, append_assoc] at h
    obtain ⟨rfl, hrest⟩ := member_append_inj (cons.inj h).2
    obtain ⟨rfl, hxy⟩ := others_append_inj hrest
    exact ⟨rfl, hxy⟩

theorem object_append_inj {ps qs : List (String × String)} (h : object ps ++ x = object qs ++ y) :
    ps = qs ∧ x = y := by
  simp only [object, cons_append, append_assoc, nil_append, cons.injEq,
    true_and] at h
  cases ps with
  | nil =>
    cases qs with
    | nil => simpa [members] using h
    | cons => simp [members, member, quote] at h
  | cons =>
    cases qs with
    | nil => simp [members, member, quote] at h
    | cons =>
      simp only [members, append_assoc] at h
      obtain ⟨rfl, hrest⟩ := member_append_inj h
      obtain ⟨rfl, hxy⟩ := others_append_inj hrest
      exact ⟨rfl, hxy⟩

theorem object_inj {ps qs : List (String × String)} (h : object ps = object qs) : ps = qs :=
  (object_append_inj (congrArg (· ++ ([] : List Char)) h)).1

/-! ## Bytes -/

def Ascii (l : List Char) : Prop := ∀ c ∈ l, c.toNat < 128

def bytes (l : List Char) : List UInt8 := l.map fun c => UInt8.ofNat c.toNat

theorem ascii_append {l m : List Char} (hl : Ascii l) (hm : Ascii m) : Ascii (l ++ m) := by
  intro c hc
  exact (mem_append.mp hc).elim (hl c) (hm c)

theorem ascii_cons {l : List Char} (hc : c.toNat < 128) (hl : Ascii l) : Ascii (c :: l) := by
  intro d hd
  rcases mem_cons.mp hd with rfl | hd
  · exact hc
  · exact hl d hd

theorem ascii_flatMap {α : Type*} {l : List α} {f : α → List Char} (h : ∀ a, Ascii (f a)) :
    Ascii (l.flatMap f) := by
  intro c hc
  obtain ⟨a, -, hmem⟩ := mem_flatMap.mp hc
  exact h a c hmem

theorem hexDigit_ascii : ∀ n < 16, (hexDigit n).toNat < 128 := by
  decide

theorem unicodeEscape_ascii (n : ℕ) : Ascii (unicodeEscape n) := by
  have hdigit : ∀ m, (hexDigit (m % 16)).toNat < 128 :=
    fun m => hexDigit_ascii _ (Nat.mod_lt m (by decide))
  refine ascii_cons (by decide) (ascii_cons (by decide) ?_)
  intro c hc
  simp only [hex4, mem_cons, not_mem_nil, or_false] at hc
  rcases hc with rfl | rfl | rfl | rfl <;> exact hdigit _

theorem short_ascii (h : short c = some d) : d.toNat < 128 := by
  unfold short at h
  split at h <;> simp only [some.injEq, reduceCtorEq] at h <;> subst h <;> decide

theorem escape_ascii (c : Char) : Ascii (escape c) := by
  unfold escape
  split
  · rename_i d hd
    exact ascii_cons (by decide) (ascii_cons (short_ascii hd) (by simp [Ascii]))
  · split_ifs with hprint hbmp
    · exact ascii_cons (lt_of_le_of_lt hprint.2 (by decide)) (by simp [Ascii])
    · exact unicodeEscape_ascii _
    · exact ascii_append (unicodeEscape_ascii _) (unicodeEscape_ascii _)

theorem quote_ascii (s : String) : Ascii (quote s) :=
  ascii_cons (by decide) (ascii_append (ascii_flatMap escape_ascii) (by simp [Ascii]))

theorem member_ascii (p : String × String) : Ascii (member p) :=
  ascii_append (quote_ascii _) (ascii_cons (by decide) (quote_ascii _))

theorem object_ascii (ps : List (String × String)) : Ascii (object ps) := by
  refine ascii_cons (by decide) (ascii_append ?_ (by simp [Ascii]))
  cases ps with
  | nil => simp [members, Ascii]
  | cons p =>
    exact ascii_append (member_ascii p)
      (ascii_flatMap fun q => ascii_cons (by decide) (member_ascii q))

theorem bytes_inj : ∀ {l m : List Char}, Ascii l → Ascii m → bytes l = bytes m → l = m
  | [], [], _, _, _ => rfl
  | [], d :: m, _, _, h => by simp [bytes] at h
  | c :: l, [], _, _, h => by simp [bytes] at h
  | c :: l, d :: m, hl, hm, h => by
    obtain ⟨hhead, htail⟩ := cons.inj h
    have hc := hl c (mem_cons_self ..)
    have hd := hm d (mem_cons_self ..)
    have hnat : (UInt8.ofNat c.toNat).toNat = (UInt8.ofNat d.toNat).toNat :=
      congrArg UInt8.toNat hhead
    rw [UInt8.toNat_ofNat', UInt8.toNat_ofNat', Nat.mod_eq_of_lt (by omega),
      Nat.mod_eq_of_lt (by omega)] at hnat
    have hrest := bytes_inj (fun x hx => hl x (mem_cons_of_mem _ hx))
      (fun x hx => hm x (mem_cons_of_mem _ hx)) htail
    rw [Char.toNat_inj.mp hnat, hrest]

end JsonText

end Crewquarters
