import Crewquarters.Lib.PrefixCodes
import Crewquarters.Passages

/-!
# Reading passages back

Letter by letter, `escape` and `quoteattr` are prefix codes. An attribute ends at the next quote of
the kind it starts with, a text at the next `<`, so the fields of a block can be read in one way.
-/

namespace Crewquarters

open List

variable {entities table : List (Char × List Char)} {data : List Char}

theorem replaceText_singleton (c : Char) (new : List Char) : ∀ data : List Char,
    replaceText [c] new data = data.flatMap fun a => if a = c then new else [a]
  | [] => rfl
  | a :: data => by
    have ih := replaceText_singleton c new data
    unfold replaceText Matcher.replace at ih ⊢
    rw [Matcher.replaceFrom, flatMap_cons]
    by_cases h : a = c
    · simp [Matcher.literal, h, ih]
    · simp [Matcher.literal, h, ih, Ne.symm h]

theorem escape_eq_flatMap (entities : List (Char × List Char)) (data : List Char) :
    escape entities data = data.flatMap fun c => escape entities [c] := by
  unfold escape
  generalize namedEntities ++ entities = table
  induction table generalizing data with
  | nil => simp
  | cons e table ih =>
    simp only [foldl_cons]
    rw [ih, replaceText_singleton, flatMap_assoc]
    refine flatMap_congr fun c _ => ?_
    rw [ih (replaceText _ _ [c]), replaceText_singleton, flatMap_singleton]

theorem escape_singleton {c : Char} (h : c ∉ (namedEntities ++ entities).map Prod.fst) :
    escape entities [c] = [c] := by
  unfold escape
  generalize namedEntities ++ entities = table at h ⊢
  induction table with
  | nil => rfl
  | cons e table ih =>
    rw [map_cons, mem_cons, not_or] at h
    rw [foldl_cons, replaceText_singleton, flatMap_singleton, if_neg h.1]
    exact ih h.2

/-- With these entities `escape` is the code of the table, which can be read back. -/
structure Spells (entities table : List (Char × List Char)) : Prop extends Readable table where
  keys : (namedEntities ++ entities).map Prod.fst = table.map Prod.fst
  words : ∀ e ∈ table, escape entities [e.1] = entityCode table e.1

namespace Spells

theorem escape_eq (h : Spells entities table) (data : List Char) :
    escape entities data = data.flatMap (entityCode table) := by
  rw [escape_eq_flatMap]
  refine flatMap_congr fun c _ => ?_
  by_cases hc : c ∈ table.map Prod.fst
  · obtain ⟨e, he, rfl⟩ := mem_map.1 hc
    exact h.words e he
  · rw [escape_singleton (h.keys ▸ hc), entityCode, lookup_eq_none_iff.2]
    · rfl
    · intro e he
      rw [bne_iff_ne]
      rintro rfl
      exact hc (mem_map_of_mem he)

theorem escape_inj (h : Spells entities table) {data data' : List Char}
    (heq : escape entities data = escape entities data') : data = data' := by
  rw [h.escape_eq, h.escape_eq] at heq
  exact h.injective heq

theorem notMem (h : Spells entities table) {c : Char} (hc : (table.lookup c).isSome)
    (hnames : ∀ e ∈ table, c ∉ '&' :: (e.2 ++ [';'])) : c ∉ escape entities data := by
  rw [h.escape_eq]
  exact notMem_flatMap_entityCode hc hnames data

end Spells

def textTable : List (Char × List Char) :=
  [('&', "amp".toList), ('>', "gt".toList), ('<', "lt".toList)]

def attributeTable : List (Char × List Char) :=
  textTable ++ [('\n', "#10".toList), ('\r', "#13".toList), ('\t', "#9".toList)]

theorem spells_text : Spells [] textTable := by
  refine ⟨⟨?_, ?_, ?_⟩, ?_, ?_⟩ <;> decide

theorem spells_attribute : Spells lineEntities attributeTable := by
  refine ⟨⟨?_, ?_, ?_⟩, ?_, ?_⟩ <;> decide

def quoteEntities : List (Char × List Char) := lineEntities ++ [('"', "&quot;".toList)]

def quotedTable : List (Char × List Char) := attributeTable ++ [('"', "quot".toList)]

theorem spells_quoted : Spells quoteEntities quotedTable := by
  refine ⟨⟨?_, ?_, ?_⟩, ?_, ?_⟩ <;> decide

theorem escape_quoteEntities : escape quoteEntities data
    = replaceText ['"'] "&quot;".toList (escape lineEntities data) := by
  unfold escape quoteEntities
  rw [← append_assoc, foldl_append]
  rfl

theorem quoteattr_cases (data : List Char) :
    (quoteattr data = '\'' :: (escape lineEntities data ++ ['\''])
      ∧ '\'' ∉ escape lineEntities data)
    ∨ quoteattr data = '"' :: (escape quoteEntities data ++ ['"']) := by
  simp only [quoteattr]
  rw [escape_quoteEntities]
  split_ifs with hdouble hsingle
  · exact .inr rfl
  · exact .inl ⟨rfl, hsingle⟩
  · right
    rw [replaceText_singleton, flatMap_congr (g := fun c => [c]), flatMap_singleton']
    rintro c hc
    rw [if_neg]
    rintro rfl
    exact hdouble hc

theorem quoteattr_append_inj {data data' rest rest' : List Char}
    (h : quoteattr data ++ rest = quoteattr data' ++ rest') : data = data' ∧ rest = rest' := by
  have hquoted : ∀ data, '"' ∉ escape quoteEntities data := fun data =>
    spells_quoted.notMem (by decide) (by decide)
  rcases quoteattr_cases data with ⟨heq, hd⟩ | heq <;>
    rcases quoteattr_cases data' with ⟨heq', hd'⟩ | heq' <;>
    simp only [heq, heq', cons_append, append_assoc, nil_append,
      cons.injEq] at h
  · exact (Pattern.append_cons_inj hd hd' h.2).imp_left spells_attribute.escape_inj
  · exact absurd h.1 (by decide)
  · exact absurd h.1 (by decide)
  · exact (Pattern.append_cons_inj (hquoted _) (hquoted _) h.2).imp_left spells_quoted.escape_inj

theorem escape_append_inj {text text' rest rest' : List Char}
    (h : escape [] text ++ ("\n</passage>".toList ++ rest)
      = escape [] text' ++ ("\n</passage>".toList ++ rest')) : text = text' ∧ rest = rest' := by
  have hnotMem : ∀ text, '<' ∉ escape [] text ++ ['\n'] := by
    intro text
    rw [mem_append, not_or]
    exact ⟨spells_text.notMem (by decide) (by decide), by decide⟩
  have hcut : ∀ text rest, escape [] text ++ ("\n</passage>".toList ++ rest)
      = (escape [] text ++ ['\n']) ++ '<' :: ("/passage>".toList ++ rest) := by
    intro text rest
    rw [append_assoc]
    rfl
  rw [hcut, hcut] at h
  obtain ⟨htext, hrest⟩ := Pattern.append_cons_inj (hnotMem _) (hnotMem _) h
  exact ⟨spells_text.escape_inj (append_cancel_right htext), append_cancel_left hrest⟩

theorem passageBlock_append_inj {p q : Passage} {rest rest' : List Char}
    (h : passageBlock p ++ rest = passageBlock q ++ rest') : p = q ∧ rest = rest' := by
  delta passageBlock at h
  simp only [append_assoc] at h
  obtain ⟨hid, h⟩ := quoteattr_append_inj (append_cancel_left h)
  obtain ⟨hname, h⟩ := quoteattr_append_inj (append_cancel_left h)
  obtain ⟨hlocation, h⟩ := quoteattr_append_inj (append_cancel_left h)
  obtain ⟨htext, hrest⟩ := escape_append_inj (append_cancel_left h)
  refine ⟨?_, hrest⟩
  cases p
  cases q
  simp_all

theorem passageBlock_eq (p : Passage) : ∃ rest, passageBlock p = '<' :: 'p' :: rest := ⟨_, rfl⟩

def passageLines (passages : List Passage) : List Char :=
  (passages.flatMap fun p => '\n' :: passageBlock p) ++ "\n</evidence>".toList

theorem intercalate_passageBlock (first : List Char) (passages : List Passage) :
    ['\n'].intercalate (first :: (passages.map passageBlock ++ ["</evidence>".toList]))
      = first ++ passageLines passages := by
  unfold passageLines
  induction passages generalizing first with
  | nil => rfl
  | cons p passages ih =>
    rw [map_cons, cons_append, intercalate_cons_cons, ih]
    simp

theorem formatContext_eq (passages : List Passage) :
    formatContext passages = evidencePreamble ++ ('\n' :: ("<evidence>".toList
      ++ passageLines passages)) := by
  unfold formatContext
  simp only [cons_append, nil_append, intercalate_cons_cons,
    intercalate_passageBlock]
  simp

theorem passageLines_inj : ∀ {ps qs : List Passage}, passageLines ps = passageLines qs → ps = qs
  | [], [], _ => rfl
  | [], q :: qs, h => by
    obtain ⟨rest, hq⟩ := passageBlock_eq q
    simp [passageLines, hq] at h
  | p :: ps, [], h => by
    obtain ⟨rest, hp⟩ := passageBlock_eq p
    simp [passageLines, hp] at h
  | p :: ps, q :: qs, h => by
    simp only [passageLines, flatMap_cons, cons_append, append_assoc,
      cons.injEq, true_and] at h
    obtain ⟨rfl, hrest⟩ := passageBlock_append_inj h
    rw [passageLines_inj hrest]

/-- Two lists of passages that are formatted alike are the same, whatever the passages contain. -/
theorem formatContext_inj (ps qs : List Passage) :
    formatContext ps = formatContext qs ↔ ps = qs := by
  refine ⟨fun h => ?_, congrArg formatContext⟩
  rw [formatContext_eq, formatContext_eq] at h
  exact passageLines_inj (append_cancel_left (cons.inj (append_cancel_left h)).2)

end Crewquarters
