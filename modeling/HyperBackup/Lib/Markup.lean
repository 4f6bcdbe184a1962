import Mathlib.Data.List.Basic

/-!
# Texts between tags

A text with elements is a tree; written down, every element has its tags around its
contents.  A reader that has no grammar looks for the first start tag of a name and for
the first end tag behind it.  It reads the contents of the first element of that name,
if no element of the same name is within: every tag begins with a character that
neither names nor texts have, so no tag is found in the middle of another.
-/

namespace Lib
namespace Markup

section Passing

variable {α : Type} {pattern front rest : List α} {c : α}

/-- The pattern does not begin in the text, whatever is behind it. -/
def Passes (pattern front : List α) : Prop :=
  ∀ s, s <:+ front → s ≠ [] → ∀ rest, ¬ pattern <+: s ++ rest

theorem passes_nil (pattern : List α) : Passes pattern [] :=
  fun _ hs hne => absurd (List.suffix_nil.mp hs) hne

theorem passes_cons (h : ∀ rest, ¬ pattern <+: c :: (front ++ rest))
    (hfront : Passes pattern front) : Passes pattern (c :: front) := by
  intro s hs hne
  rcases List.suffix_cons_iff.mp hs with rfl | hs
  · exact h
  · exact hfront s hs hne

theorem Passes.of_cons (h : Passes pattern (c :: front)) : Passes pattern front :=
  fun s hs => h s (hs.trans (List.suffix_cons c front))

theorem Passes.append (h : Passes pattern front) (h' : Passes pattern rest) :
    Passes pattern (front ++ rest) := by
  induction front with
  | nil => exact h'
  | cons c front ih =>
      rw [List.cons_append]
      refine passes_cons (fun more => ?_) (ih h.of_cons)
      rw [List.append_assoc]
      exact h (c :: front) List.suffix_rfl (List.cons_ne_nil c front) (rest ++ more)

/-- A text without the first character of the pattern. -/
theorem passes_of_not_mem (h : c ∉ front) : Passes (c :: pattern) front := by
  intro s hs hne rest hbegins
  cases s with
  | nil => exact hne rfl
  | cons c' s =>
      obtain ⟨rfl, -⟩ := List.cons_prefix_cons.mp hbegins
      exact h (hs.subset List.mem_cons_self)

end Passing

section Search

variable {α : Type} [DecidableEq α]

/-- The place where the pattern stands in the text for the first time. -/
def find (pattern : List α) : List α → Option Nat
  | [] => if pattern = [] then some 0 else none
  | c :: text =>
      if pattern.isPrefixOf (c :: text) then some 0
      else (find pattern text).map (· + 1)

variable {pattern text front rest : List α} {i : Nat}

theorem find_eq_zero (h : pattern <+: text) : find pattern text = some 0 := by
  cases text with
  | nil => exact if_pos (List.prefix_nil.mp h)
  | cons c text => exact if_pos (List.isPrefixOf_iff_prefix.mpr h)

theorem find_cons_of_no_match {c : α} (h : ¬ pattern <+: c :: text) :
    find pattern (c :: text) = (find pattern text).map (· + 1) :=
  if_neg fun hbegins => h (List.isPrefixOf_iff_prefix.mp hbegins)

/-- What is found is in the text. -/
theorem add_length_le_of_find (h : find pattern text = some i) :
    i + pattern.length ≤ text.length := by
  induction text generalizing i with
  | nil =>
      by_cases hpattern : pattern = []
      · rw [find, if_pos hpattern] at h
        obtain rfl := Option.some.inj h
        rw [hpattern]
        exact Nat.le_refl 0
      · rw [find, if_neg hpattern] at h
        cases h
  | cons c text ih =>
      by_cases hbegins : pattern <+: c :: text
      · rw [find_eq_zero hbegins] at h
        obtain rfl := Option.some.inj h
        rw [Nat.zero_add]
        exact hbegins.length_le
      · rw [find_cons_of_no_match hbegins, Option.map_eq_some_iff] at h
        obtain ⟨j, hj, rfl⟩ := h
        have hle := ih hj
        rw [List.length_cons]
        omega

theorem find_eq_none_iff : find pattern text = none ↔ ¬ pattern <:+: text := by
  induction text with
  | nil =>
      rw [find, List.infix_nil]
      split
      next h =>
        simp [h]
      next h =>
        simp [h]
  | cons c text ih =>
      by_cases hbegins : pattern <+: c :: text
      · rw [find_eq_zero hbegins]
        simp [hbegins.isInfix]
      · rw [find_cons_of_no_match hbegins, Option.map_eq_none_iff, ih,
          List.infix_cons_iff, or_iff_right hbegins]

/-- More text behind does not change what is found first. -/
theorem find_append_of_eq_some (h : find pattern text = some i) (rest : List α) :
    find pattern (text ++ rest) = some i := by
  induction text generalizing i with
  | nil =>
      by_cases hpattern : pattern = []
      · rw [find, if_pos hpattern] at h
        rw [← h, hpattern]
        exact find_eq_zero List.nil_prefix
      · rw [find, if_neg hpattern] at h
        cases h
  | cons c text ih =>
      by_cases hbegins : pattern <+: c :: text
      · rw [find_eq_zero hbegins] at h
        rw [← h]
        exact find_eq_zero (hbegins.trans (List.prefix_append (c :: text) rest))
      · have hle := add_length_le_of_find h
        have hnot : ¬ pattern <+: c :: (text ++ rest) := by
          intro hlong
          refine hbegins (List.prefix_of_prefix_length_le hlong ?_ (by omega))
          exact List.prefix_append (c :: text) rest
        rw [find_cons_of_no_match hbegins, Option.map_eq_some_iff] at h
        obtain ⟨j, hj, rfl⟩ := h
        rw [List.cons_append, find_cons_of_no_match hnot, ih hj]
        rfl

/-- The search goes on behind a text that it passes. -/
theorem find_append_of_passes (h : Passes pattern front) (rest : List α) :
    find pattern (front ++ rest) = (find pattern rest).map (front.length + ·) := by
  induction front with
  | nil =>
      simp
  | cons c front ih =>
      have hhead : ¬ pattern <+: c :: (front ++ rest) :=
        h (c :: front) List.suffix_rfl (List.cons_ne_nil c front) rest
      rw [List.cons_append, find_cons_of_no_match hhead, ih h.of_cons, Option.map_map]
      refine congrArg (fun f => (find pattern rest).map f) (funext fun i => ?_)
      simp only [Function.comp_def, List.length_cons]
      omega

theorem find_of_passes (h : Passes pattern text) (hne : pattern ≠ []) :
    find pattern text = none := by
  have hfind := find_append_of_passes h []
  rwa [List.append_nil, find, if_neg hne, Option.map_none] at hfind

/-- The pattern is found behind a text that the search passes. -/
theorem find_behind (h : Passes pattern front) (rest : List α) :
    find pattern (front ++ (pattern ++ rest)) = some front.length := by
  rw [find_append_of_passes h, find_eq_zero (List.prefix_append pattern rest),
    Option.map_some, Nat.add_zero]

end Search

section Tags

def openTag (name : List Char) : List Char :=
  '<' :: (name ++ ['>'])

def closeTag (name : List Char) : List Char :=
  '<' :: '/' :: (name ++ ['>'])

/-- A character of a name. -/
def IsNameChar (c : Char) : Prop :=
  c ∉ ['<', '>', '/', '?', '!'] ∧ c.isWhitespace = false

instance (c : Char) : Decidable (IsNameChar c) :=
  inferInstanceAs (Decidable (_ ∧ _))

def IsName (name : List Char) : Prop :=
  name ≠ [] ∧ ∀ c ∈ name, IsNameChar c

instance (name : List Char) : Decidable (IsName name) :=
  have := List.decidableBAll IsNameChar name
  inferInstanceAs (Decidable (_ ∧ _))

/-- What stands behind the name in a start tag. -/
def IsAttributes (attributes : List Char) : Prop :=
  '<' ∉ attributes ∧ (attributes.head?.all Char.isWhitespace) = true

instance (attributes : List Char) : Decidable (IsAttributes attributes) :=
  inferInstanceAs (Decidable (_ ∧ _))

variable {name other attributes rest : List Char}

theorem IsName.notMem (h : IsName name) {c : Char} (hc : ¬ IsNameChar c) : c ∉ name :=
  fun hmem => hc (h.2 c hmem)

/-- A name that is before the text ends there. -/
def EndsName (rest : List Char) : Prop :=
  rest.head?.all (fun c => decide (¬ IsNameChar c)) = true

theorem endsName_cons {c : Char} (h : ¬ IsNameChar c) (rest : List Char) :
    EndsName (c :: rest) :=
  decide_eq_true h

theorem endsName_tag (rest : List Char) : EndsName ('>' :: rest) :=
  endsName_cons (by decide) rest

theorem takeWhile_name (h : IsName name) (hrest : EndsName rest) :
    (name ++ rest).takeWhile (fun c => decide (IsNameChar c)) = name := by
  have hname : ∀ c ∈ name, decide (IsNameChar c) = true := fun c hc =>
    decide_eq_true (h.2 c hc)
  have hstop : rest.takeWhile (fun c => decide (IsNameChar c)) = [] := by
    cases rest with
    | nil => rfl
    | cons c rest =>
        have hc : ¬ IsNameChar c := of_decide_eq_true hrest
        exact List.takeWhile_cons_of_neg (by simp [hc])
  rw [List.takeWhile_append_of_pos hname, hstop, List.append_nil]

/-- A name with its end is found at another name only if they are the same. -/
theorem eq_of_begins (h : IsName name) (h' : IsName other) (hrest : EndsName rest)
    (hbegins : name ++ ['>'] <+: other ++ rest) : name = other := by
  obtain ⟨more, heq⟩ := hbegins
  rw [List.append_assoc] at heq
  rw [← takeWhile_name h (endsName_tag more)]
  change (name ++ (['>'] ++ more)).takeWhile _ = other
  rw [heq, takeWhile_name h' hrest]

/-- A tag is passed if the pattern does not begin with it. -/
theorem passes_tag {pattern tag : List Char} (h : '<' ∉ tag)
    (hbegins : ∀ rest, ¬ pattern <+: tag ++ rest) :
    Passes ('<' :: pattern) ('<' :: tag) := by
  refine passes_cons (fun rest hrest => ?_) (passes_of_not_mem h)
  exact hbegins rest (List.cons_prefix_cons.mp hrest).2

theorem passes_tag_of_head_ne {c c' : Char} {pattern tag : List Char}
    (h : '<' ∉ c' :: tag) (hne : c ≠ c') :
    Passes ('<' :: c :: pattern) ('<' :: c' :: tag) :=
  passes_tag h fun _ hbegins => hne (List.cons_prefix_cons.mp hbegins).1

theorem IsName.exists_cons (h : IsName name) :
    ∃ c rest, name = c :: rest ∧ IsNameChar c := by
  obtain ⟨c, rest, rfl⟩ := List.exists_cons_of_ne_nil h.1
  exact ⟨c, rest, rfl, h.2 c List.mem_cons_self⟩

/-- A start tag of one name is passed in the search for one of another. -/
theorem passes_openTag (h : IsName name) (h' : IsName other) (hne : other ≠ name)
    (hattributes : IsAttributes attributes) {stop : List Char} (hstop : '<' ∉ stop)
    (hhead : ∃ c rest, stop = c :: rest ∧ ¬ IsNameChar c) :
    Passes (openTag name) ('<' :: (other ++ (attributes ++ stop))) := by
  refine passes_tag ?_ fun rest hbegins => ?_
  · rw [List.mem_append, List.mem_append, not_or, not_or]
    exact ⟨h'.notMem (by decide), hattributes.1, hstop⟩
  · rw [List.append_assoc] at hbegins
    refine hne (eq_of_begins h h' ?_ hbegins).symm
    cases attributes with
    | nil =>
        obtain ⟨c, more, rfl, hc⟩ := hhead
        exact endsName_cons hc _
    | cons c attributes =>
        have hspace : c.isWhitespace = true := hattributes.2
        exact endsName_cons (fun hc => absurd (hc.2.symm.trans hspace) (by decide)) _

theorem passes_startTag (h : IsName name) (h' : IsName other) (hne : other ≠ name)
    (hattributes : IsAttributes attributes) :
    Passes (openTag name) ('<' :: (other ++ (attributes ++ ['>']))) :=
  passes_openTag h h' hne hattributes (by decide) ⟨'>', [], rfl, by decide⟩

theorem passes_emptyTag (h : IsName name) (h' : IsName other) (hne : other ≠ name)
    (hattributes : IsAttributes attributes) :
    Passes (openTag name) ('<' :: (other ++ (attributes ++ ['/', '>']))) :=
  passes_openTag h h' hne hattributes (by decide) ⟨'/', ['>'], rfl, by decide⟩

/-- An end tag is passed in the search for a start tag. -/
theorem passes_openTag_closeTag (h : IsName name) (h' : IsName other) :
    Passes (openTag name) (closeTag other) := by
  obtain ⟨c, rest, rfl, hc⟩ := h.exists_cons
  refine passes_tag_of_head_ne ?_ fun heq => ?_
  · rw [List.mem_cons, List.mem_append, not_or, not_or]
    exact ⟨by decide, h'.notMem (by decide), by decide⟩
  · rw [heq] at hc
    exact absurd hc (by decide)

/-- A start tag is passed in the search for an end tag. -/
theorem passes_closeTag_openTag (name : List Char) (h' : IsName other)
    (hattributes : IsAttributes attributes) {stop : List Char} (hstop : '<' ∉ stop) :
    Passes (closeTag name) ('<' :: (other ++ (attributes ++ stop))) := by
  have hmem : '<' ∉ other ++ (attributes ++ stop) := by
    rw [List.mem_append, List.mem_append, not_or, not_or]
    exact ⟨h'.notMem (by decide), hattributes.1, hstop⟩
  obtain ⟨c, rest, rfl, hc⟩ := h'.exists_cons
  refine passes_tag_of_head_ne hmem fun heq => ?_
  rw [← heq] at hc
  exact absurd hc (by decide)

theorem passes_closeTag_closeTag (h : IsName name) (h' : IsName other)
    (hne : other ≠ name) : Passes (closeTag name) (closeTag other) := by
  refine passes_tag ?_ fun rest hbegins => ?_
  · rw [List.mem_cons, List.mem_append, not_or, not_or]
    exact ⟨by decide, h'.notMem (by decide), by decide⟩
  · rw [List.cons_append, List.append_assoc] at hbegins
    have hnames := (List.cons_prefix_cons.mp hbegins).2
    exact hne (eq_of_begins h h' (endsName_tag rest) hnames).symm

theorem notMem_note {c : Char} {t : List Char} (hc : c = '?' ∨ c = '!') (ht : '<' ∉ t) :
    '<' ∉ c :: (t ++ ['>']) := by
  rw [List.mem_cons, List.mem_append, not_or, not_or]
  refine ⟨?_, ht, by decide⟩
  rcases hc with rfl | rfl
  · decide
  · decide

/-- A tag that begins with a question or an exclamation mark is passed. -/
theorem passes_note (h : IsName name) {c : Char} {tag : List Char}
    (hc : c = '?' ∨ c = '!') (htag : '<' ∉ c :: tag) :
    Passes (openTag name) ('<' :: c :: tag) ∧
      Passes (closeTag name) ('<' :: c :: tag) := by
  have hchar : ¬ IsNameChar c := by
    rcases hc with rfl | rfl
    · decide
    · decide
  constructor
  · obtain ⟨c', rest, rfl, hc'⟩ := h.exists_cons
    exact passes_tag_of_head_ne htag fun heq => hchar (heq ▸ hc')
  · refine passes_tag_of_head_ne htag ?_
    rcases hc with rfl | rfl
    · decide
    · decide

end Tags

section Reading

/-- The text between the first start tag of the name and the first end tag behind it,
and what is behind both. -/
def cut (name text : List Char) : Option (List Char × List Char) :=
  (find (openTag name) text).bind fun i =>
    let inner := text.drop (i + (openTag name).length)
    (find (closeTag name) inner).map fun e =>
      (inner.take e, inner.drop (e + (closeTag name).length))

/-- The tags that are found, and what is between and behind them. -/
theorem cut_eq_some_iff {name text inner rest : List Char} :
    cut name text = some (inner, rest) ↔
      ∃ i e, find (openTag name) text = some i ∧
        find (closeTag name) (text.drop (i + (openTag name).length)) = some e ∧
        inner = (text.drop (i + (openTag name).length)).take e ∧
        rest = text.drop (i + (openTag name).length + e + (closeTag name).length) := by
  unfold cut
  constructor
  · intro h
    obtain ⟨i, hi, h⟩ := Option.bind_eq_some_iff.mp h
    obtain ⟨e, he, h⟩ := Option.map_eq_some_iff.mp h
    obtain ⟨rfl, rfl⟩ := Prod.mk.inj h
    refine ⟨i, e, hi, he, rfl, ?_⟩
    rw [List.drop_drop, Nat.add_assoc _ e]
  · rintro ⟨i, e, hi, he, rfl, rfl⟩
    simp only [hi, Option.bind_some, he, Option.map_some, List.drop_drop, Nat.add_assoc]

theorem length_cut {name text inner rest : List Char}
    (h : cut name text = some (inner, rest)) : rest.length < text.length := by
  obtain ⟨i, e, hi, -, -, rfl⟩ := cut_eq_some_iff.mp h
  have hle := add_length_le_of_find hi
  have hpos : 0 < (openTag name).length := Nat.succ_pos _
  simp only [List.length_drop]
  omega

/-- All texts between the tags of the name. -/
def texts (name text : List Char) : List (List Char) :=
  match _h : cut name text with
  | none => []
  | some (inner, rest) => inner :: texts name rest
termination_by text.length
decreasing_by
  exact length_cut _h

theorem texts_of_cut_eq_none {name text : List Char} (h : cut name text = none) :
    texts name text = [] := by
  rw [texts]
  split
  · rfl
  · rename_i heq
    rw [h] at heq
    cases heq

theorem texts_of_cut_eq_some {name text inner rest : List Char}
    (h : cut name text = some (inner, rest)) :
    texts name text = inner :: texts name rest := by
  rw [texts]
  split
  · rename_i heq
    rw [h] at heq
    cases heq
  · rename_i heq
    rw [h] at heq
    obtain ⟨rfl, rfl⟩ := Prod.mk.inj (Option.some.inj heq)
    rfl

variable {name front : List Char}

theorem cut_append_of_passes (h : Passes (openTag name) front) (rest : List Char) :
    cut name (front ++ rest) = cut name rest := by
  unfold cut
  rw [find_append_of_passes h, Option.bind_map]
  refine congrArg (fun f => (find (openTag name) rest).bind f) (funext fun i => ?_)
  have hdrop : (front ++ rest).drop (front.length + i + (openTag name).length) =
      rest.drop (i + (openTag name).length) := by
    rw [Nat.add_assoc, List.drop_append, List.drop_eq_nil_of_le (Nat.le_add_right _ _),
      List.nil_append, Nat.add_sub_cancel_left]
  simp only [Function.comp_def, hdrop]

theorem cut_of_passes (h : Passes (openTag name) front) : cut name front = none := by
  rw [cut, find_of_passes h (List.cons_ne_nil _ _), Option.bind_none]

/-- What stands between the tags is cut out. -/
theorem cut_element {inner : List Char} (h : Passes (closeTag name) inner)
    (rest : List Char) :
    cut name (openTag name ++ (inner ++ (closeTag name ++ rest))) =
      some (inner, rest) := by
  have hopen : find (openTag name) (openTag name ++ (inner ++ (closeTag name ++ rest))) =
      some 0 :=
    find_eq_zero (List.prefix_append _ _)
  have hbehind : (inner ++ (closeTag name ++ rest)).drop
      (inner.length + (closeTag name).length) = rest := by
    rw [← List.append_assoc, ← List.length_append, List.drop_left]
  simp only [cut, hopen, Option.bind_some, Nat.zero_add, List.drop_left, find_behind h,
    Option.map_some, List.take_left, hbehind]

/-- The first of the texts is that which is cut out. -/
theorem head?_texts (name text : List Char) :
    (texts name text).head? = (cut name text).map Prod.fst := by
  cases h : cut name text with
  | none => rw [texts_of_cut_eq_none h, List.head?_nil, Option.map_none]
  | some parts => rw [texts_of_cut_eq_some h, List.head?_cons, Option.map_some]

theorem texts_append_of_passes (h : Passes (openTag name) front) (rest : List Char) :
    texts name (front ++ rest) = texts name rest := by
  have hcut := cut_append_of_passes h rest
  cases hrest : cut name rest with
  | none =>
      rw [texts_of_cut_eq_none (hcut.trans hrest), texts_of_cut_eq_none hrest]
  | some parts =>
      rw [texts_of_cut_eq_some (hcut.trans hrest), texts_of_cut_eq_some hrest]

end Reading

section Trees

/-- The nodes of a text with elements: texts, elements with and without contents, and
declarations or comments. -/
inductive Nodes
  | nil
  | text (t : List Char) (rest : Nodes)
  | element (name attributes : List Char) (content rest : Nodes)
  | empty (name attributes : List Char) (rest : Nodes)
  | note (mark : Char) (t : List Char) (rest : Nodes)
deriving DecidableEq

namespace Nodes

def render : Nodes → List Char
  | nil => []
  | text t rest => t ++ rest.render
  | element name attributes content rest =>
      '<' :: (name ++ (attributes ++ ['>'])) ++
        (content.render ++ (closeTag name ++ rest.render))
  | empty name attributes rest =>
      '<' :: (name ++ (attributes ++ ['/', '>'])) ++ rest.render
  | note mark t rest => '<' :: mark :: (t ++ ['>']) ++ rest.render

/-- The tags are well formed, and those of the listed names are plain. -/
def WellFormed (plain : List (List Char)) : Nodes → Prop
  | nil => True
  | text t rest => '<' ∉ t ∧ rest.WellFormed plain
  | element name attributes content rest =>
      IsName name ∧ IsAttributes attributes ∧ (name ∈ plain → attributes = []) ∧
        content.WellFormed plain ∧ rest.WellFormed plain
  | empty name attributes rest =>
      IsName name ∧ IsAttributes attributes ∧ name ∉ plain ∧ rest.WellFormed plain
  | note mark t rest => (mark = '?' ∨ mark = '!') ∧ '<' ∉ t ∧ rest.WellFormed plain

instance decidableWellFormed (plain : List (List Char)) :
    (nodes : Nodes) → Decidable (nodes.WellFormed plain)
  | nil => isTrue trivial
  | text _ rest =>
      have := decidableWellFormed plain rest
      inferInstanceAs (Decidable (_ ∧ _))
  | element _ _ content rest =>
      have := decidableWellFormed plain content
      have := decidableWellFormed plain rest
      inferInstanceAs (Decidable (_ ∧ _ ∧ (_ → _) ∧ _ ∧ _))
  | empty _ _ rest =>
      have := decidableWellFormed plain rest
      inferInstanceAs (Decidable (_ ∧ _ ∧ _ ∧ _))
  | note _ _ rest =>
      have := decidableWellFormed plain rest
      inferInstanceAs (Decidable ((_ ∨ _) ∧ _ ∧ _))

/-- The contents of the elements of a name, an outer one before those within. -/
def named (name : List Char) : Nodes → List Nodes
  | nil => []
  | text _ rest => rest.named name
  | element other _ content rest =>
      if other = name then content :: (content.named name ++ rest.named name)
      else content.named name ++ rest.named name
  | empty _ _ rest => rest.named name
  | note _ _ rest => rest.named name

variable {plain : List (List Char)} {name : List Char} {nodes : Nodes}

/-- Where no element of the name is, its tags are not found. -/
theorem passes_render (h : IsName name) (hplain : name ∈ plain)
    (hnodes : nodes.WellFormed plain) (hnone : nodes.named name = []) :
    Passes (openTag name) nodes.render ∧ Passes (closeTag name) nodes.render := by
  induction nodes with
  | nil =>
      exact ⟨passes_nil _, passes_nil _⟩
  | text t rest ih =>
      obtain ⟨ht, hrest⟩ := hnodes
      obtain ⟨hopen, hclose⟩ := ih hrest hnone
      exact ⟨(passes_of_not_mem ht).append hopen, (passes_of_not_mem ht).append hclose⟩
  | element other attributes content rest ihcontent ihrest =>
      obtain ⟨hother, hattributes, -, hcontent, hrest⟩ := hnodes
      rw [named] at hnone
      by_cases heq : other = name
      · rw [if_pos heq] at hnone
        cases hnone
      · rw [if_neg heq, List.append_eq_nil_iff] at hnone
        obtain ⟨hopen, hclose⟩ := ihcontent hcontent hnone.1
        obtain ⟨hopen', hclose'⟩ := ihrest hrest hnone.2
        exact ⟨(passes_startTag h hother heq hattributes).append
            (hopen.append ((passes_openTag_closeTag h hother).append hopen')),
          (passes_closeTag_openTag name hother hattributes (by decide)).append
            (hclose.append ((passes_closeTag_closeTag h hother heq).append hclose'))⟩
  | empty other attributes rest ih =>
      obtain ⟨hother, hattributes, hnot, hrest⟩ := hnodes
      obtain ⟨hopen, hclose⟩ := ih hrest hnone
      have hne : other ≠ name := fun heq => hnot (heq ▸ hplain)
      exact ⟨(passes_emptyTag h hother hne hattributes).append hopen,
        (passes_closeTag_openTag name hother hattributes (by decide)).append hclose⟩
  | note mark t rest ih =>
      obtain ⟨hmark, ht, hrest⟩ := hnodes
      obtain ⟨hopen, hclose⟩ := ih hrest hnone
      obtain ⟨hopen', hclose'⟩ := passes_note h hmark (notMem_note hmark ht)
      exact ⟨hopen'.append hopen, hclose'.append hclose⟩

/-- An element of a listed name is written with its plain tags. -/
theorem render_element_append (content rest : Nodes) (tail : List Char) :
    (element name [] content rest).render ++ tail =
      openTag name ++ (content.render ++ (closeTag name ++ (rest.render ++ tail))) := by
  simp only [render, openTag, List.nil_append, List.append_assoc, List.cons_append]

/-- The texts between the tags of a name are the contents of the elements of that name,
if none of these is within another. -/
theorem texts_render (h : IsName name) (hplain : name ∈ plain)
    (hnodes : nodes.WellFormed plain)
    (hflat : ∀ content ∈ nodes.named name, content.named name = []) (tail : List Char) :
    texts name (nodes.render ++ tail) =
      (nodes.named name).map render ++ texts name tail := by
  induction nodes generalizing tail with
  | nil =>
      rfl
  | text t rest ih =>
      obtain ⟨ht, hrest⟩ := hnodes
      rw [render, List.append_assoc, texts_append_of_passes (passes_of_not_mem ht)]
      exact ih hrest hflat tail
  | element other attributes content rest ihcontent ihrest =>
      obtain ⟨hother, hattributes, hno, hcontent, hrest⟩ := hnodes
      by_cases heq : other = name
      · subst heq
        obtain rfl := hno hplain
        rw [named, if_pos rfl] at hflat ⊢
        have hinner := hflat content List.mem_cons_self
        obtain ⟨-, hclose⟩ := passes_render h hplain hcontent hinner
        rw [hinner, List.nil_append] at hflat ⊢
        rw [render_element_append, texts_of_cut_eq_some (cut_element hclose _),
          ihrest hrest (fun c hc => hflat c (List.mem_cons_of_mem _ hc)) tail]
        rfl
      · have hstart := passes_startTag h hother heq hattributes
        rw [named, if_neg heq] at hflat ⊢
        simp only [render, List.append_assoc, List.map_append]
        rw [texts_append_of_passes hstart,
          ihcontent hcontent (fun c hc => hflat c (List.mem_append_left _ hc)),
          texts_append_of_passes (passes_openTag_closeTag h hother),
          ihrest hrest (fun c hc => hflat c (List.mem_append_right _ hc))]
  | empty other attributes rest ih =>
      obtain ⟨hother, hattributes, hnot, hrest⟩ := hnodes
      have hne : other ≠ name := fun heq => hnot (heq ▸ hplain)
      rw [render, List.append_assoc,
        texts_append_of_passes (passes_emptyTag h hother hne hattributes)]
      exact ih hrest hflat tail
  | note mark t rest ih =>
      obtain ⟨hmark, ht, hrest⟩ := hnodes
      rw [render, List.append_assoc,
        texts_append_of_passes (passes_note h hmark (notMem_note hmark ht)).1]
      exact ih hrest hflat tail

theorem WellFormed.of_mem_named {content : Nodes} (hnodes : nodes.WellFormed plain)
    (h : content ∈ nodes.named name) : content.WellFormed plain := by
  induction nodes with
  | nil =>
      cases h
  | text t rest ih =>
      exact ih hnodes.2 h
  | element other attributes inner rest ihinner ihrest =>
      obtain ⟨-, -, -, hinner, hrest⟩ := hnodes
      have hwithin : content ∈ inner.named name ++ rest.named name →
          content.WellFormed plain := by
        intro hmem
        rcases List.mem_append.mp hmem with hmem | hmem
        · exact ihinner hinner hmem
        · exact ihrest hrest hmem
      rw [named] at h
      split at h
      · rcases List.mem_cons.mp h with rfl | hmem
        · exact hinner
        · exact hwithin hmem
      · exact hwithin h
  | empty other attributes rest ih =>
      exact ih hnodes.2.2.2 h
  | note mark t rest ih =>
      exact ih hnodes.2.2 h

/-- Contents without the first character of tags have no elements. -/
theorem named_eq_nil_of_notMem (h : '<' ∉ nodes.render) (name : List Char) :
    nodes.named name = [] := by
  induction nodes with
  | nil =>
      rfl
  | text t rest ih =>
      exact ih fun hmem => h (List.mem_append_right t hmem)
  | element other attributes content rest =>
      exact absurd List.mem_cons_self h
  | empty other attributes rest =>
      exact absurd List.mem_cons_self h
  | note mark t rest =>
      exact absurd List.mem_cons_self h

/-- What is cut out of a text with no more than one element of the name. -/
theorem cut_render (h : IsName name) (hplain : name ∈ plain)
    (hnodes : nodes.WellFormed plain)
    (hflat : ∀ content ∈ nodes.named name, content.named name = []) :
    (cut name nodes.render).map Prod.fst = (nodes.named name).head?.map render := by
  have htexts := texts_render h hplain hnodes hflat []
  have hnil : texts name [] = [] :=
    texts_of_cut_eq_none (cut_of_passes (passes_nil _))
  rw [List.append_nil, hnil, List.append_nil] at htexts
  rw [← head?_texts, htexts, List.head?_map]

end Nodes

end Trees

end Markup
end Lib
