import HyperBackup.Lib.Replace
import Mathlib.Data.List.TakeWhile

/-!
# Patterns matched by backtracking

A pattern is a sequence of pieces.  A matcher that backtracks tries the ways to match a
pattern at the start of a text in a fixed order.  `rests` lists what each of them leaves
of the text, the preferred one first.

If no match ends in the tail of a text, the matches are those of the text without the
tail.  A pattern whose last piece takes a run of characters ends its match alike for all
tails that consist of such characters.
-/

namespace Lib
namespace Regex

open Replace

variable {α : Type}

/-- One of several words, compared after folding the text; one character; and runs of
characters: as long as possible, as short as possible, or long and not empty. -/
inductive Piece (α : Type)
  | words (fold : α → α) (options : List (List α))
  | one (p : α → Bool)
  | many (p : α → Bool)
  | lazy (p : α → Bool)
  | many1 (p : α → Bool)

/-- What the runs at the start of a text leave, the empty run first. -/
def runs (p : α → Bool) : List α → List (List α)
  | [] => [[]]
  | c :: text => (c :: text) :: if p c then runs p text else []

section Matches

variable [DecidableEq α]

def Piece.rests : Piece α → List α → List (List α)
  | .words fold options, text =>
      options.filterMap fun word =>
        if (text.take word.length).map fold = word then some (text.drop word.length)
        else none
  | .one _, [] => []
  | .one p, c :: text => if p c then [text] else []
  | .many p, text => (runs p text).reverse
  | .lazy p, text => runs p text
  | .many1 _, [] => []
  | .many1 p, c :: text => if p c then (runs p text).reverse else []

def rests : List (Piece α) → List α → List (List α)
  | [], text => [text]
  | piece :: pieces, text => (piece.rests text).flatMap (rests pieces)

/-- What the preferred match at the start of the text leaves. -/
def matchRest (pieces : List (Piece α)) (text : List α) : Option (List α) :=
  (rests pieces text).head?

end Matches

/-- The texts that a piece matches in full. -/
def Piece.Takes : Piece α → List α → Prop
  | .words fold options, text => text.map fold ∈ options
  | .one p, text => ∃ c, p c ∧ text = [c]
  | .many p, text => ∀ c ∈ text, p c
  | .lazy p, text => ∀ c ∈ text, p c
  | .many1 p, text => text ≠ [] ∧ ∀ c ∈ text, p c

section Runs

variable {p : α → Bool} {text rest : List α}

theorem mem_runs_iff :
    rest ∈ runs p text ↔ ∃ taken, (∀ c ∈ taken, p c) ∧ taken ++ rest = text := by
  induction text with
  | nil =>
      simp [runs]
  | cons c text ih =>
      simp only [runs, List.mem_cons]
      constructor
      · rintro (rfl | h)
        · exact ⟨[], by simp, rfl⟩
        · by_cases hc : p c
          · rw [if_pos hc] at h
            obtain ⟨taken, htaken, rfl⟩ := ih.mp h
            exact ⟨c :: taken, List.forall_mem_cons.mpr ⟨hc, htaken⟩, rfl⟩
          · rw [if_neg hc] at h
            cases h
      · rintro ⟨taken, htaken, htext⟩
        cases taken with
        | nil =>
            exact Or.inl htext
        | cons c' taken =>
            obtain ⟨rfl, rfl⟩ := List.cons.inj htext
            obtain ⟨hc, htaken⟩ := List.forall_mem_cons.mp htaken
            rw [if_pos hc]
            exact Or.inr (ih.mpr ⟨taken, htaken, rfl⟩)

theorem length_le_of_mem_runs (h : rest ∈ runs p text) : rest.length ≤ text.length := by
  obtain ⟨taken, -, rfl⟩ := mem_runs_iff.mp h
  rw [List.length_append]
  omega

theorem getLast?_runs (p : α → Bool) (text : List α) :
    (runs p text).getLast? = some (text.dropWhile p) := by
  induction text with
  | nil =>
      rfl
  | cons c text ih =>
      by_cases hc : p c
      · rw [runs, if_pos hc, List.getLast?_cons, ih, List.dropWhile_cons_of_pos hc]
        rfl
      · rw [runs, if_neg hc, List.dropWhile_cons_of_neg hc]
        rfl

end Runs

section RunEnds

variable {p : α → Bool} {text v w rest : List α}

/-- The end of a run that is as long as possible and not empty. -/
def runEnd (p : α → Bool) : List α → Option (List α)
  | [] => none
  | c :: text => if p c then some (text.dropWhile p) else none

theorem runEnd_eq_nil (h : (Piece.many1 p).Takes text) : runEnd p text = some [] := by
  cases text with
  | nil =>
      exact absurd rfl h.1
  | cons c text =>
      obtain ⟨hc, htext⟩ := List.forall_mem_cons.mp h.2
      rw [runEnd, if_pos hc, List.dropWhile_eq_nil_iff.mpr htext]

/-- A run ends at the end of the text or in front of a character of another kind. -/
theorem runEnd_stops (h : runEnd p text = some rest) :
    rest = [] ∨ ∃ c rest', rest = c :: rest' ∧ ¬ p c := by
  cases text with
  | nil =>
      cases h
  | cons c text =>
      rw [runEnd] at h
      split at h
      next =>
        rw [← Option.some.inj h]
        cases hrest : text.dropWhile p with
        | nil =>
            exact Or.inl rfl
        | cons c' rest' =>
            have hne : text.dropWhile p ≠ [] := by
              rw [hrest]
              exact List.cons_ne_nil c' rest'
            have hnot := List.head_dropWhile_not p hne
            simp only [hrest, List.head_cons] at hnot
            exact Or.inr ⟨c', rest', rfl, by simp [hnot]⟩
      next =>
        cases h

/-- A run ends alike if it stops before the tails or takes them whole. -/
theorem alike_runEnd (hrest : rest <:+ text)
    (h : (∃ c ∈ rest, ¬ p c) ∨
      (Piece.many1 p).Takes v ∧ (Piece.many1 p).Takes w) :
    Alike text v w (runEnd p (rest ++ v)) (runEnd p (rest ++ w)) := by
  have hwhole : ∀ u, (Piece.many1 p).Takes u → (∀ c ∈ rest, p c) →
      runEnd p (rest ++ u) = some [] :=
    fun u hu hall => runEnd_eq_nil ⟨fun hnil => hu.1 (List.append_eq_nil_iff.mp hnil).2,
      List.forall_mem_append.mpr ⟨hall, hu.2⟩⟩
  by_cases hall : ∀ c ∈ rest, p c
  · rcases h with ⟨c, hc, hpc⟩ | ⟨hv, hw⟩
    · exact absurd (hall c hc) hpc
    · rw [hwhole v hv hall, hwhole w hw hall]
      exact .through
  · cases rest with
    | nil =>
        exact absurd (fun c hc => by cases hc) hall
    | cons c rest =>
        by_cases hc : p c
        · have hne : (rest.dropWhile p).isEmpty = false := by
            rw [List.isEmpty_eq_false_iff, Ne, List.dropWhile_eq_nil_iff]
            exact fun hrest => hall (List.forall_mem_cons.mpr ⟨hc, hrest⟩)
          have hstop : ∀ u, runEnd p (c :: rest ++ u) = some (rest.dropWhile p ++ u) := by
            intro u
            rw [List.cons_append, runEnd, if_pos hc, List.dropWhile_append, hne]
            rfl
          rw [hstop v, hstop w]
          exact .within ((List.dropWhile_suffix p).trans
            ((List.suffix_cons c rest).trans hrest))
        · rw [List.cons_append, List.cons_append, runEnd, runEnd, if_neg hc, if_neg hc]
          exact .absent

theorem alike_findSome {ends : List (List α)} {g h : List α → Option (List α)}
    (halike : ∀ rest ∈ ends, Alike text v w (g rest) (h rest)) :
    Alike text v w (ends.findSome? g) (ends.findSome? h) := by
  induction ends with
  | nil =>
      exact .absent
  | cons rest ends ih =>
      obtain ⟨hfirst, hends⟩ := List.forall_mem_cons.mp halike
      rw [List.findSome?_cons, List.findSome?_cons]
      generalize g rest = found, h rest = found' at hfirst
      cases hfirst with
      | absent => exact ih hends
      | within hsuffix => exact .within hsuffix
      | through => exact .through

theorem findSome_eq_some {ends : List (List α)} {g : List α → Option (List α)}
    {rest end' : List α} (hmem : rest ∈ ends) (hrest : g rest = some end')
    (h : ∀ rest ∈ ends, g rest = none ∨ g rest = some end') :
    ends.findSome? g = some end' := by
  induction ends with
  | nil =>
      cases hmem
  | cons first ends ih =>
      obtain ⟨hfirst, hends⟩ := List.forall_mem_cons.mp h
      rw [List.findSome?_cons]
      rcases hfirst with hnone | hsome
      · rw [hnone]
        rcases List.mem_cons.mp hmem with rfl | hmem
        · rw [hnone] at hrest
          cases hrest
        · exact ih hmem hends
      · rw [hsome]

end RunEnds

section Membership

variable [DecidableEq α]
variable {p : α → Bool} {piece : Piece α} {pieces : List (Piece α)}
variable {text rest : List α}

theorem mem_rests_words_iff {fold : α → α} {options : List (List α)} :
    rest ∈ (Piece.words fold options).rests text ↔
      ∃ taken, (Piece.words fold options).Takes taken ∧ taken ++ rest = text := by
  simp only [Piece.rests, Piece.Takes, List.mem_filterMap]
  constructor
  · rintro ⟨word, hword, h⟩
    split at h
    next heq =>
      obtain rfl := Option.some.inj h
      refine ⟨text.take word.length, ?_, List.take_append_drop _ _⟩
      rw [heq]
      exact hword
    next =>
      cases h
  · rintro ⟨taken, htaken, rfl⟩
    refine ⟨taken.map fold, htaken, ?_⟩
    rw [List.length_map, List.take_left', List.drop_left', if_pos rfl]
    · rfl
    · rfl

theorem mem_rests_one_iff :
    rest ∈ (Piece.one p).rests text ↔
      ∃ taken, (Piece.one p).Takes taken ∧ taken ++ rest = text := by
  cases text with
  | nil =>
      simp [Piece.rests, Piece.Takes]
  | cons c text =>
      simp only [Piece.rests, Piece.Takes]
      constructor
      · intro h
        split at h
        next hc =>
          obtain rfl := List.mem_singleton.mp h
          exact ⟨[c], ⟨c, hc, rfl⟩, rfl⟩
        next =>
          cases h
      · rintro ⟨taken, ⟨c', hc, rfl⟩, htext⟩
        obtain ⟨rfl, rfl⟩ := List.cons.inj htext
        rw [if_pos hc]
        exact List.mem_singleton_self _

theorem mem_rests_many1_iff :
    rest ∈ (Piece.many1 p).rests text ↔
      ∃ taken, (Piece.many1 p).Takes taken ∧ taken ++ rest = text := by
  cases text with
  | nil =>
      simp [Piece.rests, Piece.Takes]
  | cons c text =>
      simp only [Piece.rests, Piece.Takes]
      constructor
      · intro h
        split at h
        next hc =>
          obtain ⟨taken, htaken, rfl⟩ := mem_runs_iff.mp (List.mem_reverse.mp h)
          exact ⟨c :: taken, ⟨List.cons_ne_nil c taken,
            List.forall_mem_cons.mpr ⟨hc, htaken⟩⟩, rfl⟩
        next =>
          cases h
      · rintro ⟨taken, ⟨hne, htaken⟩, htext⟩
        cases taken with
        | nil =>
            exact absurd rfl hne
        | cons c' taken =>
            obtain ⟨rfl, rfl⟩ := List.cons.inj htext
            obtain ⟨hc, htaken⟩ := List.forall_mem_cons.mp htaken
            rw [if_pos hc]
            exact List.mem_reverse.mpr (mem_runs_iff.mpr ⟨taken, htaken, rfl⟩)

/-- What a piece leaves is what is behind a text that it takes. -/
theorem mem_rests_piece_iff :
    rest ∈ piece.rests text ↔ ∃ taken, piece.Takes taken ∧ taken ++ rest = text := by
  cases piece with
  | words fold options =>
      exact mem_rests_words_iff
  | one p =>
      exact mem_rests_one_iff
  | many p =>
      simp only [Piece.rests, Piece.Takes, List.mem_reverse, mem_runs_iff]
  | lazy p =>
      simp only [Piece.rests, Piece.Takes, mem_runs_iff]
  | many1 p =>
      exact mem_rests_many1_iff

theorem mem_rests_cons_iff :
    rest ∈ rests (piece :: pieces) text ↔
      ∃ taken text', piece.Takes taken ∧ taken ++ text' = text ∧
        rest ∈ rests pieces text' := by
  simp only [rests, List.mem_flatMap, mem_rests_piece_iff]
  constructor
  · rintro ⟨text', ⟨taken, htaken, htext⟩, hrest⟩
    exact ⟨taken, text', htaken, htext, hrest⟩
  · rintro ⟨taken, text', htaken, htext, hrest⟩
    exact ⟨text', ⟨taken, htaken, htext⟩, hrest⟩

theorem mem_rests_nil_iff : rest ∈ rests [] text ↔ rest = text :=
  List.mem_singleton

theorem suffix_of_mem_rests (h : rest ∈ rests pieces text) : rest <:+ text := by
  induction pieces generalizing text with
  | nil =>
      rw [mem_rests_nil_iff.mp h]
  | cons piece pieces ih =>
      obtain ⟨taken, text', -, rfl, hrest⟩ := mem_rests_cons_iff.mp h
      exact (ih hrest).trans (List.suffix_append taken text')

theorem suffix_of_matchRest (h : matchRest pieces text = some rest) : rest <:+ text :=
  suffix_of_mem_rests (List.mem_of_mem_head? h)

theorem rests_append (pieces pieces' : List (Piece α)) (text : List α) :
    rests (pieces ++ pieces') text = (rests pieces text).flatMap (rests pieces') := by
  induction pieces generalizing text with
  | nil =>
      simp [rests]
  | cons piece pieces ih =>
      rw [List.cons_append, rests, rests, List.flatMap_assoc]
      exact congrArg (fun g => (piece.rests text).flatMap g) (funext ih)

end Membership

section Tails

variable {p : α → Bool} {text tail v w : List α}

/-- The matches that end before the tail. -/
def outside (tail : List α) (ends : List (List α)) : List (List α) :=
  ends.filter fun rest => decide (tail.length ≤ rest.length)

theorem outside_eq_nil {ends : List (List α)}
    (h : ∀ rest ∈ ends, rest.length < tail.length) : outside tail ends = [] := by
  refine List.filter_eq_nil_iff.mpr fun rest hrest => ?_
  have hlt := h rest hrest
  simp only [decide_eq_true_eq]
  omega

theorem outside_cons_of_le {rest : List α} (h : tail.length ≤ rest.length)
    (ends : List (List α)) :
    outside tail (rest :: ends) = rest :: outside tail ends :=
  List.filter_cons_of_pos (decide_eq_true h)

theorem outside_cons_of_lt {rest : List α} (h : rest.length < tail.length)
    (ends : List (List α)) : outside tail (rest :: ends) = outside tail ends :=
  List.filter_cons_of_neg (by simpa using h)

theorem outside_cons_append (text tail : List α) (ends : List (List α)) :
    outside tail ((text ++ tail) :: ends) = (text ++ tail) :: outside tail ends :=
  outside_cons_of_le (by rw [List.length_append]; omega) ends

theorem outside_runs (p : α → Bool) (text tail : List α) :
    outside tail (runs p (text ++ tail)) = (runs p text).map (· ++ tail) := by
  induction text with
  | nil =>
      cases tail with
      | nil =>
          rfl
      | cons c tail =>
          have hnil : outside (c :: tail) (if p c then runs p tail else []) = [] := by
            refine outside_eq_nil fun rest hrest => ?_
            split at hrest
            next =>
              exact Nat.lt_succ_of_le (length_le_of_mem_runs hrest)
            next =>
              cases hrest
          have hcons := outside_cons_append [] (c :: tail)
            (if p c then runs p tail else [])
          rw [hnil] at hcons
          exact hcons
  | cons c text ih =>
      have hcons := outside_cons_append (c :: text) tail
        (if p c then runs p (text ++ tail) else [])
      rw [List.cons_append, runs, runs, List.map_cons]
      refine hcons.trans (congrArg (List.cons _) ?_)
      split
      next =>
        exact ih
      next =>
        rfl

variable [DecidableEq α] {pieces : List (Piece α)}

/-- A word that is longer than the text can only end in the tail. -/
theorem outside_rests_words (fold : α → α) (options : List (List α))
    (text tail : List α) :
    outside tail ((Piece.words fold options).rests (text ++ tail)) =
      ((Piece.words fold options).rests text).map (· ++ tail) := by
  induction options with
  | nil =>
      rfl
  | cons word options ih =>
      simp only [Piece.rests, List.filterMap_cons] at ih ⊢
      by_cases hlen : word.length ≤ text.length
      · rw [List.take_append_of_le_length hlen, List.drop_append_of_le_length hlen]
        by_cases hword : (text.take word.length).map fold = word
        · rw [if_pos hword, if_pos hword, List.map_cons, ← ih]
          exact outside_cons_append _ tail _
        · rw [if_neg hword, if_neg hword]
          exact ih
      · have hshort : (text.take word.length).map fold ≠ word := by
          intro hword
          have hle := congrArg List.length hword
          rw [List.length_map, List.length_take] at hle
          omega
        rw [if_neg hshort]
        by_cases hword : ((text ++ tail).take word.length).map fold = word
        · have hdrop : ((text ++ tail).drop word.length).length < tail.length := by
            have hle := congrArg List.length hword
            rw [List.length_map, List.length_take] at hle
            rw [List.length_drop]
            rw [List.length_append] at hle ⊢
            omega
          rw [if_pos hword]
          exact (outside_cons_of_lt hdrop _).trans ih
        · rw [if_neg hword]
          exact ih

theorem outside_rests_piece (piece : Piece α) (text tail : List α) :
    outside tail (piece.rests (text ++ tail)) = (piece.rests text).map (· ++ tail) := by
  have hnil : ∀ piece : Piece α, piece.rests [] = [] →
      (∀ rest ∈ piece.rests tail, rest.length < tail.length) →
      outside tail (piece.rests ([] ++ tail)) = (piece.rests []).map (· ++ tail) := by
    intro piece hempty hlt
    rw [hempty]
    exact outside_eq_nil hlt
  cases piece with
  | words fold options =>
      exact outside_rests_words fold options text tail
  | one p =>
      cases text with
      | nil =>
          refine hnil (.one p) rfl fun rest hrest => ?_
          obtain ⟨taken, ⟨c, -, rfl⟩, rfl⟩ := mem_rests_piece_iff.mp hrest
          exact Nat.lt_succ_self rest.length
      | cons c text =>
          simp only [List.cons_append, Piece.rests]
          split
          next =>
            exact outside_cons_append text tail []
          next =>
            rfl
  | many p =>
      rw [Piece.rests, Piece.rests, outside, List.filter_reverse, List.map_reverse,
        ← outside_runs, outside]
  | lazy p =>
      exact outside_runs p text tail
  | many1 p =>
      cases text with
      | nil =>
          refine hnil (.many1 p) rfl fun rest hrest => ?_
          obtain ⟨taken, ⟨hne, -⟩, rfl⟩ := mem_rests_piece_iff.mp hrest
          have hpos := List.length_pos_of_ne_nil hne
          rw [List.length_append]
          omega
      | cons c text =>
          simp only [List.cons_append, Piece.rests]
          split
          next =>
            rw [outside, List.filter_reverse, List.map_reverse, ← outside_runs, outside]
          next =>
            rfl

/-- What ends before the tail comes from what leaves the tail. -/
theorem outside_flatMap_rests (pieces : List (Piece α)) (tail : List α)
    (ends : List (List α)) :
    outside tail (ends.flatMap (rests pieces)) =
      (outside tail ends).flatMap fun rest => outside tail (rests pieces rest) := by
  induction ends with
  | nil =>
      rfl
  | cons rest ends ih =>
      have happend : outside tail (rests pieces rest ++ ends.flatMap (rests pieces)) =
          outside tail (rests pieces rest) ++ outside tail (ends.flatMap (rests pieces)) :=
        List.filter_append _ _
      rw [List.flatMap_cons, happend, ih]
      by_cases hrest : tail.length ≤ rest.length
      · rw [outside_cons_of_le hrest, List.flatMap_cons]
      · have hnil : outside tail (rests pieces rest) = [] := by
          refine outside_eq_nil fun rest' hrest' => ?_
          have hle := (suffix_of_mem_rests hrest').length_le
          omega
        rw [hnil, List.nil_append, outside_cons_of_lt (Nat.not_le.mp hrest)]

/-- The matches that end before the tail are those of the text alone. -/
theorem outside_rests (pieces : List (Piece α)) (text tail : List α) :
    outside tail (rests pieces (text ++ tail)) =
      (rests pieces text).map (· ++ tail) := by
  induction pieces generalizing text with
  | nil =>
      exact outside_cons_append text tail []
  | cons piece pieces ih =>
      rw [rests, outside_flatMap_rests, outside_rests_piece, rests, List.flatMap_map,
        List.map_flatMap]
      exact congrArg (fun g => (piece.rests text).flatMap g) (funext ih)

/-- No match ends in the tail. -/
def Closed (pieces : List (Piece α)) (text tail : List α) : Prop :=
  ∀ rest ∈ rests pieces (text ++ tail), tail.length ≤ rest.length

theorem Closed.rests_eq (h : Closed pieces text tail) :
    rests pieces (text ++ tail) = (rests pieces text).map (· ++ tail) := by
  rw [← outside_rests, outside, List.filter_eq_self.mpr]
  exact fun rest hrest => decide_eq_true (h rest hrest)

theorem matchRest_many1 (pieces : List (Piece α)) (p : α → Bool) (text : List α) :
    matchRest (pieces ++ [.many1 p]) text =
      (rests pieces text).findSome? (runEnd p) := by
  rw [matchRest, rests_append, List.head?_flatMap]
  refine congrArg (fun g => (rests pieces text).findSome? g) (funext fun rest => ?_)
  have hlast : rests [Piece.many1 p] rest = (Piece.many1 p).rests rest := by
    rw [rests]
    exact List.flatMap_singleton' _
  rw [hlast]
  cases rest with
  | nil =>
      rfl
  | cons c rest =>
      by_cases hc : p c
      · rw [Piece.rests, if_pos hc, List.head?_reverse, getLast?_runs, runEnd, if_pos hc]
      · rw [Piece.rests, if_neg hc, runEnd, if_neg hc]
        rfl

theorem matchRest_many1_stops {rest : List α}
    (h : matchRest (pieces ++ [.many1 p]) text = some rest) :
    rest = [] ∨ ∃ c rest', rest = c :: rest' ∧ ¬ p c := by
  rw [matchRest_many1] at h
  obtain ⟨before, -, hend⟩ := List.exists_of_findSome?_eq_some h
  exact runEnd_stops hend

theorem Closed.alike (hv : Closed pieces text v) (hw : Closed pieces text w) :
    Alike text v w (matchRest pieces (text ++ v)) (matchRest pieces (text ++ w)) := by
  rw [matchRest, matchRest, hv.rests_eq, hw.rests_eq, List.head?_map, List.head?_map]
  cases hhead : (rests pieces text).head? with
  | none =>
      exact .absent
  | some rest =>
      exact .within (suffix_of_matchRest hhead)

theorem Closed.alike_many1 (hv : Closed pieces text v) (hw : Closed pieces text w)
    (h : ∀ rest ∈ rests pieces text, (∃ c ∈ rest, ¬ p c) ∨
      (Piece.many1 p).Takes v ∧ (Piece.many1 p).Takes w) :
    Alike text v w (matchRest (pieces ++ [.many1 p]) (text ++ v))
      (matchRest (pieces ++ [.many1 p]) (text ++ w)) := by
  rw [matchRest_many1, matchRest_many1, hv.rests_eq, hw.rests_eq, List.findSome?_map,
    List.findSome?_map]
  exact alike_findSome fun rest hrest =>
    alike_runEnd (suffix_of_mem_rests hrest) (h rest hrest)

/-- The run takes the tail if the pieces before it match the text in full and in no way
that leaves a run of its own. -/
theorem Closed.matchRest_eq_nil (h : Closed pieces text tail)
    (htail : (Piece.many1 p).Takes tail) (hfull : [] ∈ rests pieces text)
    (hother : ∀ rest ∈ rests pieces text, runEnd p rest = none) :
    matchRest (pieces ++ [.many1 p]) (text ++ tail) = some [] := by
  have hend := runEnd_eq_nil htail
  rw [matchRest_many1, h.rests_eq, List.findSome?_map]
  refine findSome_eq_some hfull hend fun rest hrest => ?_
  have hnone := hother rest hrest
  cases rest with
  | nil =>
      exact Or.inr hend
  | cons c rest =>
      refine Or.inl ?_
      rw [Function.comp_apply, List.cons_append, runEnd]
      rw [runEnd] at hnone
      split at hnone
      next =>
        cases hnone
      next hc =>
        exact if_neg hc

theorem matchRest_words_eq_none {fold : α → α} {options : List (List α)}
    (h : ∀ taken, taken <+: text → taken.map fold ∉ options) :
    matchRest (.words fold options :: pieces) text = none := by
  refine List.head?_eq_none_iff.mpr (List.eq_nil_iff_forall_not_mem.mpr fun rest hrest => ?_)
  obtain ⟨taken, text', htaken, rfl, -⟩ := mem_rests_cons_iff.mp hrest
  exact h taken (List.prefix_append taken text') htaken

theorem length_lt_of_matchRest_words {fold : α → α} {options : List (List α)}
    {rest : List α} (hne : [] ∉ options)
    (h : matchRest (.words fold options :: pieces) text = some rest) :
    rest.length < text.length := by
  obtain ⟨taken, text', htaken, rfl, hrest⟩ :=
    mem_rests_cons_iff.mp (List.mem_of_mem_head? h)
  have hle := (suffix_of_mem_rests hrest).length_le
  have hpos : taken ≠ [] := by
    rintro rfl
    exact hne htaken
  have hlt := List.length_pos_of_ne_nil hpos
  rw [List.length_append]
  omega

end Tails

end Regex
end Lib
