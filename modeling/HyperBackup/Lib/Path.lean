import Mathlib.Data.List.Basic

/-!
# File paths

Unix paths as text.  `join` puts one path behind another as a path buffer
does: an absolute second path replaces the first, and a separator is inserted
only where it is missing.  `fileName` is the last normal component of a path.
-/

namespace Lib
namespace Path

/-- The path starts at the root. -/
def isAbsolute (p : String) : Bool :=
  p.toList.head? == some '/'

def join (p q : String) : String :=
  if isAbsolute q then q
  else if p.toList.getLast?.all (· == '/') then p ++ q
  else p ++ "/" ++ q

/-- The parts of a path between separators that name something. -/
def parts (p : String) : List (List Char) :=
  (p.toList.splitOn '/').filter fun part => part ≠ [] ∧ part ≠ ['.']

/-- The last component, unless the path ends in the root or in `..`. -/
def fileName (p : String) : Option String :=
  match (parts p).getLast? with
  | none => none
  | some part =>
      if part = ['.', '.'] then none else some (String.ofList part)

/-- What follows the last separator. -/
def lastPart (p : String) : String :=
  String.ofList (p.toList.reverse.takeWhile (· ≠ '/')).reverse

/-- The name of a path in the directory that holds it. -/
def childName (dir p : String) : Option String :=
  if join dir (lastPart p) = p then some (lastPart p) else none

/-- A text without the given end. -/
def stripEnd (ending text : String) : Option String :=
  if ending.toList <:+ text.toList then
    some (String.ofList
      (text.toList.take (text.toList.length - ending.toList.length)))
  else none

/-- A joined path ends with its second part. -/
theorem exists_join_eq_append (p q : String) :
    ∃ r, join p q = r ++ q := by
  unfold join
  split
  · exact ⟨"", by simp⟩
  · split
    · exact ⟨p, rfl⟩
    · exact ⟨p ++ "/", rfl⟩

/-- Texts with different ends of one length are different. -/
theorem append_ne_append {a a' b b' : String}
    (hlen : b.toList.length = b'.toList.length) (hne : b ≠ b') :
    a ++ b ≠ a' ++ b' := by
  intro h
  have hlist : a.toList ++ b.toList = a'.toList ++ b'.toList := by
    rw [← String.toList_append, ← String.toList_append, h]
  exact hne (String.toList_inj.mp (List.append_inj_right' hlist hlen))

/-- A relative path is joined behind the first path. -/
theorem exists_join_eq_append_of_relative (p : String) {q : String}
    (h : isAbsolute q = false) : ∃ r, join p q = p ++ r := by
  unfold join
  rw [h]
  split
  · next habs =>
      cases habs
  · split
    · exact ⟨q, rfl⟩
    · exact ⟨"/" ++ q, String.append_assoc⟩

/-- Equal joined paths have equal ends. -/
theorem join_right_suffix_injective
    {p p' q q' a a' : String} (hlen : a.toList.length = a'.toList.length)
    (h : join p (q ++ a) = join p' (q' ++ a')) : a = a' := by
  obtain ⟨r, hr⟩ := exists_join_eq_append p (q ++ a)
  obtain ⟨r', hr'⟩ := exists_join_eq_append p' (q' ++ a')
  have hlist : (r ++ q).toList ++ a.toList = (r' ++ q').toList ++ a'.toList := by
    rw [← String.toList_append, ← String.toList_append, String.append_assoc,
      String.append_assoc, ← hr, ← hr', h]
  exact String.toList_inj.mp (List.append_inj_right' hlist hlen)

/-- Joined paths are different if their second parts have one length and are
different. -/
theorem join_right_injective
    {p p' q q' : String} (hlen : q.toList.length = q'.toList.length)
    (h : join p q = join p' q') : q = q' := by
  rw [← String.empty_append (s := q), ← String.empty_append (s := q')] at h
  exact join_right_suffix_injective hlen h

/-- No part of a split list has the separator. -/
theorem not_mem_of_mem_splitOn {α : Type} [DecidableEq α] (sep : α) (l : List α) :
    ∀ part ∈ l.splitOn sep, sep ∉ part := by
  induction l with
  | nil =>
      simp
  | cons x l ih =>
      intro part hpart
      rw [List.splitOn_cons_eq_if_modifyHead] at hpart
      obtain ⟨first, rest, hsplit⟩ :=
        List.exists_cons_of_ne_nil (List.splitOn_ne_nil sep l)
      by_cases hx : x = sep
      · rw [if_pos (by simpa using hx), List.mem_cons] at hpart
        rcases hpart with rfl | hpart
        · simp
        · exact ih part hpart
      · rw [if_neg (by simpa using hx), hsplit, List.modifyHead_cons,
          List.mem_cons] at hpart
        rcases hpart with rfl | hpart
        · have hfirst : sep ∉ first := ih first (by simp [hsplit])
          simp [hfirst, Ne.symm hx]
        · exact ih part (by simp [hsplit, hpart])

/-- The name of a file is not an absolute path. -/
theorem isAbsolute_fileName {p name : String} (h : fileName p = some name) :
    isAbsolute name = false := by
  unfold fileName at h
  cases hlast : (parts p).getLast? with
  | none =>
      rw [hlast] at h
      cases h
  | some part =>
      have hpart : part ∈ p.toList.splitOn '/' :=
        List.mem_of_mem_filter (List.mem_of_getLast? hlast)
      have hsep := not_mem_of_mem_splitOn '/' p.toList part hpart
      rw [hlast] at h
      by_cases hdots : part = ['.', '.']
      · simp [hdots] at h
      · simp only [if_neg hdots, Option.some.injEq] at h
        subst h
        cases part with
        | nil =>
            rfl
        | cons c rest =>
            have hc : c ≠ '/' := fun hc => hsep (by simp [hc])
            simp [isAbsolute, hc]

/-- Relative paths that are joined to one path stay apart. -/
theorem join_injOn_relative {p q q' : String}
    (hq : isAbsolute q = false) (hq' : isAbsolute q' = false)
    (h : join p q = join p q') : q = q' := by
  unfold join at h
  rw [hq, hq'] at h
  simp only [Bool.false_eq_true, if_false] at h
  split at h
  · exact (String.append_right_inj p).mp h
  · exact (String.append_right_inj (p ++ "/")).mp h

/-- A name without a separator is the last part of a joined path. -/
theorem lastPart_join (p : String) {name : String} (h : '/' ∉ name.toList) :
    lastPart (join p name) = name := by
  have hrelative : isAbsolute name = false := by
    unfold isAbsolute
    cases hname : name.toList with
    | nil =>
        rfl
    | cons c rest =>
        have hc : c ≠ '/' := fun hc => h (by simp [hname, hc])
        simp [hc]
  have hall : ∀ c ∈ name.toList.reverse, decide (c ≠ '/') = true := by
    intro c hc
    refine decide_eq_true fun hslash => h ?_
    rw [← hslash]
    exact List.mem_reverse.mp hc
  have hlast : ∀ front : List Char, (∀ c ∈ front.getLast?, c = '/') →
      (((front ++ name.toList).reverse.takeWhile (· ≠ '/')).reverse) =
        name.toList := by
    intro front hfront
    have hstop : front.reverse.takeWhile (fun c => decide (c ≠ '/')) = [] := by
      rw [List.getLast?_eq_head?_reverse] at hfront
      cases hreverse : front.reverse with
      | nil =>
          rfl
      | cons c rest =>
          have hc : c = '/' := hfront c (by rw [hreverse]; rfl)
          rw [hc]
          rfl
    rw [List.reverse_append, List.takeWhile_append_of_pos hall, hstop,
      List.append_nil, List.reverse_reverse]
  unfold lastPart join
  rw [if_neg (by simp [hrelative])]
  by_cases hend : p.toList.getLast?.all (· == '/')
  · rw [if_pos hend, String.toList_append, hlast p.toList, String.ofList_toList]
    intro c hc
    rw [Option.mem_def.mp hc] at hend
    simpa using hend
  · rw [if_neg hend, String.toList_append, hlast (p ++ "/").toList,
      String.ofList_toList]
    intro c hc
    rw [String.toList_append] at hc
    simpa using hc.symm

theorem childName_join (p : String) {name : String} (h : '/' ∉ name.toList) :
    childName p (join p name) = some name := by
  rw [childName, lastPart_join p h, if_pos rfl]

theorem eq_join_of_childName {dir p name : String}
    (h : childName dir p = some name) : p = join dir name := by
  unfold childName at h
  split at h
  · rename_i heq
    rw [← Option.some.inj h]
    exact heq.symm
  · cases h

theorem stripEnd_append (text ending : String) :
    stripEnd ending (text ++ ending) = some text := by
  rw [stripEnd, String.toList_append, if_pos (List.suffix_append _ _),
    List.length_append, Nat.add_sub_cancel, List.take_left, String.ofList_toList]

theorem eq_append_of_stripEnd {ending text rest : String}
    (h : stripEnd ending text = some rest) : text = rest ++ ending := by
  unfold stripEnd at h
  split at h
  · rename_i hending
    obtain ⟨front, hfront⟩ := hending
    have htake : text.toList.take
        (text.toList.length - ending.toList.length) = front := by
      rw [← hfront, List.length_append, Nat.add_sub_cancel, List.take_left]
    rw [← Option.some.inj h, htake, ← String.toList_inj, String.toList_append,
      String.toList_ofList, hfront]
  · cases h

end Path
end Lib
