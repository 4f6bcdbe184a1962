import HyperBackup.Domain
import HyperBackup.Lib.FilterText

/-!
# User names in a search filter

Before a user is searched for in the directory, five bytes of the name are
replaced, one after the other, by a backslash and two hexadecimal digits.  The
backslash comes first, and no later replacement finds its byte in what an
earlier one has written.  So each byte of the name is written on its own, and
the rules for such texts apply.
-/

namespace HyperBackup
namespace Control

open Lib Lib.FilterText

/-- Replace every occurrence of a byte. -/
def replaceAll (old : UInt8) (new : GoString) (s : GoString) : GoString :=
  s.flatMap fun c => if c = old then new else [c]

def escapeLDAPFilter (s : GoString) : GoString :=
  let s := replaceAll 0x5c [0x5c, 0x35, 0x63] s
  let s := replaceAll 0x2a [0x5c, 0x32, 0x61] s
  let s := replaceAll 0x28 [0x5c, 0x32, 0x38] s
  let s := replaceAll 0x29 [0x5c, 0x32, 0x39] s
  let s := replaceAll 0x00 [0x5c, 0x30, 0x30] s
  s

/-- The configured filter, a format with one place for a name. -/
structure UserFilter where
  before : GoString
  after : GoString
  noVerb : 0x25 ∉ before ∧ 0x25 ∉ after

namespace UserFilter

/-- The filter that is searched for. -/
def search (f : UserFilter) (username : GoString) : GoString :=
  f.before ++ escapeLDAPFilter username ++ f.after

end UserFilter

/-- How a byte of a name is written. -/
def escapeByte (c : UInt8) : GoString :=
  if c = 0x5c then [0x5c, 0x35, 0x63]
  else if c = 0x2a then [0x5c, 0x32, 0x61]
  else if c = 0x28 then [0x5c, 0x32, 0x38]
  else if c = 0x29 then [0x5c, 0x32, 0x39]
  else if c = 0x00 then [0x5c, 0x30, 0x30]
  else [c]

section Escaping

variable {c old : UInt8} {new s : GoString}

theorem replaceAll_append (s s' : GoString) :
    replaceAll old new (s ++ s') = replaceAll old new s ++ replaceAll old new s' :=
  List.flatMap_append

/-- A byte that does not occur is not replaced. -/
theorem replaceAll_of_notMem (h : old ∉ s) : replaceAll old new s = s := by
  induction s with
  | nil =>
      rfl
  | cons c s ih =>
      obtain ⟨hne, hrest⟩ := List.ne_and_not_mem_of_not_mem_cons h
      rw [replaceAll, List.flatMap_cons, if_neg (Ne.symm hne)]
      exact congrArg (c :: ·) (ih hrest)

/-- The five replacements treat every part of a name on its own. -/
theorem escapeLDAPFilter_append (s s' : GoString) :
    escapeLDAPFilter (s ++ s') = escapeLDAPFilter s ++ escapeLDAPFilter s' := by
  simp only [escapeLDAPFilter, replaceAll_append]

/-- What is written for a byte holds no byte that a later replacement looks
for. -/
theorem escapeLDAPFilter_singleton (c : UInt8) :
    escapeLDAPFilter [c] = escapeByte c := by
  by_cases h5c : c = 0x5c
  · subst h5c
    decide
  by_cases h2a : c = 0x2a
  · subst h2a
    decide
  by_cases h28 : c = 0x28
  · subst h28
    decide
  by_cases h29 : c = 0x29
  · subst h29
    decide
  by_cases h00 : c = 0x00
  · subst h00
    decide
  · rw [escapeByte, if_neg h5c, if_neg h2a, if_neg h28, if_neg h29, if_neg h00]
    have hne : ∀ {old : UInt8}, c ≠ old → old ∉ [c] := fun hold hmem =>
      hold (List.mem_singleton.mp hmem).symm
    simp only [escapeLDAPFilter, replaceAll_of_notMem (hne h5c),
      replaceAll_of_notMem (hne h2a), replaceAll_of_notMem (hne h28),
      replaceAll_of_notMem (hne h29), replaceAll_of_notMem (hne h00)]

theorem escapeLDAPFilter_eq_written (s : GoString) :
    escapeLDAPFilter s = written escapeByte s := by
  induction s with
  | nil =>
      rfl
  | cons c s ih =>
      rw [← List.singleton_append, escapeLDAPFilter_append,
        escapeLDAPFilter_singleton, ih]
      rfl

/-- The cases of a byte. -/
theorem escapeByte_cases (c : UInt8) :
    (c ∈ backslash :: structural ∧
        ∃ h l, escapeByte c = [backslash, h, l] ∧ hexByte h l = some c ∧
          h ∉ structural ∧ l ∉ structural) ∨
      c ∉ backslash :: structural ∧ escapeByte c = [c] := by
  by_cases hmem : c ∈ backslash :: structural
  · left
    refine ⟨hmem, ?_⟩
    rcases List.mem_cons.mp hmem with rfl | hmem
    · exact ⟨0x35, 0x63, by decide⟩
    rcases List.mem_cons.mp hmem with rfl | hmem
    · exact ⟨0x30, 0x30, by decide⟩
    rcases List.mem_cons.mp hmem with rfl | hmem
    · exact ⟨0x32, 0x38, by decide⟩
    rcases List.mem_cons.mp hmem with rfl | hmem
    · exact ⟨0x32, 0x39, by decide⟩
    · obtain rfl := List.mem_singleton.mp hmem
      exact ⟨0x32, 0x61, by decide⟩
  · right
    refine ⟨hmem, ?_⟩
    simp only [backslash, structural, List.mem_cons, List.not_mem_nil, or_false,
      not_or] at hmem
    obtain ⟨h5c, h00, h28, h29, h2a⟩ := hmem
    rw [escapeByte, if_neg h5c, if_neg h2a, if_neg h28, if_neg h29, if_neg h00]

theorem writes_escapeByte : Writes escapeByte := by
  intro c
  rcases escapeByte_cases c with ⟨-, h, l, heq, hb, -⟩ | ⟨hmem, heq⟩
  · rw [heq, lex_escape hb]
    rfl
  · obtain ⟨hne, hplain⟩ := List.ne_and_not_mem_of_not_mem_cons hmem
    rw [heq, lex_cons_of_ne hne, plain, if_neg hplain]
    rfl

theorem notMem_escapeLDAPFilter (s : GoString) :
    ∀ c ∈ escapeLDAPFilter s, c ∉ structural := by
  intro c hc
  rw [escapeLDAPFilter_eq_written, written, List.mem_flatMap] at hc
  obtain ⟨b, -, hb⟩ := hc
  rcases escapeByte_cases b with ⟨-, h, l, heq, -, hh, hl⟩ | ⟨hmem, heq⟩
  · rw [heq] at hb
    simp only [List.mem_cons, List.not_mem_nil, or_false] at hb
    rcases hb with rfl | rfl | rfl
    · decide
    · exact hh
    · exact hl
  · rw [heq, List.mem_singleton] at hb
    subst hb
    exact (List.ne_and_not_mem_of_not_mem_cons hmem).2

/-- The structure of a filter is that of its format. -/
theorem filter_structural_search (f : UserFilter) (s : GoString) :
    (f.search s).filter (· ∈ structural) =
      (f.before ++ f.after).filter (· ∈ structural) := by
  have hname : (escapeLDAPFilter s).filter (· ∈ structural) = [] := by
    rw [List.filter_eq_nil_iff]
    intro c hc
    simpa using notMem_escapeLDAPFilter s c hc
  rw [UserFilter.search, List.filter_append, List.filter_append, hname,
    List.append_nil, List.filter_append]

end Escaping

/-- Escaped names have no structure, can be read back, and add their own octets
to a filter and nothing else. -/
theorem escapeLDAPFilter_safe :
    (∀ s, (∀ c ∈ escapeLDAPFilter s, c ∉ structural) ∧
      EveryEscape (escapeLDAPFilter s) ∧
      unescape (escapeLDAPFilter s) = some s) ∧
    Function.Injective escapeLDAPFilter ∧
    ∀ f : UserFilter, Function.Injective f.search ∧
      ∀ s, (f.search s).filter (· ∈ structural) =
          (f.before ++ f.after).filter (· ∈ structural) ∧
        ∀ tokens, lex f.before = some tokens →
          lex (f.search s) = (lex f.after).map fun more =>
            tokens ++ s.map .octet ++ more := by
  have hinjective : Function.Injective escapeLDAPFilter := by
    intro s s' h
    rw [escapeLDAPFilter_eq_written, escapeLDAPFilter_eq_written] at h
    exact written_injective writes_escapeByte h
  refine ⟨fun s => ⟨notMem_escapeLDAPFilter s, ?_, ?_⟩, hinjective, fun f => ⟨?_, ?_⟩⟩
  · rw [escapeLDAPFilter_eq_written]
    exact everyEscape_written writes_escapeByte s
  · rw [escapeLDAPFilter_eq_written]
    exact unescape_written writes_escapeByte s
  · intro s s' h
    unfold UserFilter.search at h
    exact hinjective (List.append_cancel_left (List.append_cancel_right h))
  · intro s
    refine ⟨filter_structural_search f s, fun tokens hbefore => ?_⟩
    rw [UserFilter.search, escapeLDAPFilter_eq_written]
    exact lex_around writes_escapeByte hbefore s f.after

/-- The name `user*name`. -/
example : escapeLDAPFilter [0x75, 0x73, 0x65, 0x72, 0x2a, 0x6e, 0x61, 0x6d, 0x65] =
    [0x75, 0x73, 0x65, 0x72, 0x5c, 0x32, 0x61, 0x6e, 0x61, 0x6d, 0x65] := by
  decide

end Control
end HyperBackup
