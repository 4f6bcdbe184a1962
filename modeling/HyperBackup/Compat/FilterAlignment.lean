import HyperBackup.Agent.Scan
import HyperBackup.Lib.Program

/-!
# Filter rules of the other program

The patterns of the other program's rules may be written with backslashes as
separators, and every backslash of a pattern is replaced by a slash.  Wildcard
patterns and path prefixes mean the same afterwards, up to the separators.  In a
regular expression a backslash is no separator, and the replacement makes another
expression of it.

Regular expressions come from another library, which is a parameter: what a pattern
matches, or why it is none.
-/

namespace HyperBackup
namespace Compat

open Lib Lib.Program Agent Agent.LocalScanner

inductive DuplicatiFilterType
  | glob
  | regex
  | pathPrefix
deriving DecidableEq

structure DuplicatiFilterRule where
  pattern : String
  filterType : DuplicatiFilterType
deriving DecidableEq

inductive SemanticError
  | unsupportedConfig (text : String)
  | ambiguousMapping (text : String)
deriving DecidableEq

section Operations

def normalizeChar (c : Char) : Char :=
  if c = '\\' then '/' else c

def normalizePath (p : String) : String :=
  String.ofList (p.toList.map normalizeChar)

def validateGlob (pattern : String) : Except SemanticError Unit :=
  if pattern.toList = [] then .error (.unsupportedConfig "empty glob pattern")
  else if pattern.toList.any fun c => c ∈ ['|', '<', '>', '"'] then
    .error (.unsupportedConfig ("invalid characters in glob: " ++ pattern))
  else .ok ()

variable (compile : String → Except String (String → Bool))

def alignSingleRule (rule : DuplicatiFilterRule) : Except SemanticError FilterRule :=
  let normalized := normalizePath rule.pattern
  match rule.filterType with
  | .glob =>
      match validateGlob normalized with
      | .error e => .error e
      | .ok () => .ok (.glob normalized)
  | .regex =>
      match compile normalized with
      | .error e => .error (.unsupportedConfig ("invalid regex: " ++ e))
      | .ok _ => .ok (.regex normalized)
  | .pathPrefix =>
      if normalized.toList = [] then .error (.unsupportedConfig "empty path prefix")
      else .ok (.pathPrefix normalized)

def alignFilterRules (rules : List DuplicatiFilterRule) :
    Except SemanticError (List FilterRule) :=
  rules.mapM (alignSingleRule compile)

/-- The library as the scanner uses it. -/
def compiled (pattern : String) : Option (String → Bool) :=
  (compile pattern).toOption

end Operations

section Statement

/-- The same text up to the separators. -/
def Respelled (text text' : List Char) : Prop :=
  text.map normalizeChar = text'.map normalizeChar

variable (compile : String → Except String (String → Bool))

/-- The regular expression matches the text. -/
def RegexMatches (pattern text : String) : Prop :=
  ∃ isMatch, compile pattern = .ok isMatch ∧ isMatch text = true

/-- What a rule of the other program is for. -/
def Means (path : String) (rule : DuplicatiFilterRule) : Prop :=
  match rule.filterType with
  | .glob => ∃ pattern text, Respelled pattern rule.pattern.toList ∧
      Respelled text path.toList ∧ text ∈ Glob.language pattern
  | .regex => RegexMatches compile rule.pattern path
  | .pathPrefix => ∃ start text, Respelled start rule.pattern.toList ∧
      Respelled text path.toList ∧ start <+: text

/-- The aligned rules match the path with slashes as the rules match the path. -/
def MeanSame (rules : List DuplicatiFilterRule) (aligned : List FilterRule)
    (path : String) : Prop :=
  List.Forall₂ (fun rule rule' =>
    matchesRule (compiled compile) (normalizePath path) rule' = true ↔
      Means compile path rule) rules aligned

/-- The regular expressions do not tell the path from the one with slashes. -/
def SeparatorBlind (rules : List DuplicatiFilterRule) (path : String) : Prop :=
  ∀ rule ∈ rules, rule.filterType = .regex →
    (RegexMatches compile rule.pattern (normalizePath path) ↔
      RegexMatches compile rule.pattern path)

/-- The rule is well formed unless it is a regular expression. -/
structure WellFormedRule (rule : DuplicatiFilterRule) : Prop where
  glob : rule.filterType = .glob → validateGlob (normalizePath rule.pattern) = .ok ()
  pathPrefix : rule.filterType = .pathPrefix → (normalizePath rule.pattern).toList ≠ []

/-- No regular expression has a backslash. -/
def WithoutEscapes (rules : List DuplicatiFilterRule) : Prop :=
  ∀ rule ∈ rules, rule.filterType = .regex → '\\' ∉ rule.pattern.toList

end Statement

section Normalization

theorem toList_normalizePath (p : String) :
    (normalizePath p).toList = p.toList.map normalizeChar :=
  String.toList_ofList

@[simp] theorem normalizeChar_normalizeChar (c : Char) :
    normalizeChar (normalizeChar c) = normalizeChar c := by
  unfold normalizeChar
  by_cases hc : c = '\\'
  · rw [if_pos hc]
    rfl
  · rw [if_neg hc, if_neg hc]

theorem respelled_map (text : List Char) :
    Respelled (text.map normalizeChar) text := by
  rw [Respelled, List.map_map]
  exact List.map_congr_left fun c _ => normalizeChar_normalizeChar c

/-- A text without backslashes stays as it is. -/
theorem normalizePath_eq_self {p : String} (h : '\\' ∉ p.toList) :
    normalizePath p = p := by
  have hmap : p.toList.map normalizeChar = p.toList := by
    refine (List.map_congr_left fun c hc => ?_).trans (List.map_id _)
    refine if_neg ?_
    rintro rfl
    exact h hc
  rw [normalizePath, hmap, String.ofList_toList]

theorem not_mem_normalizePath (p : String) : '\\' ∉ (normalizePath p).toList := by
  rw [toList_normalizePath, List.mem_map]
  rintro ⟨c, -, heq⟩
  unfold normalizeChar at heq
  by_cases hc : c = '\\'
  · rw [if_pos hc] at heq
    exact absurd heq (by decide)
  · rw [if_neg hc] at heq
    exact hc heq

/-- The normalized text is in the language of the normalized pattern if some spelling of
the text is in that of some spelling of the pattern. -/
theorem mem_language_normalized_iff (pattern text : List Char) :
    text.map normalizeChar ∈ Glob.language (pattern.map normalizeChar) ↔
      ∃ pattern' text', Respelled pattern' pattern ∧ Respelled text' text ∧
        text' ∈ Glob.language pattern' := by
  constructor
  · intro h
    exact ⟨_, _, respelled_map pattern, respelled_map text, h⟩
  · rintro ⟨pattern', text', hpattern, htext, h⟩
    rw [← hpattern, ← htext]
    exact Glob.map_mem_language (if_neg (by decide)) (if_neg (by decide)) h

theorem isPrefix_normalized_iff (start text : List Char) :
    start.map normalizeChar <+: text.map normalizeChar ↔
      ∃ start' text', Respelled start' start ∧ Respelled text' text ∧
        start' <+: text' := by
  constructor
  · intro h
    exact ⟨_, _, respelled_map start, respelled_map text, h⟩
  · rintro ⟨start', text', hstart, htext, h⟩
    rw [← hstart, ← htext]
    exact h.map normalizeChar

end Normalization

section Alignment

variable {compile : String → Except String (String → Bool)}
  {rule : DuplicatiFilterRule} {rule' : FilterRule}

/-- The aligned rule has the normalized pattern. -/
theorem alignSingleRule_eq_ok (h : alignSingleRule compile rule = .ok rule') :
    rule' = match rule.filterType with
      | .glob => .glob (normalizePath rule.pattern)
      | .regex => .regex (normalizePath rule.pattern)
      | .pathPrefix => .pathPrefix (normalizePath rule.pattern) := by
  unfold alignSingleRule at h
  cases hkind : rule.filterType with
  | glob =>
      simp only [hkind] at h
      split at h
      · cases h
      · exact (Except.ok.inj h).symm
  | regex =>
      simp only [hkind] at h
      split at h
      · cases h
      · exact (Except.ok.inj h).symm
  | pathPrefix =>
      simp only [hkind] at h
      split at h
      · cases h
      · exact (Except.ok.inj h).symm

theorem matches_compiled_iff (pattern path : String) :
    Matches (compiled compile) path (.regex pattern) ↔
      RegexMatches compile pattern path := by
  have hcompiled : ∀ isMatch, compiled compile pattern = some isMatch ↔
      compile pattern = .ok isMatch := by
    intro isMatch
    unfold compiled
    cases compile pattern with
    | error e => simp [Except.toOption]
    | ok isMatch => simp [Except.toOption]
  exact exists_congr fun isMatch => and_congr_left' (hcompiled isMatch)

/-- An aligned rule that is no regular expression means the same. -/
theorem matchesRule_aligned_iff (path : String) (hkind : rule.filterType ≠ .regex)
    (h : alignSingleRule compile rule = .ok rule') :
    matchesRule (compiled compile) (normalizePath path) rule' = true ↔
      Means compile path rule := by
  rw [alignSingleRule_eq_ok h, matchesRule_iff]
  cases htype : rule.filterType with
  | glob =>
      simp only [Matches, Means, htype, toList_normalizePath]
      exact mem_language_normalized_iff _ _
  | regex =>
      exact absurd htype hkind
  | pathPrefix =>
      simp only [Matches, Means, htype, toList_normalizePath]
      exact isPrefix_normalized_iff _ _

/-- A regular expression is replaced by the normalized one. -/
theorem matchesRule_regex_iff (path : String) (hkind : rule.filterType = .regex)
    (h : alignSingleRule compile rule = .ok rule') :
    matchesRule (compiled compile) (normalizePath path) rule' = true ↔
      RegexMatches compile (normalizePath rule.pattern) (normalizePath path) := by
  rw [alignSingleRule_eq_ok h, matchesRule_iff]
  simp only [hkind]
  exact matches_compiled_iff _ _

/-- The aligned rules mean the same if the normalized regular expressions do. -/
theorem meanSame_iff {rules : List DuplicatiFilterRule} {aligned : List FilterRule}
    (h : alignFilterRules compile rules = .ok aligned) (path : String) :
    MeanSame compile rules aligned path ↔
      ∀ rule ∈ rules, rule.filterType = .regex →
        (RegexMatches compile (normalizePath rule.pattern) (normalizePath path) ↔
          RegexMatches compile rule.pattern path) := by
  have haligned := mapM_eq_ok_iff.mp h
  unfold MeanSame
  clear h
  induction haligned with
  | nil =>
      simp
  | @cons rule rule' rules aligned hrule _ ih =>
      rw [List.forall₂_cons, List.forall_mem_cons]
      refine and_congr ?_ ih
      by_cases hkind : rule.filterType = .regex
      · have hmeans : Means compile path rule ↔ RegexMatches compile rule.pattern path := by
          simp only [Means, hkind]
        rw [matchesRule_regex_iff path hkind hrule, hmeans]
        exact ⟨fun h _ => h, fun h => h hkind⟩
      · exact iff_of_true (matchesRule_aligned_iff path hkind hrule)
          fun h => absurd h hkind

/-- Regular expressions without a backslash are left alone. -/
theorem meanSame_iff_separatorBlind {rules : List DuplicatiFilterRule}
    {aligned : List FilterRule} (h : alignFilterRules compile rules = .ok aligned)
    (hplain : WithoutEscapes rules) (path : String) :
    MeanSame compile rules aligned path ↔ SeparatorBlind compile rules path := by
  rw [meanSame_iff h]
  refine forall₂_congr fun rule hrule => forall_congr' fun hkind => ?_
  rw [normalizePath_eq_self (hplain rule hrule hkind)]

/-- A rule is accepted if it is well formed, or a regular expression that is one with
slashes instead of backslashes. -/
theorem exists_alignSingleRule_iff :
    (∃ rule', alignSingleRule compile rule = .ok rule') ↔
      WellFormedRule rule ∧ (rule.filterType = .regex →
        ∃ isMatch, compile (normalizePath rule.pattern) = .ok isMatch) := by
  have hwell : WellFormedRule rule ↔
      (rule.filterType = .glob → validateGlob (normalizePath rule.pattern) = .ok ()) ∧
        (rule.filterType = .pathPrefix → (normalizePath rule.pattern).toList ≠ []) :=
    ⟨fun h => ⟨h.glob, h.pathPrefix⟩, fun h => ⟨h.1, h.2⟩⟩
  rw [hwell]
  unfold alignSingleRule
  cases hkind : rule.filterType with
  | glob =>
      cases hglob : validateGlob (normalizePath rule.pattern) with
      | error e => simp [hglob]
      | ok => simp [hglob]
  | regex =>
      cases hregex : compile (normalizePath rule.pattern) with
      | error e => simp [hregex]
      | ok isMatch => simp [hregex]
  | pathPrefix =>
      by_cases hempty : (normalizePath rule.pattern).toList = []
      · simp [hempty]
      · simp [hempty]

end Alignment

section Meaning

/-- Everything is a regular expression, and one with a backslash in it matches
nothing. -/
def escapesMatchNothing (pattern : String) : Except String (String → Bool) :=
  .ok fun _ => '\\' ∉ pattern.toList

theorem regexMatches_escapesMatchNothing (pattern text : String) :
    RegexMatches escapesMatchNothing pattern text ↔ '\\' ∉ pattern.toList := by
  constructor
  · rintro ⟨isMatch, h, hmatch⟩
    rw [← Except.ok.inj h] at hmatch
    exact of_decide_eq_true hmatch
  · intro h
    exact ⟨_, rfl, decide_eq_true h⟩

theorem wellFormed_of_aligned {compile : String → Except String (String → Bool)}
    {rules : List DuplicatiFilterRule} {aligned : List FilterRule}
    (h : alignFilterRules compile rules = .ok aligned) : ∀ rule ∈ rules, WellFormedRule rule :=
  fun rule hrule => (exists_alignSingleRule_iff.mp
    (exists_mapM_iff.mp ⟨aligned, h⟩ rule hrule)).1

/-- Accepted rules without a backslash in a regular expression mean the same after the
alignment, as far as they do not tell the separators of the path apart, whatever the
regular expressions mean.  For other rules that can be accepted there are regular
expressions with which they do not. -/
theorem alignFilterRules_iff (rules : List DuplicatiFilterRule) (path : String) :
    (WithoutEscapes rules →
      ∀ compile aligned, alignFilterRules compile rules = .ok aligned →
        (MeanSame compile rules aligned path ↔ SeparatorBlind compile rules path)) ∧
    ((∀ rule ∈ rules, WellFormedRule rule) → ¬ WithoutEscapes rules →
      ∃ compile aligned, alignFilterRules compile rules = .ok aligned ∧
        ¬ (MeanSame compile rules aligned path ↔ SeparatorBlind compile rules path)) ∧
    ∀ compile aligned, alignFilterRules compile rules = .ok aligned →
      ∀ rule ∈ rules, WellFormedRule rule := by
  refine ⟨?_, ?_, fun compile aligned => wellFormed_of_aligned⟩
  · intro hplain compile aligned haligned
    exact meanSame_iff_separatorBlind haligned hplain path
  · intro hwell hescapes
    obtain ⟨aligned, haligned⟩ : ∃ aligned,
        alignFilterRules escapesMatchNothing rules = .ok aligned :=
      exists_mapM_iff.mpr fun rule hrule =>
        exists_alignSingleRule_iff.mpr ⟨hwell rule hrule, fun _ => ⟨_, rfl⟩⟩
    have hblind : SeparatorBlind escapesMatchNothing rules path := by
      intro rule _ _
      rw [regexMatches_escapesMatchNothing, regexMatches_escapesMatchNothing]
    refine ⟨escapesMatchNothing, aligned, haligned, fun hiff => hescapes ?_⟩
    intro rule hrule hkind
    have hsame := (meanSame_iff haligned path).mp (hiff.mpr hblind) rule hrule hkind
    rw [regexMatches_escapesMatchNothing, regexMatches_escapesMatchNothing] at hsame
    exact hsame.mp (not_mem_normalizePath rule.pattern)

end Meaning

section Example

/-- The parts of simple expressions: a character, any but a line break, a star behind one
of them, and the end of the text. -/
inductive SimplePart
  | char (c : Char)
  | dot
  | star
  | stop

def SimplePart.fits (c : Char) : SimplePart → Bool
  | .char c' => c == c'
  | .dot => c != '\n'
  | _ => false

/-- A sign behind a backslash stands for itself. -/
def simpleParts : List Char → Option (List SimplePart)
  | [] => some []
  | '\\' :: c :: rest =>
      if c.isAlphanum then none else (simpleParts rest).map (.char c :: ·)
  | '.' :: rest => (simpleParts rest).map (.dot :: ·)
  | '*' :: rest => (simpleParts rest).map (.star :: ·)
  | '$' :: rest => (simpleParts rest).map (.stop :: ·)
  | c :: rest =>
      if c.isAlphanum || c == '/' then (simpleParts rest).map (.char c :: ·) else none

/-- The parts match the beginning of the text. -/
def matchesStart : List SimplePart → List Char → Bool
  | [], _ => true
  | [.stop], text => text.isEmpty
  | part :: .star :: rest, text =>
      (List.range (text.length + 1)).any fun n =>
        (text.take n).all (fun c => part.fits c) && matchesStart rest (text.drop n)
  | _ :: _, [] => false
  | part :: rest, c :: text => part.fits c && matchesStart rest text

def simpleRegex (pattern : String) : Except String (String → Bool) :=
  match simpleParts pattern.toList with
  | none => .error "not a simple expression"
  | some parts => .ok fun text =>
      text.toList.tails.any fun rest => matchesStart parts rest

/-- The rule for the names that end with `.log`. -/
def logRule : DuplicatiFilterRule where
  pattern := ".*\\.log$"
  filterType := .regex

/-- The expression for the names that end with `.log` is accepted and does not match
them any more. -/
theorem not_meanSame_log :
    ∃ aligned, alignFilterRules simpleRegex [logRule] = .ok aligned ∧
      ¬ MeanSame simpleRegex [logRule] aligned "app.log" := by
  have haligned : alignFilterRules simpleRegex [logRule] =
      .ok [.regex (normalizePath logRule.pattern)] := rfl
  refine ⟨_, haligned, fun hsame => ?_⟩
  have h := (meanSame_iff haligned "app.log").mp hsame logRule List.mem_cons_self rfl
  have hmatch : RegexMatches simpleRegex logRule.pattern "app.log" :=
    ⟨_, rfl, by decide⟩
  obtain ⟨isMatch, hcompile, hmatch'⟩ := h.mpr hmatch
  rw [← Except.ok.inj hcompile] at hmatch'
  exact absurd hmatch' (by decide)

/-- A rule for a directory, written with backslashes. -/
def tempRule : DuplicatiFilterRule where
  pattern := "C:\\temp\\"
  filterType := .pathPrefix

theorem wellFormed_tempRule : WellFormedRule tempRule where
  glob := by
    intro hkind
    cases hkind
  pathPrefix := by
    intro _
    decide

theorem wellFormed_logRule : WellFormedRule logRule where
  glob := by
    intro hkind
    cases hkind
  pathPrefix := by
    intro hkind
    cases hkind

/-- With the rule for the names it depends on the regular expressions whether the
alignment keeps the meaning; a rule for a directory keeps it. -/
theorem alignFilterRules_iff_log :
    (∃ compile aligned, alignFilterRules compile [tempRule, logRule] = .ok aligned ∧
      ¬ (MeanSame compile [tempRule, logRule] aligned "C:\\temp\\app.log" ↔
        SeparatorBlind compile [tempRule, logRule] "C:\\temp\\app.log")) ∧
    ∃ aligned, alignFilterRules simpleRegex [tempRule] = .ok aligned ∧
      (MeanSame simpleRegex [tempRule] aligned "C:\\temp\\app.log" ↔
        SeparatorBlind simpleRegex [tempRule] "C:\\temp\\app.log") := by
  have hlog : ¬ WithoutEscapes [tempRule, logRule] := by
    intro h
    exact absurd (h logRule (by simp) rfl) (by decide)
  have hwell : ∀ rule ∈ [tempRule, logRule], WellFormedRule rule := by
    intro rule hrule
    rw [List.mem_cons, List.mem_singleton] at hrule
    obtain rfl | rfl := hrule
    · exact wellFormed_tempRule
    · exact wellFormed_logRule
  have htemp : WithoutEscapes [tempRule] := by
    intro rule hrule hkind
    obtain rfl := List.mem_singleton.mp hrule
    cases hkind
  have haligned : alignFilterRules simpleRegex [tempRule] =
      .ok [.pathPrefix (normalizePath tempRule.pattern)] := rfl
  exact ⟨(alignFilterRules_iff [tempRule, logRule] "C:\\temp\\app.log").2.1 hwell hlog,
    _, haligned,
    (alignFilterRules_iff [tempRule] "C:\\temp\\app.log").1 htemp _ _ haligned⟩

end Example

end Compat
end HyperBackup
