import HyperBackup.Lib.Markup
import HyperBackup.Lib.Regex
import Mathlib.Data.List.GetD
import Mathlib.Tactic.IntervalCases

/-!
# The sanitizer of audit details

Nine patterns are applied to a text one after the other.  Each of them, apart from the
one for private keys, begins with a keyword and a separator and takes the text up to the
next white space as the secret.  What replaces a match is cut out of the match itself:
all up to the first `://`, else up to the first colon, else up to the first equality
sign, wherever it is.
-/

namespace HyperBackup
namespace Control
namespace Sanitizer

open Lib.Regex
open Lib.Replace
open Lib.Markup (find)

section Patterns

/-- White space, `\s`. -/
def isSpace (c : Char) : Bool :=
  [' ', '\t', '\n', '\x0c', '\r'].contains c

/-- Any other character, `\S`. -/
def isText (c : Char) : Bool :=
  !isSpace c

/-- Patterns do not tell upper case from lower case.  Two characters that are not ASCII
are taken for an `s` and a `k`. -/
def foldCase (c : Char) : Char :=
  if c = '\u017f' then 's' else if c = '\u212a' then 'k' else c.toLower

/-- `[=:]` -/
def isSeparator (c : Char) : Bool :=
  c = '=' || c = ':'

/-- `[A-Za-z0-9\-_\.]` -/
def isTokenChar (c : Char) : Bool :=
  (foldCase c).isAlphanum || c = '-' || c = '_' || c = '.'

/-- `[A-Z ]` -/
def isUpperOrBlank (c : Char) : Bool :=
  c.isUpper || c = ' '

def keyword (words : List String) : Piece Char :=
  .words foldCase (words.map String.toList)

def literal (text : String) : Piece Char :=
  .words id [text.toList]

/-- A keyword with an equality sign or a colon. -/
def assignment (words : List String) : List (Piece Char) :=
  [keyword words, .many isSpace, .one isSeparator, .many isSpace, .many1 isText]

def privateKeyBlock : List (Piece Char) :=
  [literal "-----BEGIN ", .many isUpperOrBlank, literal "PRIVATE KEY-----",
    .lazy fun _ => true,
    literal "-----END ", .many isUpperOrBlank, literal "PRIVATE KEY-----"]

def authorization : List (Piece Char) :=
  [keyword ["authorization"], .many isSpace, .one (· = ':'), .many isSpace,
    keyword ["bearer"], .many1 isSpace, .many1 isText]

def bearer : List (Piece Char) :=
  [keyword ["bearer"], .many1 isSpace, .many1 isTokenChar]

def connection : List (Piece Char) :=
  [keyword ["mongodb", "redis", "postgres", "mysql", "s3", "sftp", "ftp"],
    literal "://", .many1 isText]

def patterns : List (List (Piece Char)) :=
  [assignment ["password", "passwd", "pwd"],
    assignment ["secret", "token", "api_key", "apikey", "access_key", "secret_key"],
    assignment ["private_key", "privatekey", "encryption_key"],
    assignment ["credential", "cred"],
    privateKeyBlock,
    authorization,
    bearer,
    connection,
    assignment ["connection_string", "connstr"]]

end Patterns

section SanitizeString

/-- What replaces a match. -/
def redact (m : List Char) : List Char :=
  match find "-----BEGIN".toList m with
  | some _ => "-----REDACTED PRIVATE KEY-----".toList
  | none =>
      match find "://".toList m with
      | some i => m.take i ++ "://***REDACTED***".toList
      | none =>
          match find ":".toList m with
          | some idx => m.take (idx + 1) ++ " ***REDACTED***".toList
          | none =>
              match find "=".toList m with
              | some idx => m.take (idx + 1) ++ "***REDACTED***".toList
              | none => "***REDACTED***".toList

def replaceMatches (pattern : List (Piece Char)) (text : List Char) : List Char :=
  Lib.Replace.replaceAll (matchRest pattern) redact text

def sanitizeString (input : List Char) : List Char :=
  patterns.foldl (fun result pattern => replaceMatches pattern result) input

end SanitizeString

section Texts

variable {c : Char} {t a b d v r x w : List Char}

/-- The part of a match that lies in the tail. -/
theorem exists_of_append_eq (h : x ++ r = d ++ v) (hlt : r.length < v.length) :
    ∃ v', v' ≠ [] ∧ v' ++ r = v ∧ x = d ++ v' := by
  rcases List.append_eq_append_iff.mp h with ⟨e, rfl, rfl⟩ | ⟨e, rfl, rfl⟩
  · rw [List.length_append] at hlt
    omega
  · refine ⟨e, ?_, rfl, rfl⟩
    rintro rfl
    exact absurd hlt (Nat.lt_irrefl _)

/-- Two texts have their last character in common. -/
theorem exists_mem_of_append_eq (h : a ++ x = d ++ v) (hx : x ≠ []) (hv : v ≠ []) :
    ∃ c, c ∈ x ∧ c ∈ v := by
  rcases List.eq_nil_or_concat x with rfl | ⟨x, c, rfl⟩
  · exact absurd rfl hx
  · rcases List.eq_nil_or_concat v with rfl | ⟨v, c', rfl⟩
    · exact absurd rfl hv
    · have hsplit : (a ++ x) ++ [c] = (d ++ v) ++ [c'] := by
        simpa using h
      obtain rfl := (List.cons.inj (List.append_inj' hsplit rfl).2).1
      exact ⟨c, by simp, by simp⟩

theorem cons_suffix_of_notMem (h : c :: t <:+ a ++ b) (hc : c ∉ a) : c :: t <:+ b := by
  rcases List.suffix_or_suffix_of_suffix h (List.suffix_append a b) with h' | ⟨e, he⟩
  · exact h'
  · cases e with
    | nil =>
        exact he ▸ List.suffix_rfl
    | cons c' e =>
        obtain ⟨f, hf⟩ := h
        obtain ⟨rfl, -⟩ := List.cons.inj he
        rw [← he, ← List.append_assoc] at hf
        have hmem : c' ∈ f ++ c' :: e := by simp
        rw [List.append_cancel_right hf] at hmem
        exact absurd hmem hc

theorem suffix_of_cons_suffix_cons {c' : Char} (h : c :: t <:+ c' :: b) : t <:+ b := by
  rcases List.suffix_cons_iff.mp h with heq | h
  · rw [(List.cons.inj heq).2]
  · exact (List.suffix_cons c t).trans h

/-- A word is not split by a character that it does not have. -/
theorem infix_of_append_cons (h : w <:+: a ++ c :: b) (hc : c ∉ w) :
    w <:+: a ∨ w <:+: b := by
  have hbegins : ∀ y, y ≠ [] → y <+: c :: b → c ∈ y := by
    intro y hy hbegins
    cases y with
    | nil => exact absurd rfl hy
    | cons c' y =>
        rw [(List.cons_prefix_cons.mp hbegins).1]
        exact List.mem_cons_self
  rcases List.infix_append_iff_ne_nil.mp h with h | h | ⟨x, y, -, hy, rfl, -, h⟩
  · exact Or.inl h
  · rcases List.infix_cons_iff.mp h with h | h
    · by_cases hne : w = []
      · rw [hne]
        exact Or.inl List.nil_infix
      · exact absurd (hbegins w hne h) hc
    · exact Or.inr h
  · exact absurd (List.mem_append_right x (hbegins y hy h)) hc

end Texts

section Marks

/-- Characters that no keyword has. -/
def isMark (c : Char) : Bool :=
  isSpace c || isSeparator c || c = '/'

/-- A word without marks. -/
def plain (w : List Char) : Bool :=
  w.all fun c => !isMark c

theorem plain_iff {w : List Char} : plain w ↔ ∀ c ∈ w, isMark c = false := by
  simp [plain]

theorem foldCase_of_isMark {c : Char} (h : isMark c) : foldCase c = c := by
  simp only [isMark, isSpace, isSeparator, Bool.or_eq_true, decide_eq_true_eq,
    List.contains_iff_mem, List.mem_cons, List.not_mem_nil, or_false] at h
  rcases h with ((rfl | rfl | rfl | rfl | rfl) | rfl | rfl) | rfl
  all_goals decide

/-- A text of keywords and marks, with a mark behind each keyword. -/
inductive Built (words : List (List Char)) : List Char → Prop
  | nil : Built words []
  | mark {c : Char} {t : List Char} : isMark c → Built words t → Built words (c :: t)
  | word {k t : List Char} {c : Char} :
      k.map foldCase ∈ words → isMark c → Built words t → Built words (k ++ c :: t)

variable {words : List (List Char)} {w t lead s v : List Char}

theorem Built.mem (h : Built words t) {c : Char} (hc : c ∈ t) :
    isMark c ∨ ∃ word ∈ words, foldCase c ∈ word := by
  induction h with
  | nil =>
      cases hc
  | mark hmark _ ih =>
      rcases List.mem_cons.mp hc with rfl | hc
      · exact Or.inl hmark
      · exact ih hc
  | word hk hmark _ ih =>
      rcases List.mem_append.mp hc with hc | hc
      · exact Or.inr ⟨_, hk, List.mem_map_of_mem hc⟩
      · rcases List.mem_cons.mp hc with rfl | hc
        · exact Or.inl hmark
        · exact ih hc

/-- A word without marks is found in a keyword only. -/
theorem Built.exists_infix (h : Built words t) (hne : w ≠ [])
    (hw : plain w) (hin : w <:+: t.map foldCase) :
    ∃ word ∈ words, w <:+: word := by
  have hmem : ∀ {c : Char}, isMark c → foldCase c ∉ w := by
    intro c hc hmem
    rw [foldCase_of_isMark hc] at hmem
    rw [plain_iff.mp hw c hmem] at hc
    cases hc
  induction h with
  | nil =>
      exact absurd (List.infix_nil.mp hin) hne
  | mark hmark _ ih =>
      rcases infix_of_append_cons (a := []) hin (hmem hmark) with hin | hin
      · exact absurd (List.infix_nil.mp hin) hne
      · exact ih hin
  | word hk hmark _ ih =>
      rw [List.map_append, List.map_cons] at hin
      rcases infix_of_append_cons hin (hmem hmark) with hin | hin
      · exact ⟨_, hk, hin⟩
      · exact ih hin

end Marks

section Leads

def Spaces (t : List Char) : Prop :=
  ∀ c ∈ t, isSpace c

def pattern (i : Nat) : List (Piece Char) :=
  patterns.getD i []

/-- A keyword with its separator: what the pieces in front of the secret match in full.
The pattern for private keys has no keyword. -/
def IsLead (i : Nat) (lead : List Char) : Prop :=
  i < patterns.length ∧ i ≠ 4 ∧ [] ∈ rests (pattern i).dropLast lead

/-- The words of a pattern. -/
def wordsOf (pattern : List (Piece Char)) : List (List Char) :=
  pattern.flatMap fun piece =>
    match piece with
    | .words _ options => options
    | _ => []

/-- The words that a pattern begins with. -/
def firstWords : List (Piece Char) → List (List Char)
  | .words _ options :: _ => options
  | _ => []

/-- Keywords have no marks. -/
theorem words_plain : ∀ j < 9, ∀ w ∈ firstWords (pattern j),
    w ≠ [] ∧ (j = 4 ∨ plain w) := by
  decide +kernel

theorem keywords_plain {j : Nat} (hj : j < 9) (hj4 : j ≠ 4) {w : List Char}
    (hw : w ∈ firstWords (pattern j)) : w ≠ [] ∧ plain w :=
  ⟨(words_plain j hj w hw).1, (words_plain j hj w hw).2.resolve_left hj4⟩

variable {ws : List String} {lead text r s t a k : List Char} {c : Char} {i : Nat}

theorem exists_of_mem_assignment (h : r ∈ rests (assignment ws).dropLast text) :
    ∃ k s c s', k.map foldCase ∈ ws.map String.toList ∧ Spaces s ∧ isSeparator c ∧
      Spaces s' ∧ k ++ (s ++ c :: (s' ++ r)) = text := by
  obtain ⟨k, t₁, hk, rfl, h₁⟩ := mem_rests_cons_iff.mp h
  obtain ⟨s, t₂, hs, rfl, h₂⟩ := mem_rests_cons_iff.mp h₁
  obtain ⟨_, t₃, ⟨c, hc, rfl⟩, rfl, h₃⟩ := mem_rests_cons_iff.mp h₂
  obtain ⟨s', t₄, hs', rfl, h₄⟩ := mem_rests_cons_iff.mp h₃
  obtain rfl := mem_rests_nil_iff.mp h₄
  exact ⟨k, s, c, s', hk, hs, hc, hs', rfl⟩

theorem exists_of_mem_authorization (h : r ∈ rests authorization.dropLast text) :
    ∃ k s s' k' s'', k.map foldCase = "authorization".toList ∧ Spaces s ∧ Spaces s' ∧
      k'.map foldCase = "bearer".toList ∧ s'' ≠ [] ∧ Spaces s'' ∧
      k ++ (s ++ ':' :: (s' ++ (k' ++ (s'' ++ r)))) = text := by
  obtain ⟨k, t₁, hk, rfl, h₁⟩ := mem_rests_cons_iff.mp h
  obtain ⟨s, t₂, hs, rfl, h₂⟩ := mem_rests_cons_iff.mp h₁
  obtain ⟨_, t₃, ⟨c, hc, rfl⟩, rfl, h₃⟩ := mem_rests_cons_iff.mp h₂
  obtain ⟨s', t₄, hs', rfl, h₄⟩ := mem_rests_cons_iff.mp h₃
  obtain ⟨k', t₅, hk', rfl, h₅⟩ := mem_rests_cons_iff.mp h₄
  obtain ⟨s'', t₆, ⟨hne, hs''⟩, rfl, h₆⟩ := mem_rests_cons_iff.mp h₅
  obtain rfl := mem_rests_nil_iff.mp h₆
  obtain rfl := of_decide_eq_true hc
  exact ⟨k, s, s', k', s'', List.mem_singleton.mp hk, hs, hs', List.mem_singleton.mp hk',
    hne, hs'', rfl⟩

theorem exists_of_mem_bearer (h : r ∈ rests bearer.dropLast text) :
    ∃ k s, k.map foldCase = "bearer".toList ∧ s ≠ [] ∧ Spaces s ∧
      k ++ (s ++ r) = text := by
  obtain ⟨k, t₁, hk, rfl, h₁⟩ := mem_rests_cons_iff.mp h
  obtain ⟨s, t₂, ⟨hne, hs⟩, rfl, h₂⟩ := mem_rests_cons_iff.mp h₁
  obtain rfl := mem_rests_nil_iff.mp h₂
  exact ⟨k, s, List.mem_singleton.mp hk, hne, hs, rfl⟩

def schemes : List (List Char) :=
  ["mongodb", "redis", "postgres", "mysql", "s3", "sftp", "ftp"].map String.toList

theorem schemes_plain : ∀ w ∈ schemes, plain w :=
  fun _ hw => (keywords_plain (j := 7) (by decide) (by decide) hw).2

theorem exists_of_mem_connection (h : r ∈ rests connection.dropLast text) :
    ∃ k, k.map foldCase ∈ schemes ∧ k ++ ([':', '/', '/'] ++ r) = text := by
  obtain ⟨k, t₁, hk, rfl, h₁⟩ := mem_rests_cons_iff.mp h
  obtain ⟨mark, t₂, hmark, rfl, h₂⟩ := mem_rests_cons_iff.mp h₁
  obtain rfl := mem_rests_nil_iff.mp h₂
  have hmark' : mark = [':', '/', '/'] := by
    have hmem := List.mem_singleton.mp hmark
    rw [List.map_id] at hmem
    exact hmem.trans (by decide)
  exact ⟨k, hk, by rw [hmark']⟩

/-- What is known of a lead: how it is built, what its last characters are, that it has
a separator, and that no other way to match it leaves anything but white space. -/
structure LeadFacts (i : Nat) (lead : List Char) : Prop where
  built : Built (wordsOf (pattern i)) lead
  ends : ∃ a y z, lead = a ++ [y, z] ∧ isMark z ∧ (z = ' ' → y ≠ 'E')
  marked : (∃ c ∈ lead, isSeparator c) ∨ i = 6
  blocked : 7 ≤ i → ∀ k, k.map foldCase ∈ schemes →
    ¬ lead <:+ k ++ [':'] ∧ ¬ lead <:+ k ++ [':', '/']
  tight : ∀ r ∈ rests (pattern i).dropLast lead, Spaces r

theorem isMark_of_isSpace (h : isSpace c) : isMark c := by
  simp [isMark, h]

theorem isMark_of_isSeparator (h : isSeparator c) : isMark c := by
  simp [isMark, h]

theorem built_spaces {words : List (List Char)} (hs : Spaces s) (ht : Built words t) :
    Built words (s ++ t) := by
  induction s with
  | nil =>
      exact ht
  | cons c s ih =>
      obtain ⟨hc, hs⟩ := List.forall_mem_cons.mp hs
      exact .mark (isMark_of_isSpace hc) (ih hs)

/-- A keyword with white space and a mark behind it. -/
theorem built_word {words : List (List Char)} (hk : k.map foldCase ∈ words)
    (hs : Spaces s) (hc : isMark c) (ht : Built words t) :
    Built words (k ++ (s ++ c :: t)) := by
  cases s with
  | nil =>
      exact .word hk hc ht
  | cons c' s =>
      obtain ⟨hc', hs⟩ := List.forall_mem_cons.mp hs
      exact .word hk (isMark_of_isSpace hc') (built_spaces hs (.mark hc ht))

theorem built_word_spaces {words : List (List Char)} (hk : k.map foldCase ∈ words)
    (hne : s ≠ []) (hs : Spaces s) : Built words (k ++ s) := by
  cases s with
  | nil =>
      exact absurd rfl hne
  | cons c s =>
      obtain ⟨hc, hs⟩ := List.forall_mem_cons.mp hs
      exact .word hk (isMark_of_isSpace hc) (by simpa using built_spaces hs Built.nil)

theorem exists_ends (hs : Spaces s) (hE : c ≠ 'E')
    (hnil : s = [] → a ≠ [] ∧ isMark c ∧ c ≠ ' ') :
    ∃ a' y z, a ++ c :: s = a' ++ [y, z] ∧ isMark z ∧ (z = ' ' → y ≠ 'E') := by
  rcases List.eq_nil_or_concat s with rfl | ⟨s, z, rfl⟩
  · obtain ⟨hne, hc, hblank⟩ := hnil rfl
    rcases List.eq_nil_or_concat a with rfl | ⟨a, y, rfl⟩
    · exact absurd rfl hne
    · refine ⟨a, y, c, ?_, hc, fun h => absurd h hblank⟩
      simp
  · have hz : isMark z := isMark_of_isSpace (hs z (by simp))
    have hys : ∀ y ∈ c :: s, y ≠ 'E' := by
      intro y hy
      rcases List.mem_cons.mp hy with rfl | hy
      · exact hE
      · rintro rfl
        exact absurd (hs 'E' (by simp [hy])) (by decide)
    rcases List.eq_nil_or_concat (c :: s) with hcs | ⟨b, y, hcs⟩
    · cases hcs
    · refine ⟨a ++ b, y, z, ?_, hz, fun _ => hys y (by rw [hcs]; simp)⟩
      have hsplit : c :: (s.concat z) = (b.concat y).concat z := by
        rw [← hcs]
        rfl
      rw [hsplit]
      simp

end Leads

section Facts

variable {ws : List String} {lead text r s t a k : List Char} {c : Char} {i : Nat}

theorem not_mem_word {words : List (List Char)}
    (hwords : ∀ w ∈ words, plain w) (hk : k.map foldCase ∈ words)
    (hc : isMark c) : c ∉ k := by
  intro hmem
  have hmark := plain_iff.mp (hwords _ hk) _ (List.mem_map_of_mem hmem)
  rw [foldCase_of_isMark hc, hc] at hmark
  cases hmark

theorem not_mem_spaces (hs : Spaces s) (hc : isSeparator c) : c ∉ s := by
  intro hmem
  have hspace := hs c hmem
  simp only [isSpace, isSeparator, Bool.or_eq_true, decide_eq_true_eq] at hspace hc
  rcases hc with rfl | rfl
  all_goals exact absurd hspace (by decide)

theorem Spaces.of_suffix (hs : Spaces s) (h : t <:+ s) : Spaces t :=
  fun c hc => hs c (h.subset hc)

/-- White space is all that any way to match the keyword and the separator can leave:
the separator is found in one place only. -/
theorem spaces_of_mem_assignment (hwords : ∀ w ∈ ws.map String.toList, plain w)
    (hfull : [] ∈ rests (assignment ws).dropLast lead)
    (h : r ∈ rests (assignment ws).dropLast lead) : Spaces r := by
  obtain ⟨k, s, c, s', hk, hs, hc, hs', rfl⟩ := exists_of_mem_assignment hfull
  obtain ⟨k', t, c', t', -, -, hc', -, heq⟩ := exists_of_mem_assignment h
  have hsuffix : c' :: (t' ++ r) <:+ (k ++ s) ++ c :: s' := by
    refine ⟨k' ++ t, ?_⟩
    simpa using heq
  have hnot : c' ∉ k ++ s := by
    rw [List.mem_append, not_or]
    exact ⟨not_mem_word hwords hk (isMark_of_isSeparator hc'), not_mem_spaces hs hc'⟩
  have hrest := suffix_of_cons_suffix_cons (cons_suffix_of_notMem hsuffix hnot)
  exact hs'.of_suffix ((List.suffix_append t' r).trans hrest)

/-- Behind a scheme that is cut off in its `://` no keyword ends. -/
theorem infix_scheme_of_suffix {scheme x : List Char}
    (hwords : ∀ w ∈ ws.map String.toList, plain w)
    (h : [] ∈ rests (assignment ws).dropLast lead) (hsuffix : lead <:+ scheme ++ ':' :: x) :
    ∃ w ∈ ws.map String.toList, w <:+: scheme.map foldCase ∨ w <:+: x.map foldCase := by
  obtain ⟨k, s, c, s', hk, -, -, -, rfl⟩ := exists_of_mem_assignment h
  have hmap := ((List.prefix_append k _).isInfix.trans hsuffix.isInfix).map foldCase
  rw [List.map_append, List.map_cons] at hmap
  exact ⟨_, hk, infix_of_append_cons hmap fun hmem =>
    absurd (plain_iff.mp (hwords _ hk) _ hmem) (by decide)⟩

theorem leadFacts_assignment (hi : pattern i = assignment ws) (hlt : i < 9) (hi4 : i ≠ 4)
    (hblocked : 7 ≤ i → ∀ w ∈ ws.map String.toList, ∀ scheme ∈ schemes,
      ¬ w <:+: scheme ∧ ¬ w <:+: ['/'])
    (h : [] ∈ rests (pattern i).dropLast lead) : LeadFacts i lead := by
  have hpattern : wordsOf (pattern i) = ws.map String.toList := by
    rw [hi]
    simp [wordsOf, assignment, keyword]
  have hwords : ∀ w ∈ ws.map String.toList, w ≠ [] ∧ plain w := by
    intro w hw
    refine keywords_plain hlt hi4 ?_
    rw [hi]
    exact hw
  have hplain := fun w hw => (hwords w hw).2
  rw [hi] at h
  obtain ⟨k, s, c, s', hk, hs, hc, hs', hlead⟩ := exists_of_mem_assignment h
  rw [List.append_nil] at hlead
  refine ⟨?_, ?_, Or.inl ⟨c, by simp [← hlead], hc⟩, ?_, fun r hr => ?_⟩
  · rw [hpattern, ← hlead]
    exact built_word hk hs (isMark_of_isSeparator hc) (by
      simpa using built_spaces hs' Built.nil)
  · rw [← hlead, ← List.append_assoc]
    refine exists_ends hs' ?_ fun _ => ⟨?_, isMark_of_isSeparator hc, ?_⟩
    · rintro rfl
      cases hc
    · intro hnil
      obtain ⟨rfl, -⟩ := List.append_eq_nil_iff.mp hnil
      exact (hwords _ hk).1 rfl
    · rintro rfl
      cases hc
  · intro hi7 scheme hscheme
    constructor
    · intro hsuffix
      obtain ⟨w, hw, hin | hin⟩ := infix_scheme_of_suffix hplain h hsuffix
      · exact (hblocked hi7 w hw _ hscheme).1 hin
      · exact (hwords w hw).1 (List.infix_nil.mp hin)
    · intro hsuffix
      obtain ⟨w, hw, hin | hin⟩ := infix_scheme_of_suffix hplain h hsuffix
      · exact (hblocked hi7 w hw _ hscheme).1 hin
      · exact (hblocked hi7 w hw _ hscheme).2 hin
  · rw [hi] at hr
    exact spaces_of_mem_assignment hplain h hr

/-- White space ends behind a word. -/
theorem exists_ends_bearer (hk : k.map foldCase = "bearer".toList) (hs : Spaces s)
    (hne : s ≠ []) (a : List Char) :
    ∃ a' y z, a ++ (k ++ s) = a' ++ [y, z] ∧ isMark z ∧ (z = ' ' → y ≠ 'E') := by
  rcases List.eq_nil_or_concat k with rfl | ⟨k, y, rfl⟩
  · exact absurd hk (by decide)
  · have hy : foldCase y = 'r' := by
      rw [List.concat_eq_append, List.map_append] at hk
      have hlast := congrArg List.getLast? hk
      rw [List.map_singleton, List.getLast?_concat] at hlast
      exact Option.some.inj (hlast.trans (by decide))
    have hE : y ≠ 'E' := by
      rintro rfl
      exact absurd hy (by decide)
    have hends := exists_ends (a := a ++ k) hs hE fun hnil => absurd hnil hne
    simpa using hends

/-- Two ways to match a word leave the same. -/
theorem eq_of_word {k' : List Char} (h : k'.map foldCase = k.map foldCase)
    (heq : k' ++ r = k ++ s) : r = s := by
  have hlen : k'.length = k.length := by
    simpa using congrArg List.length h
  exact (List.append_inj heq hlen).2

theorem leadFacts_bearer (h : [] ∈ rests bearer.dropLast lead) : LeadFacts 6 lead := by
  obtain ⟨k, s, hk, hne, hs, rfl⟩ := exists_of_mem_bearer h
  have hk' : k.map foldCase ∈ wordsOf (pattern 6) := by
    rw [hk]
    decide
  refine ⟨?_, ?_, Or.inr rfl, fun hi => absurd hi (by decide), ?_⟩
  · rw [List.append_nil]
    exact built_word_spaces hk' hne hs
  · simpa using exists_ends_bearer hk hs hne []
  · intro r hr
    obtain ⟨k', t, hk', -, -, heq⟩ := exists_of_mem_bearer hr
    have hrest := eq_of_word (hk'.trans hk.symm) heq
    rw [List.append_nil] at hrest
    exact hs.of_suffix (hrest ▸ List.suffix_append t r)

theorem authorization_plain : ∀ w ∈ wordsOf (pattern 5), plain w := by
  decide

theorem mem_wordsOf_authorization (h : k.map foldCase = "authorization".toList ∨
    k.map foldCase = "bearer".toList) : k.map foldCase ∈ wordsOf (pattern 5) := by
  rcases h with h | h
  · rw [h]
    decide
  · rw [h]
    decide

/-- The colon is found in one place only, and so is the word behind it. -/
theorem spaces_of_mem_authorization (hfull : [] ∈ rests authorization.dropLast lead)
    (h : r ∈ rests authorization.dropLast lead) : Spaces r := by
  obtain ⟨k, s, s', k', s'', hk, hs, hs', hk', -, hs'', rfl⟩ :=
    exists_of_mem_authorization hfull
  obtain ⟨l, t, t', l', t'', -, -, ht', hl', -, -, heq⟩ := exists_of_mem_authorization h
  have hcolon : ':' ∉ k ++ s := by
    rw [List.mem_append, not_or]
    exact ⟨not_mem_word authorization_plain (mem_wordsOf_authorization (Or.inl hk)) rfl,
      not_mem_spaces hs rfl⟩
  have hsuffix : ':' :: (t' ++ (l' ++ (t'' ++ r))) <:+
      (k ++ s) ++ ':' :: (s' ++ (k' ++ (s'' ++ []))) := by
    refine ⟨l ++ t, ?_⟩
    simpa using heq
  have hrest := suffix_of_cons_suffix_cons (cons_suffix_of_notMem hsuffix hcolon)
  have hword : l' ++ (t'' ++ r) <:+ k' ++ s'' := by
    cases l' with
    | nil =>
        exact absurd hl' (by decide)
    | cons c l' =>
        have hc : c ∉ s' := fun hmem =>
          not_mem_word authorization_plain (mem_wordsOf_authorization (Or.inr hl'))
            (isMark_of_isSpace (hs' c hmem)) List.mem_cons_self
        have hsuffix' := (List.suffix_append t' _).trans hrest
        rw [List.append_nil] at hsuffix'
        exact cons_suffix_of_notMem hsuffix' hc
  have hlen : l'.length = k'.length := by
    simpa using congrArg List.length (hl'.trans hk'.symm)
  have hle : (t'' ++ r).length ≤ s''.length := by
    have hle := hword.length_le
    simp only [List.length_append] at hle ⊢
    omega
  have hspaces := List.suffix_of_suffix_length_le
    ((List.suffix_append l' _).trans hword) (List.suffix_append k' s'') hle
  exact hs''.of_suffix ((List.suffix_append t'' r).trans hspaces)

theorem leadFacts_authorization (h : [] ∈ rests authorization.dropLast lead) :
    LeadFacts 5 lead := by
  obtain ⟨k, s, s', k', s'', hk, hs, hs', hk', hne, hs'', hlead⟩ :=
    exists_of_mem_authorization h
  rw [List.append_nil] at hlead
  refine ⟨?_, ?_, Or.inl ⟨':', by simp [← hlead], rfl⟩, fun hi => absurd hi (by decide),
    fun r hr => spaces_of_mem_authorization h hr⟩
  · rw [← hlead]
    exact built_word (mem_wordsOf_authorization (Or.inl hk)) hs rfl
      (built_spaces hs' (built_word_spaces (mem_wordsOf_authorization (Or.inr hk')) hne hs''))
  · have hends := exists_ends_bearer hk' hs'' hne (k ++ (s ++ ':' :: s'))
    rw [← hlead]
    simpa using hends

theorem leadFacts_connection (h : [] ∈ rests connection.dropLast lead) :
    LeadFacts 7 lead := by
  obtain ⟨k, hk, rfl⟩ := exists_of_mem_connection h
  have hk' : k.map foldCase ∈ wordsOf (pattern 7) := by
    have hsub : ∀ w ∈ schemes, w ∈ wordsOf (pattern 7) := by
      decide
    exact hsub _ hk
  refine ⟨?_, ⟨k ++ [':'], '/', '/', by simp, rfl, fun h => absurd h (by decide)⟩,
    Or.inl ⟨':', by simp, rfl⟩, ?_, ?_⟩
  · exact .word hk' rfl (.mark rfl (.mark rfl .nil))
  · intro _ k' _
    have hlast : ∀ front x y : List Char, x.length = y.length → x ≠ y →
        ¬ k ++ (front ++ x) <:+ k' ++ y := by
      rintro front x y hlen hne ⟨e, he⟩
      rw [← List.append_assoc, ← List.append_assoc] at he
      exact hne (List.append_inj' he hlen).2
    exact ⟨hlast [':', '/'] ['/'] [':'] rfl (by decide),
      hlast [':'] ['/', '/'] [':', '/'] rfl (by decide)⟩
  · intro r hr
    obtain ⟨k', -, heq⟩ := exists_of_mem_connection hr
    have hsuffix : ':' :: ('/' :: '/' :: r) <:+ k ++ ':' :: ['/', '/'] :=
      ⟨k', heq⟩
    have hle := (cons_suffix_of_notMem hsuffix (not_mem_word schemes_plain hk rfl)).length_le
    have hnil : r = [] := by
      refine List.length_eq_zero_iff.mp ?_
      simp only [List.length_cons, List.length_nil] at hle
      omega
    rw [hnil]
    exact fun c hc => by cases hc

end Facts

section Shapes

variable {lead : List Char} {i : Nat}

theorem IsLead.lt (h : IsLead i lead) : i < 9 :=
  h.1

theorem leadFacts (h : IsLead i lead) : LeadFacts i lead := by
  have hi := h.lt
  obtain ⟨-, hi4, hlead⟩ := h
  interval_cases i
  · exact leadFacts_assignment rfl hi hi4 (by decide) hlead
  · exact leadFacts_assignment rfl hi hi4 (by decide) hlead
  · exact leadFacts_assignment rfl hi hi4 (by decide) hlead
  · exact leadFacts_assignment rfl hi hi4 (by decide) hlead
  · exact absurd rfl hi4
  · exact leadFacts_authorization hlead
  · exact leadFacts_bearer hlead
  · exact leadFacts_connection hlead
  · exact leadFacts_assignment rfl hi hi4 (by decide) hlead

end Shapes

end Sanitizer
end Control
end HyperBackup
