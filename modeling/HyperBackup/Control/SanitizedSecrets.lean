import HyperBackup.Control.AuditSanitizer

/-!
# What the redacted text tells about a secret

A keyword, its separator and a secret stand behind some text.  As long as no match ends
in the keyword and each match that takes the secret is cut in front of it, the redacted
text does not depend on the secret.

Up to the pattern of the keyword, a search that begins in front of the secret finds the
same for every secret.  The patterns before that of the keyword change the text in front
and the secret, each for itself, or one of them already takes the secret.
-/

namespace HyperBackup
namespace Control
namespace Sanitizer

open Lib.Regex
open Lib.Replace
open Lib.Markup (find find_eq_none_iff find_append_of_eq_some add_length_le_of_find)

section Stages

variable {lead v w d a : List Char} {y z : Char} {ws : List String} {i j : Nat}

/-- The last two characters of a lead are those of a text that it ends. -/
theorem exists_ends_behind (hlead : IsLead i lead) (hd : lead <:+ d) :
    ∃ a y z, d = a ++ [y, z] ∧ isMark z ∧ (z = ' ' → y ≠ 'E') := by
  obtain ⟨a, y, z, hends, hz, hy⟩ := (leadFacts hlead).ends
  obtain ⟨e, he⟩ := hd
  refine ⟨e ++ a, y, z, ?_, hz, hy⟩
  rw [← he, hends, List.append_assoc]

/-- The last character in front of a secret is a mark. -/
theorem exists_mark_mem (hlead : IsLead i lead) (hd : lead <:+ d) {x : List Char}
    (hx : x <:+ d) (hne : x ≠ []) : ∃ c ∈ x, isMark c := by
  obtain ⟨a, y, z, rfl, hz, -⟩ := exists_ends_behind hlead hd
  obtain ⟨e, he⟩ := hx
  have hsplit : e ++ x = (a ++ [y]) ++ [z] := by
    simpa using he
  obtain ⟨c, hc, hc'⟩ := exists_mem_of_append_eq hsplit hne (by simp)
  obtain rfl := List.mem_singleton.mp hc'
  exact ⟨c, hc, hz⟩

theorem false_of_isText {c : Char} (h : isText c) (hspace : isSpace c) : False := by
  simp [isText, hspace] at h

/-- Only the separator could be in the tail, and there is one before or none in it. -/
theorem closed_assignment (hwords : ∀ w ∈ ws.map String.toList, plain w)
    (hv : ∀ c ∈ v, isText c)
    (hsep : (∃ c ∈ d, isSeparator c) ∨ ∀ c ∈ v, ¬ isSeparator c) :
    Closed (assignment ws).dropLast d v := by
  intro r hr
  by_contra hlt
  obtain ⟨k, s, c, s', hk, hs, hc, hs', heq⟩ := exists_of_mem_assignment hr
  have heq' : (k ++ (s ++ c :: s')) ++ r = d ++ v := by
    simpa using heq
  obtain ⟨v', hne, rfl, hx⟩ := exists_of_append_eq heq' (Nat.not_le.mp hlt)
  rcases List.eq_nil_or_concat s' with rfl | ⟨s', c', rfl⟩
  · rcases List.eq_nil_or_concat v' with rfl | ⟨v', c', rfl⟩
    · exact hne rfl
    · have hsplit : (k ++ s) ++ [c] = (d ++ v') ++ [c'] := by
        simpa using hx
      obtain ⟨hfront, hlast⟩ := List.append_inj' hsplit rfl
      obtain rfl := (List.cons.inj hlast).1
      rcases hsep with ⟨c', hc', hsep⟩ | hsep
      · have hmem : c' ∈ k ++ s := hfront ▸ List.mem_append_left v' hc'
        rcases List.mem_append.mp hmem with hmem | hmem
        · exact not_mem_word hwords hk (isMark_of_isSeparator hsep) hmem
        · exact not_mem_spaces hs hsep hmem
      · exact hsep c (by simp) hc
  · obtain ⟨c'', hspace, htail⟩ := exists_mem_of_append_eq (x := s'.concat c')
      (a := k ++ (s ++ [c])) (by simpa using hx) (by simp) hne
    exact false_of_isText (hv c'' (by simp [htail])) (hs' c'' hspace)

/-- White space is not in the tail. -/
theorem closed_spaces (pieces : List (Piece Char)) (hv : ∀ c ∈ v, isText c) :
    Closed (pieces ++ [.many1 isSpace]) d v := by
  intro r hr
  by_contra hlt
  rw [rests_append, List.mem_flatMap] at hr
  obtain ⟨text, htext, hr⟩ := hr
  obtain ⟨s, text', ⟨hne, hs⟩, rfl, hr'⟩ := mem_rests_cons_iff.mp hr
  obtain rfl := mem_rests_nil_iff.mp hr'
  obtain ⟨x, hx⟩ := suffix_of_mem_rests htext
  rw [← List.append_assoc] at hx
  obtain ⟨v', hne', rfl, hx'⟩ := exists_of_append_eq hx (Nat.not_le.mp hlt)
  obtain ⟨c, hspace, htail⟩ := exists_mem_of_append_eq hx' hne hne'
  exact false_of_isText (hv c (by simp [htail])) (hs c hspace)

/-- A text that ends in a mark has the scheme in it, and what is behind the scheme is
not the start of `://`. -/
theorem closed_connection (hd : d = a ++ [z]) (hz : isMark z)
    (hblocked : ∀ k, k.map foldCase ∈ schemes → d ≠ k ++ [':'] ∧ d ≠ k ++ [':', '/']) :
    Closed connection.dropLast d v := by
  intro r hr
  by_contra hlt
  obtain ⟨k, hk, heq⟩ := exists_of_mem_connection hr
  rw [← List.append_assoc] at heq
  obtain ⟨v', hne, rfl, hx⟩ := exists_of_append_eq heq (Nat.not_le.mp hlt)
  have hzk : z ∉ k := not_mem_word schemes_plain hk hz
  rcases List.append_eq_append_iff.mp hx with ⟨e, hde, he⟩ | ⟨e, hke, -⟩
  · obtain ⟨hcolon, hslash⟩ := hblocked k hk
    match e, he with
    | [], _ =>
        rw [List.append_nil] at hde
        exact hzk (by rw [← hde, hd]; simp)
    | [c], he =>
        obtain rfl := (List.cons.inj he).1
        exact hcolon hde
    | [c, c'], he =>
        obtain ⟨rfl, he'⟩ := List.cons.inj he
        obtain rfl := (List.cons.inj he').1
        exact hslash hde
    | c :: c' :: c'' :: e, he =>
        have hlen := congrArg List.length he
        have hpos := List.length_pos_of_ne_nil hne
        simp only [List.length_append, List.length_cons, List.length_nil] at hlen
        omega
  · exact hzk (by rw [hke, hd]; simp)

def blockEnd : List Char :=
  "PRIVATE KEY-----".toList

/-- Where the end of a block can be split behind its blank. -/
theorem blockEnd_split : ∀ n < blockEnd.length, ' ' ∈ blockEnd.drop n ∨
    2 ≤ n ∧ ((blockEnd.take n).drop (n - 2) = ['E', ' '] ∨
      plain (((blockEnd.take n).drop (n - 2)).drop 1)) := by
  decide +kernel

/-- The end of a private key block has a blank in it, and the text does not end there. -/
theorem closed_block (hd : d = a ++ [y, z]) (hz : isMark z) (hy : z = ' ' → y ≠ 'E')
    (hv : ∀ c ∈ v, isText c) : Closed privateKeyBlock d v := by
  intro r hr
  by_contra hlt
  have hsplit : privateKeyBlock =
      privateKeyBlock.dropLast ++ [literal "PRIVATE KEY-----"] := rfl
  rw [hsplit, rests_append, List.mem_flatMap] at hr
  obtain ⟨text, htext, hr⟩ := hr
  obtain ⟨word, text', hword, rfl, hr'⟩ := mem_rests_cons_iff.mp hr
  obtain rfl := mem_rests_nil_iff.mp hr'
  obtain ⟨x, hx⟩ := suffix_of_mem_rests htext
  rw [← List.append_assoc] at hx
  obtain ⟨v', hne, rfl, hx'⟩ := exists_of_append_eq hx (Nat.not_le.mp hlt)
  have hblank : ' ' ∉ v' := fun hmem => absurd (hv ' ' (by simp [hmem])) (by decide)
  have hword' : word = blockEnd := by
    have hmem := List.mem_singleton.mp hword
    rwa [List.map_id] at hmem
  rcases List.append_eq_append_iff.mp hx' with ⟨e, hde, he⟩ | ⟨e, -, he⟩
  · have hlen : e.length < blockEnd.length := by
      have hpos := List.length_pos_of_ne_nil hne
      rw [← hword', he, List.length_append]
      omega
    have htake : blockEnd.take e.length = e := by
      rw [← hword', he, List.take_left']
      rfl
    have hdrop : blockEnd.drop e.length = v' := by
      rw [← hword', he, List.drop_left']
      rfl
    rcases blockEnd_split e.length hlen with hmem | ⟨htwo, hlast⟩
    · exact hblank (hdrop ▸ hmem)
    · have hyzd : [y, z] <:+ d := hd ▸ List.suffix_append a [y, z]
      have hed : e <:+ d := hde ▸ List.suffix_append x e
      have hsuffix : [y, z] <:+ e := List.suffix_of_suffix_length_le hyzd hed htwo
      have hdropLast : [y, z] = e.drop (e.length - 2) := List.suffix_iff_eq_drop.mp hsuffix
      rw [htake, ← hdropLast] at hlast
      rcases hlast with hyz | hmark
      · obtain ⟨rfl, hz'⟩ := List.cons.inj hyz
        exact hy (List.cons.inj hz').1 rfl
      · rw [plain_iff.mp hmark z (by simp)] at hz
        cases hz
  · refine hblank ?_
    rw [he, hword']
    exact List.mem_append_right e (by decide)

end Stages

section Secrets

/-- The characters that a pattern takes for the secret. -/
def secretChar (pattern : List (Piece Char)) : Char → Bool :=
  match pattern.getLast? with
  | some (.many1 p) => p
  | _ => fun _ => false

/-- A text that a pattern takes for the secret as a whole. -/
structure Secret (i : Nat) (v : List Char) : Prop where
  ne_nil : v ≠ []
  taken : ∀ c ∈ v, secretChar (pattern i) c

instance (i : Nat) (v : List Char) : Decidable (Secret i v) :=
  decidable_of_iff (v ≠ [] ∧ v.all (secretChar (pattern i)))
    ⟨fun h => ⟨h.1, List.all_eq_true.mp h.2⟩, fun h => ⟨h.ne_nil, List.all_eq_true.mpr h.taken⟩⟩

variable {lead v w d : List Char} {i j : Nat}

theorem not_isTokenChar_of_isMark {c : Char} (h : isMark c) : ¬ isTokenChar c := by
  simp only [isMark, isSpace, isSeparator, Bool.or_eq_true, decide_eq_true_eq,
    List.contains_iff_mem, List.mem_cons, List.not_mem_nil, or_false] at h
  rcases h with ((rfl | rfl | rfl | rfl | rfl) | rfl | rfl) | rfl
  all_goals decide

theorem isText_of_isTokenChar {c : Char} (h : isTokenChar c) : isText c := by
  by_contra hspace
  have hmark : isMark c := isMark_of_isSpace (by simpa [isText] using hspace)
  exact not_isTokenChar_of_isMark hmark h

theorem not_isSeparator_of_isTokenChar {c : Char} (h : isTokenChar c) :
    ¬ isSeparator c :=
  fun hsep => not_isTokenChar_of_isMark (isMark_of_isSeparator hsep) h

/-- The run that takes the secret is the last piece of a pattern. -/
theorem pattern_eq (hi : i < 9) (hi4 : i ≠ 4) :
    pattern i = (pattern i).dropLast ++ [.many1 (secretChar (pattern i))] := by
  interval_cases i
  all_goals first
    | rfl
    | exact absurd rfl hi4

theorem secretChar_eq (hi : i < 9) (hi4 : i ≠ 4) (hi6 : i ≠ 6) :
    secretChar (pattern i) = isText := by
  interval_cases i
  all_goals first
    | rfl
    | exact absurd rfl hi4
    | exact absurd rfl hi6

theorem Secret.isText (h : Secret i v) (hlead : IsLead i lead) :
    ∀ c ∈ v, isText c := by
  intro c hc
  have htaken := h.taken c hc
  by_cases hi : i = 6
  · subst hi
    exact isText_of_isTokenChar htaken
  · rwa [secretChar_eq hlead.lt hlead.2.1 hi] at htaken

theorem Secret.takes (h : Secret i v) (hlead : IsLead i lead) :
    (Piece.many1 Sanitizer.isText).Takes v :=
  ⟨h.ne_nil, h.isText hlead⟩

/-- A separator is in the lead, or there is none in the secret. -/
theorem Secret.separated (h : Secret i v) (hlead : IsLead i lead)
    (hd : lead <:+ d) :
    (∃ c ∈ d, isSeparator c) ∨ ∀ c ∈ v, ¬ isSeparator c := by
  rcases (leadFacts hlead).marked with ⟨c, hc, hsep⟩ | rfl
  · exact Or.inl ⟨c, hd.subset hc, hsep⟩
  · exact Or.inr fun c hc => not_isSeparator_of_isTokenChar (h.taken c hc)

/-- No pattern up to the one of the lead ends its separator in the secret. -/
theorem closed_stage (hlead : IsLead i lead) (hd : lead <:+ d) (hv : Secret i v)
    (hij : j ≤ i) (hj4 : j ≠ 4) : Closed (pattern j).dropLast d v := by
  have htext := hv.isText hlead
  have hsep := hv.separated hlead hd
  have hj : j < 9 := Nat.lt_of_le_of_lt hij hlead.lt
  have hwords : ∀ w ∈ firstWords (pattern j), plain w :=
    fun _ hw => (keywords_plain hj hj4 hw).2
  interval_cases j
  · exact closed_assignment hwords htext hsep
  · exact closed_assignment hwords htext hsep
  · exact closed_assignment hwords htext hsep
  · exact closed_assignment hwords htext hsep
  · exact absurd rfl hj4
  · exact closed_spaces (authorization.take 5) htext
  · exact closed_spaces [keyword ["bearer"]] htext
  · obtain ⟨a, y, z, hends, hz, -⟩ := exists_ends_behind hlead hd
    refine closed_connection (a := a ++ [y]) (by rw [hends]; simp) hz fun k hk => ?_
    obtain ⟨hcolon, hslash⟩ := (leadFacts hlead).blocked hij k hk
    exact ⟨fun heq => hcolon (heq ▸ hd), fun heq => hslash (heq ▸ hd)⟩
  · exact closed_assignment hwords htext hsep

/-- The run of a bearer token ends before the secret, behind any lead but its own. -/
theorem exists_not_tokenChar {r : List Char} (hlead : IsLead i lead) (hi6 : i ≠ 6)
    (hd : lead <:+ d) (hr : r ∈ rests bearer.dropLast d) : ∃ c ∈ r, ¬ isTokenChar c := by
  obtain ⟨k, s, hk, -, hs, heq⟩ := exists_of_mem_bearer hr
  obtain ⟨c, hc, hsep⟩ := (leadFacts hlead).marked.resolve_right hi6
  have hne : r ≠ [] := by
    rintro rfl
    have hcd : c ∈ d := hd.subset hc
    rw [← heq, List.append_nil] at hcd
    rcases List.mem_append.mp hcd with hmem | hmem
    · exact not_mem_word (by decide) (List.mem_singleton.mpr hk)
        (isMark_of_isSeparator hsep) hmem
    · exact not_mem_spaces hs hsep hmem
  obtain ⟨c', hc', hmark⟩ := exists_mark_mem hlead hd (suffix_of_mem_rests hr) hne
  exact ⟨c', hc', not_isTokenChar_of_isMark hmark⟩

/-- What a pattern up to the one of the lead matches does not depend on the secret. -/
theorem alike_stage (hlead : IsLead i lead) (hd : lead <:+ d) (hv : Secret i v)
    (hw : Secret i w) (hij : j ≤ i) :
    Alike d v w (matchRest (pattern j) (d ++ v)) (matchRest (pattern j) (d ++ w)) := by
  have hj : j < 9 := Nat.lt_of_le_of_lt hij hlead.lt
  by_cases hj4 : j = 4
  · subst hj4
    obtain ⟨a, y, z, hends, hz, hy⟩ := exists_ends_behind hlead hd
    exact (closed_block hends hz hy (hv.isText hlead)).alike
      (closed_block hends hz hy (hw.isText hlead))
  · rw [pattern_eq hj hj4]
    refine (closed_stage hlead hd hv hij hj4).alike_many1
      (closed_stage hlead hd hw hij hj4) fun r hr => ?_
    by_cases hj6 : j = 6
    · subst hj6
      by_cases hi6 : i = 6
      · subst hi6
        exact Or.inr ⟨⟨hv.ne_nil, hv.taken⟩, ⟨hw.ne_nil, hw.taken⟩⟩
      · exact Or.inl (exists_not_tokenChar hlead hi6 hd hr)
    · rw [secretChar_eq hj hj4 hj6]
      exact Or.inr ⟨hv.takes hlead, hw.takes hlead⟩

end Secrets

section Own

variable {lead v w d s : List Char} {ws : List String} {i j : Nat}

/-- A keyword of another pattern is not found in a lead. -/
theorem matchRest_keyword_eq_none {pieces : List (Piece Char)} (hlead : IsLead i lead)
    (hwords : ∀ w ∈ ws.map String.toList,
      w ≠ [] ∧ plain w ∧ ∀ w' ∈ wordsOf (pattern i), ¬ w <:+: w')
    (hs : s <:+ lead) (hne : s ≠ []) (v : List Char) :
    matchRest (keyword ws :: pieces) (s ++ v) = none := by
  refine matchRest_words_eq_none fun taken hbegins hmem => ?_
  obtain ⟨hnil, hplain, hnot⟩ := hwords _ hmem
  by_cases hlen : taken.length ≤ s.length
  · have hin : taken <:+: lead :=
      (List.prefix_of_prefix_length_le hbegins (List.prefix_append s v) hlen).isInfix.trans
        hs.isInfix
    obtain ⟨word, hword, hin'⟩ :=
      (leadFacts hlead).built.exists_infix hnil hplain (hin.map foldCase)
    exact hnot word hword hin'
  · obtain ⟨c, hc, hmark⟩ := exists_mark_mem hlead List.suffix_rfl hs hne
    have hbegins' : s <+: taken :=
      List.prefix_of_prefix_length_le (List.prefix_append s v) hbegins (by omega)
    exact not_mem_word (fun w hw => (hwords w hw).2.1) hmem hmark (hbegins'.subset hc)

/-- The block of a private key begins with dashes, and no lead has any. -/
theorem matchRest_block_eq_none (hlead : IsLead i lead) (hs : s <:+ lead) (hne : s ≠ [])
    (v : List Char) : matchRest privateKeyBlock (s ++ v) = none := by
  refine matchRest_words_eq_none fun taken hbegins hmem => ?_
  have hnot : ∀ w ∈ wordsOf (pattern i), '-' ∉ w := by
    have hi := hlead.lt
    have hi4 := hlead.2.1
    interval_cases i
    all_goals first
      | decide
      | exact absurd rfl hi4
  rw [List.map_id] at hmem
  obtain rfl := List.mem_singleton.mp hmem
  cases s with
  | nil =>
      exact hne rfl
  | cons c s =>
      have hdash : c = '-' := by
        have hbegin : "-----BEGIN ".toList = '-' :: "----BEGIN ".toList := by
          decide
        rw [hbegin, List.cons_append] at hbegins
        exact (List.cons_prefix_cons.mp hbegins).1.symm
      have hmem' : '-' ∈ lead := hs.subset (by rw [hdash]; exact List.mem_cons_self)
      rcases (leadFacts hlead).built.mem hmem' with hmark | ⟨w, hw, hfold⟩
      · exact absurd hmark (by decide)
      · exact hnot w hw hfold

/-- No word that one pattern begins with is found in a word of the other.  The code points
are compared, which takes less time than the characters. -/
def Apart (p later : List (Piece Char)) : Prop :=
  ∀ w ∈ firstWords p, ∀ w' ∈ wordsOf later, ¬ w.map Char.toNat <:+: w'.map Char.toNat

instance (p later : List (Piece Char)) : Decidable (Apart p later) :=
  inferInstanceAs (Decidable (∀ w ∈ firstWords p, ∀ w' ∈ wordsOf later,
    ¬ w.map Char.toNat <:+: w'.map Char.toNat))

theorem patterns_apart : ∀ i < 9, ∀ j < i, j ≠ 4 → Apart (pattern j) (pattern i) := by
  decide +kernel

theorem matchRest_eq_none (hlead : IsLead i lead) (hij : j < i) (hs : s <:+ lead)
    (hne : s ≠ []) (v : List Char) : matchRest (pattern j) (s ++ v) = none := by
  have hi := hlead.lt
  have hwords : j ≠ 4 → ∀ w ∈ firstWords (pattern j),
      w ≠ [] ∧ plain w ∧ ∀ w' ∈ wordsOf (pattern i), ¬ w <:+: w' := by
    intro hj4 w hw
    obtain ⟨hne, hplain⟩ := keywords_plain (Nat.lt_trans hij hi) hj4 hw
    exact ⟨hne, hplain, fun w' hw' hin =>
      patterns_apart i hi j hij hj4 w hw w' hw' (hin.map Char.toNat)⟩
  have hj : j < 8 := by omega
  interval_cases j
  · exact matchRest_keyword_eq_none hlead (hwords (by decide)) hs hne v
  · exact matchRest_keyword_eq_none hlead (hwords (by decide)) hs hne v
  · exact matchRest_keyword_eq_none hlead (hwords (by decide)) hs hne v
  · exact matchRest_keyword_eq_none hlead (hwords (by decide)) hs hne v
  · exact matchRest_block_eq_none hlead hs hne v
  · exact matchRest_keyword_eq_none hlead (hwords (by decide)) hs hne v
  · exact matchRest_keyword_eq_none hlead (hwords (by decide)) hs hne v
  · exact matchRest_keyword_eq_none hlead (hwords (by decide)) hs hne v

/-- The match at the lead takes the secret. -/
theorem matchRest_lead (hlead : IsLead i lead) (hv : Secret i v) :
    matchRest (pattern i) (lead ++ v) = some [] := by
  have hi := hlead.lt
  obtain ⟨-, hi4, hfull⟩ := id hlead
  rw [pattern_eq hi hi4]
  refine (closed_stage hlead List.suffix_rfl hv (Nat.le_refl i) hi4).matchRest_eq_nil
    ⟨hv.ne_nil, hv.taken⟩ hfull fun r hr => ?_
  have hspaces := (leadFacts hlead).tight r hr
  cases r with
  | nil =>
      rfl
  | cons c r =>
      refine if_neg fun htaken => ?_
      have hspace := hspaces c List.mem_cons_self
      by_cases hi6 : i = 6
      · subst hi6
        exact not_isTokenChar_of_isMark (isMark_of_isSpace hspace) htaken
      · rw [secretChar_eq hi hi4 hi6] at htaken
        exact false_of_isText htaken hspace

end Own

section Redact

/-- Where a match can be cut, in the order in which it is searched. -/
def cuts : List (List Char) :=
  ["-----BEGIN", "://", ":", "="].map String.toList

/-- The first of the cuts that is found in a match is found in front of the secret, or
none is. -/
def CutsBefore (d v : List Char) : List (List Char) → Prop
  | [] => True
  | p :: later => p <:+: d ∨ ¬ p <:+: d ++ v ∧ CutsBefore d v later

instance decidableCutsBefore (d v : List Char) :
    (later : List (List Char)) → Decidable (CutsBefore d v later)
  | [] => .isTrue trivial
  | p :: later =>
      have := decidableCutsBefore d v later
      inferInstanceAs (Decidable (p <:+: d ∨ ¬ p <:+: d ++ v ∧ CutsBefore d v later))

variable {v w d p : List Char} {later : List (List Char)}

/-- A cut is found at the same place in both matches, or in neither. -/
theorem find_congr (hv : CutsBefore d v (p :: later)) (hw : CutsBefore d w (p :: later)) :
    find p (d ++ v) = find p (d ++ w) ∧
      (∀ idx, find p (d ++ w) = some idx → idx + p.length ≤ d.length) ∧
      (find p (d ++ w) = none → CutsBefore d v later ∧ CutsBefore d w later) := by
  by_cases hd : p <:+: d
  · cases hfind : find p d with
    | none =>
        exact absurd hd (find_eq_none_iff.mp hfind)
    | some idx =>
        rw [find_append_of_eq_some hfind, find_append_of_eq_some hfind]
        refine ⟨rfl, fun idx' heq => ?_, fun hnone => by cases hnone⟩
        obtain rfl := Option.some.inj heq
        exact add_length_le_of_find hfind
  · obtain ⟨hv, hlaterv⟩ := hv.resolve_left hd
    obtain ⟨hw, hlaterw⟩ := hw.resolve_left hd
    rw [find_eq_none_iff.mpr hv, find_eq_none_iff.mpr hw]
    exact ⟨rfl, fun idx heq => (by cases heq), fun _ => ⟨hlaterv, hlaterw⟩⟩

theorem take_congr {n : Nat} (h : n ≤ d.length) : (d ++ v).take n = (d ++ w).take n := by
  rw [List.take_append_of_le_length h, List.take_append_of_le_length h]

/-- What replaces a match that is cut in front of the secret does not depend on it. -/
theorem redact_congr (hv : CutsBefore d v cuts) (hw : CutsBefore d w cuts) :
    redact (d ++ v) = redact (d ++ w) := by
  obtain ⟨hbegin, -, hlater⟩ := find_congr hv hw
  rw [redact, redact, hbegin]
  cases hfind : find "-----BEGIN".toList (d ++ w) with
  | some idx =>
      rfl
  | none =>
      obtain ⟨hv, hw⟩ := hlater hfind
      obtain ⟨hscheme, hle, hlater⟩ := find_congr hv hw
      simp only
      rw [hscheme]
      cases hfind : find "://".toList (d ++ w) with
      | some idx =>
          have hidx := hle idx hfind
          simp only
          rw [take_congr (w := w) (by omega)]
      | none =>
          obtain ⟨hv, hw⟩ := hlater hfind
          obtain ⟨hcolon, hle, hlater⟩ := find_congr hv hw
          simp only
          rw [hcolon]
          cases hfind : find ":".toList (d ++ w) with
          | some idx =>
              have hidx : idx + 1 ≤ d.length := hle idx hfind
              simp only
              rw [take_congr (w := w) hidx]
          | none =>
              obtain ⟨hv, hw⟩ := hlater hfind
              obtain ⟨hequality, hle, -⟩ := find_congr hv hw
              simp only
              rw [hequality]
              cases hfind : find "=".toList (d ++ w) with
              | some idx =>
                  have hidx : idx + 1 ≤ d.length := hle idx hfind
                  simp only
                  rw [take_congr (w := w) hidx]
              | none =>
                  rfl

end Redact

section Runs

/-- Stands for any secret. -/
def sample : List Char :=
  ['x']

/-- Each of the patterns up to that of the keyword finds a secret, its matches that begin
in front of the keyword end there or take the secret too, and the match that takes the
secret is cut in front of it. -/
def Hides (i : Nat) (lead : List Char) :
    List (List (Piece Char)) → List Char → List Char → Prop
  | [], before, v =>
      Secret i v ∧
        (edge (matchRest (pattern i)) redact lead sample before).Holds
          (fun _ => CutsBefore lead v cuts) (CutsBefore · v cuts)
  | p :: earlier, before, v =>
      Secret i v ∧
        (edge (matchRest p) redact lead sample before).Holds
          (fun front => Hides i lead earlier front (replaceMatches p v)) (CutsBefore · v cuts)

instance decidableHides (i : Nat) (lead : List Char) :
    (earlier : List (List (Piece Char))) → (before v : List Char) →
      Decidable (Hides i lead earlier before v)
  | [], _, _ => inferInstanceAs (Decidable (_ ∧ _))
  | p :: earlier, _, v =>
      have := fun front => decidableHides i lead earlier front (replaceMatches p v)
      inferInstanceAs (Decidable (_ ∧ _))

variable {lead before v w : List Char} {i j : Nat}

theorem secret_sample (hlead : IsLead i lead) : Secret i sample where
  ne_nil := by decide
  taken := by
    intro c hc
    obtain rfl := List.mem_singleton.mp hc
    have hi := hlead.lt
    have hi4 := hlead.2.1
    interval_cases i
    all_goals first
      | decide
      | exact absurd rfl hi4

theorem uniform_stage (hlead : IsLead i lead) (hij : j ≤ i) :
    Uniform (matchRest (pattern j)) lead (Secret i) sample where
  length_lt := by
    intro text rest h
    have hj : j < 9 := Nat.lt_of_le_of_lt hij hlead.lt
    have hne : [] ∉ firstWords (pattern j) := fun hmem => (words_plain j hj [] hmem).1 rfl
    interval_cases j
    all_goals exact length_lt_of_matchRest_words hne h
  ne_nil := fun _ hv => hv.ne_nil
  sample := secret_sample hlead
  alike := fun _ _ _ hd hv hw => alike_stage hlead hd hv hw hij

/-- A pattern before that of the lead leaves the lead and replaces in the secret. -/
theorem replaceMatches_of_before (hlead : IsLead i lead) (hij : j < i)
    (hv : Secret i v) {front : List Char}
    (hedge : edge (matchRest (pattern j)) redact lead sample before = .before front) :
    replaceMatches (pattern j) (before ++ lead ++ v) =
      front ++ lead ++ replaceMatches (pattern j) v := by
  have hfront := (uniform_stage hlead (Nat.le_of_lt hij)).replaceAll_of_before hedge hv
  have hnone := @Lib.Replace.replaceAll_append _ _ redact lead v
    fun s hs hne => matchRest_eq_none hlead hij hs hne v
  rw [replaceMatches, hfront, hnone, List.append_assoc]
  rfl

theorem replaceMatches_of_behind (hlead : IsLead i lead) (hij : j ≤ i)
    (hv : Secret i v) (hw : Secret i w) {start : List Char}
    (hedge : edge (matchRest (pattern j)) redact lead sample before = .behind start)
    (hcutv : CutsBefore start v cuts) (hcutw : CutsBefore start w cuts) :
    replaceMatches (pattern j) (before ++ lead ++ v) =
      replaceMatches (pattern j) (before ++ lead ++ w) :=
  (uniform_stage hlead hij).replaceAll_of_behind hedge (redact_congr hcutv hcutw) hv hw

/-- The pattern of the keyword hides the secret. -/
theorem replaceMatches_lead (hlead : IsLead i lead) (hv : Hides i lead [] before v)
    (hw : Hides i lead [] before w) :
    replaceMatches (pattern i) (before ++ lead ++ v) =
      replaceMatches (pattern i) (before ++ lead ++ w) := by
  obtain ⟨hv, hedgev⟩ := hv
  obtain ⟨hw, hedgew⟩ := hw
  cases hedge : edge (matchRest (pattern i)) redact lead sample before with
  | inside =>
      rw [hedge] at hedgev
      exact hedgev.elim
  | behind start =>
      rw [hedge] at hedgev hedgew
      exact replaceMatches_of_behind hlead (Nat.le_refl i) hv hw hedge hedgev hedgew
  | before front =>
      rw [hedge] at hedgev hedgew
      have hstep : ∀ u, Secret i u →
          replaceMatches (pattern i) (before ++ lead ++ u) = front ++ redact (lead ++ u) := by
        intro u hu
        have hne : lead ++ u ≠ [] :=
          fun hnil => hu.ne_nil (List.append_eq_nil_iff.mp hnil).2
        rw [replaceMatches,
          (uniform_stage hlead (Nat.le_refl i)).replaceAll_of_before hedge hu,
          replaceAll_whole hne (matchRest_lead hlead hu)]
      rw [hstep v hv, hstep w hw, redact_congr hedgev hedgew]

/-- The induction is on the patterns before that of the keyword. -/
theorem foldl_congr (hlead : IsLead i lead) {earlier : List (List (Piece Char))}
    (hearlier : ∀ p ∈ earlier, ∃ j < i, p = pattern j)
    (hv : Hides i lead earlier before v) (hw : Hides i lead earlier before w) :
    (earlier ++ [pattern i]).foldl (fun result p => replaceMatches p result)
        (before ++ lead ++ v) =
      (earlier ++ [pattern i]).foldl (fun result p => replaceMatches p result)
        (before ++ lead ++ w) := by
  induction earlier generalizing before v w with
  | nil =>
      exact replaceMatches_lead hlead hv hw
  | cons p earlier ih =>
      obtain ⟨⟨j, hij, rfl⟩, hrest⟩ := List.forall_mem_cons.mp hearlier
      obtain ⟨hv, hedgev⟩ := hv
      obtain ⟨hw, hedgew⟩ := hw
      rw [List.cons_append, List.foldl_cons, List.foldl_cons]
      cases hedge : edge (matchRest (pattern j)) redact lead sample before with
      | inside =>
          rw [hedge] at hedgev
          exact hedgev.elim
      | behind start =>
          rw [hedge] at hedgev hedgew
          rw [replaceMatches_of_behind hlead (Nat.le_of_lt hij) hv hw hedge hedgev hedgew]
      | before front =>
          rw [hedge] at hedgev hedgew
          rw [replaceMatches_of_before hlead hij hv hedge,
            replaceMatches_of_before hlead hij hw hedge]
          exact ih hrest hedgev hedgew

theorem exists_pattern_of_mem_take {p : List (Piece Char)} (hp : p ∈ patterns.take i) :
    ∃ j < i, p = pattern j := by
  obtain ⟨j, hj, rfl⟩ := List.mem_take_iff_getElem.mp hp
  have hlen := (Nat.lt_min.mp hj).2
  exact ⟨j, (Nat.lt_min.mp hj).1, (List.getD_eq_getElem patterns [] hlen).symm⟩

/-- The redacted text does not depend on the secret. -/
theorem sanitizeString_hides (i : Nat) (before lead v w : List Char)
    (hlead : IsLead i lead) (hv : Hides i lead (patterns.take i) before v)
    (hw : Hides i lead (patterns.take i) before w) :
    sanitizeString (before ++ lead ++ v) = sanitizeString (before ++ lead ++ w) := by
  have htake : patterns.take (i + 1) = patterns.take i ++ [pattern i] := by
    have hi := hlead.lt
    interval_cases i
    all_goals rfl
  have hrun := foldl_congr hlead (fun _ hp => exists_pattern_of_mem_take hp) hv hw
  rw [← htake] at hrun
  rw [sanitizeString, sanitizeString, ← List.take_append_drop (i + 1) patterns,
    List.foldl_append, List.foldl_append, hrun]

/-- A secret in which a pattern before that of the keyword replaces another. -/
theorem sanitizeString_hides_nested :
    sanitizeString ("login ".toList ++ "token = ".toList ++ "password=abc".toList) =
      sanitizeString ("login ".toList ++ "token = ".toList ++ "t0k3n".toList) :=
  sanitizeString_hides 1 _ _ _ _ ⟨by decide, by decide, by decide +kernel⟩
    (by decide +kernel) (by decide +kernel)

/-- With a colon in the secret, the match is cut there. -/
theorem sanitizeString_not_hides :
    ¬ ∀ (i : Nat) (before lead v w : List Char), IsLead i lead →
        v ≠ [] → (∀ c ∈ v, isText c) → w ≠ [] → (∀ c ∈ w, isText c) →
          sanitizeString (before ++ lead ++ v) = sanitizeString (before ++ lead ++ w) := by
  intro h
  have hsame := h 0 [] "password=".toList "abc:def".toList "x".toList
    ⟨by decide, by decide, by decide +kernel⟩
    (by decide) (List.all_eq_true.mp (by decide)) (by decide)
    (List.all_eq_true.mp (by decide))
  exact absurd hsame (by decide +kernel)

end Runs

section BareLeads

/-- Each of the patterns finds a secret and, with the keyword, would be cut in front of
it. -/
def StaysCut (i : Nat) (lead : List Char) : List (List (Piece Char)) → List Char → Prop
  | [], v => Secret i v ∧ CutsBefore lead v cuts
  | p :: earlier, v =>
      Secret i v ∧ CutsBefore lead v cuts ∧ StaysCut i lead earlier (replaceMatches p v)

variable {lead v d p : List Char} {ws : List String} {i : Nat}

/-- A cut that lies across the end of the lead has marks or is short, and then it begins
in the lead. -/
theorem not_infix_of_lead (hlead : IsLead i lead) (hd : lead <:+ d)
    (hp : plain p ∨ p.length ≤ 3) (hnot : ¬ p <:+: lead ++ v) (hd' : ¬ p <:+: d) :
    ¬ p <:+: d ++ v := by
  intro hin
  rcases List.infix_append_iff_ne_nil.mp hin with hin | hin | ⟨x, y, hx, hy, rfl, hxd, hyv⟩
  · exact hd' hin
  · exact hnot (hin.trans (List.suffix_append lead v).isInfix)
  · rcases hp with hplain | hlen
    · obtain ⟨c, hc, hmark⟩ := exists_mark_mem hlead hd hxd hx
      rw [plain_iff.mp hplain c (List.mem_append_left y hc)] at hmark
      cases hmark
    · have hle : x.length ≤ lead.length := by
        obtain ⟨a, y', z, hends, -, -⟩ := (leadFacts hlead).ends
        have hpos := List.length_pos_of_ne_nil hy
        rw [hends]
        simp only [List.length_append, List.length_cons, List.length_nil] at hlen ⊢
        omega
      have hxlead := List.suffix_of_suffix_length_le hxd hd hle
      exact hnot (List.infix_append_iff.mpr (Or.inr (Or.inr ⟨x, y, rfl, hxlead, hyv⟩)))

theorem CutsBefore.of_lead (hlead : IsLead i lead) (hd : lead <:+ d)
    (h : CutsBefore lead v cuts) : CutsBefore d v cuts := by
  have hcuts : ∀ p ∈ cuts, plain p ∨ p.length ≤ 3 := by
    decide
  generalize cuts = later at h hcuts
  induction later with
  | nil =>
      trivial
  | cons p later ih =>
      obtain ⟨hp, hlater⟩ := List.forall_mem_cons.mp hcuts
      by_cases hin : p <:+: d
      · exact Or.inl hin
      · obtain ⟨hnot, hrest⟩ := h.resolve_left fun hin' => hin (hin'.trans hd.isInfix)
        exact Or.inr ⟨not_infix_of_lead hlead hd hp hnot hin, ih hrest hlater⟩

/-- If a lead has no white space, no match of an assignment ends in it. -/
theorem holds_bare (hbare : ∀ c ∈ lead, isText c) (ws : List String)
    (before : List Char) :
    (edge (matchRest (assignment ws)) redact lead sample before).Holds
      (fun _ => True) (lead <:+ ·) := by
  refine holds_edge (fun text rest hd hfound => ?_) before
  have hfound' : matchRest ((assignment ws).dropLast ++ [.many1 isText])
      (text ++ sample) = some rest := hfound
  rcases matchRest_many1_stops hfound' with hnil | ⟨c, rest', hrest, hspace⟩
  · exact Or.inl hnil
  · refine Or.inr (Nat.le_of_not_lt fun hlt => hspace ?_)
    have hsuffix : rest <:+ lead ++ sample := by
      refine List.suffix_of_suffix_length_le (suffix_of_matchRest hfound) ?_ ?_
      · obtain ⟨e, rfl⟩ := hd
        rw [List.append_assoc]
        exact List.suffix_append e _
      · rw [List.length_append]
        omega
    have hmem : c ∈ lead ++ sample := hsuffix.subset (by rw [hrest]; exact List.mem_cons_self)
    rcases List.mem_append.mp hmem with hc | hc
    · exact hbare c hc
    · rw [List.mem_singleton.mp hc]
      decide

theorem hides_of_assignments (hlead : IsLead i lead) (hbare : ∀ c ∈ lead, isText c)
    (hown : ∃ ws, pattern i = assignment ws) {earlier : List (List (Piece Char))}
    (hearlier : ∀ p ∈ earlier, ∃ ws, p = assignment ws) (h : StaysCut i lead earlier v)
    (before : List Char) : Hides i lead earlier before v := by
  induction earlier generalizing before v with
  | nil =>
      obtain ⟨ws, hws⟩ := hown
      obtain ⟨hv, hcut⟩ := h
      refine ⟨hv, ?_⟩
      rw [hws]
      exact (holds_bare hbare ws before).imp (fun _ _ => hcut)
        fun _ hd => hcut.of_lead hlead hd
  | cons p earlier ih =>
      obtain ⟨⟨ws, rfl⟩, hrest⟩ := List.forall_mem_cons.mp hearlier
      obtain ⟨hv, hcut, hstays⟩ := h
      exact ⟨hv, (holds_bare hbare ws before).imp (fun front _ => ih hrest hstays front)
        fun _ hd => hcut.of_lead hlead hd⟩

/-- For the first four patterns and a keyword that is followed by the separator alone, the
text in front does not matter. -/
theorem hides_bare (hlead : IsLead i lead) (hi : i < 4) (hbare : ∀ c ∈ lead, isText c)
    (h : StaysCut i lead (patterns.take i) v) (before : List Char) :
    Hides i lead (patterns.take i) before v := by
  have hassignment : ∀ j < 4, ∃ ws, pattern j = assignment ws := by
    intro j hj
    interval_cases j
    all_goals exact ⟨_, rfl⟩
  refine hides_of_assignments hlead hbare (hassignment i hi) (fun p hp => ?_) h before
  obtain ⟨j, hj, rfl⟩ := exists_pattern_of_mem_take hp
  exact hassignment j (Nat.lt_trans hj hi)

end BareLeads

end Sanitizer
end Control
end HyperBackup
