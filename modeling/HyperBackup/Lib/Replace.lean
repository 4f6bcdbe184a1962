import Mathlib.Data.List.Infix

/-!
# Replacing the matches in a text

A search says for a text whether a match begins at its start and what is behind it.
The matches are taken from left to right, each behind the one before, and each is
replaced by what a function makes of it.

The second part is about a text that ends in a lead and a tail, such as a keyword and
its value.  If the matches that begin before the tail do not depend on the tail, the
front text alone says whether they end before the lead, in it, or go on to the end.
-/

namespace Lib
namespace Replace

variable {α : Type}

section Scan

variable (find : List α → Option (List α)) (f : List α → List α)

/-- The first elements belong to a match that has been replaced.  No match is empty. -/
def replaceFrom : Nat → List α → List α
  | _, [] => []
  | skip + 1, _ :: text => replaceFrom skip text
  | 0, c :: text =>
      match find (c :: text) with
      | none => c :: replaceFrom 0 text
      | some rest =>
          f ((c :: text).take (text.length + 1 - rest.length)) ++
            replaceFrom (text.length - rest.length) text

def replaceAll (text : List α) : List α :=
  replaceFrom find f 0 text

variable {find f}

theorem replaceFrom_append (taken text : List α) :
    replaceFrom find f taken.length (taken ++ text) = replaceAll find f text := by
  induction taken with
  | nil =>
      rfl
  | cons c taken ih =>
      exact ih

@[simp] theorem replaceAll_nil : replaceAll find f [] = [] :=
  rfl

theorem replaceAll_cons {c : α} {text : List α} (h : find (c :: text) = none) :
    replaceAll find f (c :: text) = c :: replaceAll find f text := by
  simp only [replaceAll, replaceFrom, h]

theorem replaceAll_match {taken rest : List α} (hne : taken ≠ [])
    (h : find (taken ++ rest) = some rest) :
    replaceAll find f (taken ++ rest) = f taken ++ replaceAll find f rest := by
  cases taken with
  | nil =>
      exact absurd rfl hne
  | cons c taken =>
      have hlen : (taken ++ rest).length + 1 - rest.length = taken.length + 1 := by
        rw [List.length_append]
        omega
      have hskip : (taken ++ rest).length - rest.length = taken.length := by
        rw [List.length_append]
        omega
      rw [List.cons_append] at h ⊢
      rw [replaceAll, replaceFrom, h]
      simp only
      rw [hlen, hskip, replaceFrom_append, List.take_succ_cons, List.take_left']
      rfl

theorem replaceAll_whole {text : List α} (hne : text ≠ []) (h : find text = some []) :
    replaceAll find f text = f text := by
  have hmatch : find (text ++ []) = some [] := by
    rw [List.append_nil]
    exact h
  have hreplace := replaceAll_match (f := f) hne hmatch
  rwa [List.append_nil, replaceAll_nil, List.append_nil] at hreplace

/-- A text in which no match begins stays in front of what follows. -/
theorem replaceAll_append {text rest : List α}
    (h : ∀ s, s <:+ text → s ≠ [] → find (s ++ rest) = none) :
    replaceAll find f (text ++ rest) = text ++ replaceAll find f rest := by
  induction text with
  | nil =>
      rfl
  | cons c text ih =>
      have hnone := h (c :: text) List.suffix_rfl (List.cons_ne_nil c text)
      have hrest := ih fun s hs => h s (hs.trans (List.suffix_cons c text))
      rw [List.cons_append] at hnone ⊢
      rw [replaceAll_cons hnone, hrest, List.cons_append]

end Scan

section Tails

/-- Two searches in a text with one tail or another find the same: nothing, a match
that ends before the tail, or one that goes on to the end. -/
inductive Alike (text v w : List α) : Option (List α) → Option (List α) → Prop
  | absent : Alike text v w none none
  | within {rest : List α} :
      rest <:+ text → Alike text v w (some (rest ++ v)) (some (rest ++ w))
  | through : Alike text v w (some []) (some [])

section Alike

variable {text v w rest : List α} {found : Option (List α)}

theorem Alike.of_none (h : Alike text v w none found) : found = none := by
  cases h
  rfl

theorem Alike.of_within (hv : v ≠ []) (h : Alike text v w (some (rest ++ v)) found) :
    found = some (rest ++ w) := by
  generalize heq : some (rest ++ v) = o at h
  cases h with
  | absent =>
      cases heq
  | within hrest =>
      rw [List.append_cancel_right (Option.some.inj heq)]
  | through =>
      exact absurd (List.append_eq_nil_iff.mp (Option.some.inj heq)).2 hv

theorem Alike.of_through (hv : v ≠ []) (h : Alike text v w (some []) found) :
    found = some [] := by
  generalize heq : some [] = o at h
  cases h with
  | absent =>
      cases heq
  | within hrest =>
      exact absurd (List.append_eq_nil_iff.mp (Option.some.inj heq).symm).2 hv
  | through =>
      rfl

end Alike

/-- Where the last match ends that begins before a lead: before the lead, with what is
in front of the lead then; in the lead; or at the end of the text, with the part of the
match in front of the tail. -/
inductive Edge (α : Type)
  | before (front : List α)
  | inside
  | behind (start : List α)

namespace Edge

/-- More text in front. -/
def add (text : List α) : Edge α → Edge α
  | before front => before (text ++ front)
  | inside => inside
  | behind start => behind start

/-- No match ends in the lead, and the text in front of it or the start of the match has
a property. -/
def Holds (P Q : List α → Prop) : Edge α → Prop
  | before front => P front
  | inside => False
  | behind start => Q start

instance (P Q : List α → Prop) [DecidablePred P] [DecidablePred Q] (e : Edge α) :
    Decidable (e.Holds P Q) :=
  match e with
  | before front => inferInstanceAs (Decidable (P front))
  | inside => .isFalse id
  | behind start => inferInstanceAs (Decidable (Q start))

variable {e : Edge α} {text front start : List α}

theorem Holds.imp {P P' Q Q' : List α → Prop} (h : e.Holds P Q)
    (hP : ∀ text, P text → P' text) (hQ : ∀ text, Q text → Q' text) : e.Holds P' Q' := by
  cases e with
  | before front => exact hP front h
  | inside => exact h
  | behind start => exact hQ start h

theorem holds_add {Q : List α → Prop} (h : e.Holds (fun _ => True) Q) :
    (e.add text).Holds (fun _ => True) Q := by
  cases e with
  | before front => trivial
  | inside => exact h
  | behind start => exact h

theorem exists_of_add_eq_before (h : e.add text = before front) :
    ∃ front', e = before front' ∧ text ++ front' = front := by
  cases e with
  | before front' => exact ⟨front', rfl, (before.inj h)⟩
  | inside => cases h
  | behind start => cases h

theorem eq_behind_of_add (h : e.add text = behind start) : e = behind start := by
  cases e with
  | before front' => cases h
  | inside => cases h
  | behind start' => exact h

end Edge

variable (find : List α → Option (List α)) (f : List α → List α) (lead sample : List α)

/-- The text in front of the lead, replaced, if its matches end there.  The sample
stands for any tail. -/
def edgeFrom : Nat → List α → Edge α
  | _, [] => .before []
  | skip + 1, _ :: front => edgeFrom skip front
  | 0, c :: front =>
      match find (c :: front ++ lead ++ sample) with
      | none => (edgeFrom 0 front).add [c]
      | some [] => .behind (c :: front ++ lead)
      | some rest =>
          if lead.length + sample.length ≤ rest.length then
            (edgeFrom ((front ++ lead ++ sample).length - rest.length) front).add
              (f ((c :: front).take
                ((front ++ lead ++ sample).length + 1 - rest.length)))
          else
            .inside

def edge (front : List α) : Edge α :=
  edgeFrom find f lead sample 0 front

variable {find f lead sample}

theorem edgeFrom_append (taken front : List α) :
    edgeFrom find f lead sample taken.length (taken ++ front) =
      edge find f lead sample front := by
  induction taken with
  | nil =>
      rfl
  | cons c taken ih =>
      exact ih

theorem edge_cons {c : α} {front : List α}
    (h : find (c :: front ++ lead ++ sample) = none) :
    edge find f lead sample (c :: front) =
      (edge find f lead sample front).add [c] := by
  simp only [edge, edgeFrom, h]

theorem edge_behind {c : α} {front : List α}
    (h : find (c :: front ++ lead ++ sample) = some []) :
    edge find f lead sample (c :: front) = .behind (c :: front ++ lead) := by
  simp only [edge, edgeFrom, h]

theorem edge_match {taken front : List α} (hne : taken ≠ []) (hsample : sample ≠ [])
    (h : find (taken ++ front ++ lead ++ sample) = some (front ++ lead ++ sample)) :
    edge find f lead sample (taken ++ front) =
      (edge find f lead sample front).add (f taken) := by
  cases taken with
  | nil =>
      exact absurd rfl hne
  | cons c taken =>
      have hlong : lead.length + sample.length ≤ (front ++ lead ++ sample).length := by
        simp only [List.length_append]
        omega
      have hlen : (taken ++ front ++ lead ++ sample).length + 1 -
          (front ++ lead ++ sample).length = taken.length + 1 := by
        simp only [List.length_append]
        omega
      have hskip : (taken ++ front ++ lead ++ sample).length -
          (front ++ lead ++ sample).length = taken.length := by
        simp only [List.length_append]
        omega
      rw [List.cons_append] at h ⊢
      rw [edge, edgeFrom, h]
      split
      next heq =>
        cases heq
      next heq =>
        exact absurd (List.append_eq_nil_iff.mp (Option.some.inj heq)).2 hsample
      next rest _ heq =>
        obtain rfl := Option.some.inj heq
        rw [if_pos hlong, hlen, hskip, edgeFrom_append, List.take_succ_cons,
          List.take_left']
        rfl

theorem edge_inside {c : α} {front rest : List α} (hne : rest ≠ [])
    (hlt : rest.length < lead.length + sample.length)
    (h : find (c :: front ++ lead ++ sample) = some rest) :
    edge find f lead sample (c :: front) = .inside := by
  rw [edge, edgeFrom, h]
  split
  next heq =>
    cases heq
  next heq =>
    exact absurd (Option.some.inj heq) hne
  next rest' _ heq =>
    obtain rfl := Option.some.inj heq
    exact if_neg (Nat.not_le.mpr hlt)

/-- No match ends in the lead if the search never stops there. -/
theorem holds_edge (h : ∀ text rest, lead <:+ text → find (text ++ sample) = some rest →
      rest = [] ∨ lead.length + sample.length ≤ rest.length) (front : List α) :
    (edge find f lead sample front).Holds (fun _ => True) (lead <:+ ·) := by
  have hfrom : ∀ skip, (edgeFrom find f lead sample skip front).Holds (fun _ => True)
      (lead <:+ ·) := by
    induction front with
    | nil =>
        intro skip
        exact trivial
    | cons c front ih =>
        intro skip
        cases skip with
        | succ skip =>
            exact ih skip
        | zero =>
            have hsuffix : lead <:+ c :: front ++ lead := List.suffix_append _ lead
            rw [edgeFrom]
            split
            next =>
              exact Edge.holds_add (ih 0)
            next =>
              exact hsuffix
            next rest hne hfound =>
              rcases h _ rest hsuffix hfound with hnil | hle
              · exact absurd hnil hne
              · rw [if_pos hle]
                exact Edge.holds_add (ih _)
  exact hfrom 0

/-- Behind a lead the search finds the same for all tails of a kind. -/
structure Uniform (find : List α → Option (List α)) (lead : List α)
    (Tail : List α → Prop) (sample : List α) : Prop where
  length_lt : ∀ text rest, find text = some rest → rest.length < text.length
  ne_nil : ∀ v, Tail v → v ≠ []
  sample : Tail sample
  alike : ∀ text v w, lead <:+ text → Tail v → Tail w →
    Alike text v w (find (text ++ v)) (find (text ++ w))

variable {Tail : List α → Prop} {before front start v w : List α}

/-- What the sample shows of the match that begins first holds for every tail. -/
theorem Uniform.edge_cases (h : Uniform find lead Tail sample) (c : α)
    (front : List α) :
    ((∀ v, Tail v → find (c :: front ++ lead ++ v) = none) ∧
        edge find f lead sample (c :: front) =
          (edge find f lead sample front).add [c]) ∨
      (∃ taken rest, taken ≠ [] ∧ taken ++ rest = c :: front ∧
        (∀ v, Tail v → find (c :: front ++ lead ++ v) = some (rest ++ lead ++ v)) ∧
        edge find f lead sample (c :: front) =
          (edge find f lead sample rest).add (f taken)) ∨
      edge find f lead sample (c :: front) = .inside ∨
      ((∀ v, Tail v → find (c :: front ++ lead ++ v) = some []) ∧
        edge find f lead sample (c :: front) = .behind (c :: front ++ lead)) := by
  have hsuffix : lead <:+ c :: front ++ lead := List.suffix_append (c :: front) lead
  have hne := h.ne_nil sample h.sample
  have halike := fun v hv => h.alike (c :: front ++ lead) sample v hsuffix h.sample hv
  generalize hfound : find (c :: front ++ lead ++ sample) = found at halike
  have hself := halike sample h.sample
  rw [hfound] at hself
  cases hself with
  | absent =>
      exact Or.inl ⟨fun v hv => (halike v hv).of_none, edge_cons hfound⟩
  | @within rest hrest =>
      by_cases hlen : lead.length ≤ rest.length
      · obtain ⟨rest, rfl⟩ := List.suffix_of_suffix_length_le hsuffix hrest hlen
        obtain ⟨taken, htaken⟩ := hrest
        have hfront : taken ++ rest = c :: front := by
          rw [← List.append_assoc] at htaken
          exact List.append_cancel_right htaken
        have htakenNe : taken ≠ [] := by
          rintro rfl
          have hlt := h.length_lt _ _ hfound
          rw [← htaken] at hlt
          exact absurd hlt (Nat.lt_irrefl _)
        refine Or.inr (Or.inl ⟨taken, rest, htakenNe, hfront,
          fun v hv => (halike v hv).of_within hne, ?_⟩)
        rw [← hfront]
        rw [← hfront] at hfound
        exact edge_match htakenNe hne hfound
      · refine Or.inr (Or.inr (Or.inl (edge_inside ?_ ?_ hfound)))
        · exact fun hnil => hne (List.append_eq_nil_iff.mp hnil).2
        · rw [List.length_append]
          omega
  | through =>
      exact Or.inr (Or.inr (Or.inr
        ⟨fun v hv => (halike v hv).of_through hne, edge_behind hfound⟩))

/-- If the matches end before the lead, the front text is replaced for itself. -/
theorem Uniform.replaceAll_of_before (h : Uniform find lead Tail sample)
    (hedge : edge find f lead sample before = .before front) (hv : Tail v) :
    replaceAll find f (before ++ lead ++ v) =
      front ++ replaceAll find f (lead ++ v) := by
  induction hlen : before.length using Nat.strongRecOn generalizing before front with
  | ind n ih =>
      cases before with
      | nil =>
          cases hedge
          rfl
      | cons c before =>
          rcases h.edge_cases (f := f) c before with
            ⟨hnone, heq⟩ | ⟨taken, rest, hne, htaken, hmatch, heq⟩ | heq | ⟨-, heq⟩
          · rw [heq] at hedge
            obtain ⟨front, hfront, rfl⟩ := Edge.exists_of_add_eq_before hedge
            have hrest := ih before.length (by simp [← hlen]) hfront rfl
            have hstep : replaceAll find f (c :: (before ++ lead ++ v)) =
                c :: replaceAll find f (before ++ lead ++ v) :=
              replaceAll_cons (hnone v hv)
            rw [hrest] at hstep
            exact hstep
          · rw [heq] at hedge
            obtain ⟨front, hfront, rfl⟩ := Edge.exists_of_add_eq_before hedge
            have hlt : rest.length < n := by
              have hpos := List.length_pos_of_ne_nil hne
              rw [← hlen, ← htaken, List.length_append]
              omega
            have hrest := ih rest.length hlt hfront rfl
            have hfound := hmatch v hv
            rw [← htaken] at hfound ⊢
            simp only [List.append_assoc] at hfound hrest ⊢
            rw [replaceAll_match hne hfound, hrest]
          · rw [heq] at hedge
            cases hedge
          · rw [heq] at hedge
            cases hedge

/-- If a match goes on to the end, the texts are equal for two tails that do not change
what replaces it. -/
theorem Uniform.replaceAll_of_behind (h : Uniform find lead Tail sample)
    (hedge : edge find f lead sample before = .behind start)
    (hf : f (start ++ v) = f (start ++ w))
    (hv : Tail v) (hw : Tail w) :
    replaceAll find f (before ++ lead ++ v) =
      replaceAll find f (before ++ lead ++ w) := by
  induction hlen : before.length using Nat.strongRecOn generalizing before with
  | ind n ih =>
      cases before with
      | nil =>
          cases hedge
      | cons c before =>
          rcases h.edge_cases (f := f) c before with
            ⟨hnone, heq⟩ | ⟨taken, rest, hne, htaken, hmatch, heq⟩ | heq | ⟨hend, heq⟩
          · rw [heq] at hedge
            have hrest := ih before.length (by simp [← hlen])
              (Edge.eq_behind_of_add hedge) rfl
            have hstep : ∀ u, Tail u → replaceAll find f (c :: (before ++ lead ++ u)) =
                c :: replaceAll find f (before ++ lead ++ u) :=
              fun u hu => replaceAll_cons (hnone u hu)
            have hcons := congrArg (c :: ·) hrest
            rw [← hstep v hv, ← hstep w hw] at hcons
            exact hcons
          · rw [heq] at hedge
            have hlt : rest.length < n := by
              have hpos := List.length_pos_of_ne_nil hne
              rw [← hlen, ← htaken, List.length_append]
              omega
            have hrest := ih rest.length hlt (Edge.eq_behind_of_add hedge) rfl
            have hstep : ∀ u, Tail u → replaceAll find f (taken ++ rest ++ lead ++ u) =
                f taken ++ replaceAll find f (rest ++ lead ++ u) := by
              intro u hu
              have hfound := hmatch u hu
              rw [← htaken] at hfound
              simp only [List.append_assoc] at hfound ⊢
              exact replaceAll_match hne hfound
            rw [← htaken, hstep v hv, hstep w hw, hrest]
          · rw [heq] at hedge
            cases hedge
          · have hstep : ∀ u, Tail u → replaceAll find f (c :: before ++ lead ++ u) =
                f (c :: before ++ lead ++ u) :=
              fun u hu => replaceAll_whole (List.cons_ne_nil c _) (hend u hu)
            rw [heq] at hedge
            obtain rfl := Edge.behind.inj hedge
            rw [hstep v hv, hstep w hw]
            exact hf

end Tails

end Replace
end Lib
