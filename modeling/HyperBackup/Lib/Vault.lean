import HyperBackup.Lib.Ledger

/-!
# Vaults

Owners deposit contents for items, and a ledger says which items they refer to.
What is deposited for an item first stays, later deposits only refer to it.  A
sweep takes the contents of the items without references away; these never come
back, whatever is deposited afterwards.
-/

namespace Lib

universe u v w

/-- The contents of an item are `none` before its first deposit, and `some none`
once a sweep has taken them away. -/
structure Vault (ι : Type u) (α : Type v) (β : Type w) where
  books : Ledger ι α
  contents : α → Option (Option β)

namespace Vault

variable {ι : Type u} {α : Type v} {β : Type w}

inductive Event (ι : Type u) (α : Type v) (β : Type w)
  | deposit (owner : ι) (items : List (α × β))
  | release (owner : ι)
  | sweep

/-- Whose references the event changes. -/
def Event.owner : Event ι α β → Option ι
  | .deposit owner _ => some owner
  | .release owner => some owner
  | .sweep => none

def empty : Vault ι α β :=
  ⟨∅, fun _ => none⟩

section Runs

variable [DecidableEq ι] [DecidableEq α]

/-- The first contents that a list has for an item. -/
def offered (items : List (α × β)) (a : α) : Option β :=
  (items.find? fun item => item.1 = a).map Prod.snd

/-- The contents after a deposit. -/
def filled (contents : α → Option (Option β)) (items : List (α × β)) (a : α) :
    Option (Option β) :=
  (contents a).or ((offered items a).map some)

/-- The contents after a sweep. -/
def swept (books : Ledger ι α) (contents : α → Option (Option β)) (a : α) :
    Option (Option β) :=
  if books.occurrences a = 0 then (contents a).map fun _ => none else contents a

def step (vault : Vault ι α β) : Event ι α β → Vault ι α β
  | .deposit owner items =>
      ⟨vault.books.insert owner (items.map Prod.fst), filled vault.contents items⟩
  | .release owner => { vault with books := vault.books.erase owner }
  | .sweep => { vault with contents := swept vault.books vault.contents }

def run (vault : Vault ι α β) (events : List (Event ι α β)) : Vault ι α β :=
  events.foldl step vault

/-- The contents that an event brings for an item. -/
def Event.offers (a : α) : Event ι α β → Option β
  | .deposit _ items => offered items a
  | .release _ => none
  | .sweep => none

/-- The contents that some event brings first. -/
def firstOffer (events : List (Event ι α β)) (a : α) : Option β :=
  events.findSome? (Event.offers a)

/-- Somebody refers to the item at every sweep after its first deposit. -/
def Spared (events : List (Event ι α β)) (a : α) : Prop :=
  ∀ before after, events = before ++ .sweep :: after →
    (firstOffer before a).isSome → (run empty before).books.occurrences a ≠ 0

end Runs

section Contents

variable [DecidableEq α]

/-- A list is deposited item by item. -/
theorem filled_cons (contents : α → Option (Option β)) (item : α × β)
    (items : List (α × β)) :
    filled contents (item :: items) = filled (filled contents [item]) items := by
  funext a
  unfold filled offered
  by_cases ha : item.1 = a
  · simp [ha]
  · simp [ha]

@[simp] theorem filled_nil (contents : α → Option (Option β)) :
    filled contents [] = contents := by
  funext a
  simp [filled, offered]

theorem firstOffer_concat (events : List (Event ι α β)) (event : Event ι α β) (a : α) :
    firstOffer (events ++ [event]) a = (firstOffer events a).or (event.offers a) := by
  simp [firstOffer, List.findSome?_append]

variable [DecidableEq ι] {vault : Vault ι α β} {events : List (Event ι α β)}
variable {event : Event ι α β} {a : α} {b : β}

theorem run_concat (vault : Vault ι α β) (events : List (Event ι α β))
    (event : Event ι α β) :
    run vault (events ++ [event]) = step (run vault events) event :=
  List.foldl_concat ..

theorem spared_concat :
    Spared (events ++ [event]) a ↔ Spared events a ∧
      (event = .sweep → (firstOffer events a).isSome →
        (run empty events).books.occurrences a ≠ 0) := by
  constructor
  · intro hspared
    refine ⟨fun before after heq => ?_, fun hsweep => ?_⟩
    · exact hspared before (after ++ [event]) (by rw [heq]; simp)
    · exact hspared events [] (by rw [hsweep])
  · rintro ⟨hspared, hlast⟩ before after heq
    rcases List.eq_nil_or_concat after with hnil | ⟨init, last, hinit⟩
    · rw [hnil] at heq
      obtain ⟨hbefore, hevent⟩ := List.append_inj' heq rfl
      rw [← hbefore]
      exact hlast (List.singleton_inj.mp hevent)
    · rw [hinit, List.concat_eq_append, ← List.cons_append, ← List.append_assoc] at heq
      exact hspared before init (List.append_inj' heq rfl).1

/-- An item is known from its first deposit on. -/
theorem isSome_contents_run (events : List (Event ι α β)) (a : α) :
    ((run empty events).contents a).isSome = (firstOffer events a).isSome := by
  induction events using List.reverseRecOn with
  | nil => rfl
  | append_singleton events event ih =>
      rw [run_concat, firstOffer_concat]
      cases event with
      | deposit owner items =>
          simp [step, filled, Event.offers, ih]
      | release owner =>
          simp [step, Event.offers, ih]
      | sweep =>
          simp only [step, swept, Event.offers, Option.or_none, ← ih]
          split
          · rw [Option.isSome_map]
          · rfl

/-- The contents of an item are there exactly if no sweep has found it without
references, and they are those that were deposited first. -/
theorem contents_run_eq_some_iff :
    (run empty events).contents a = some (some b) ↔
      firstOffer events a = some b ∧ Spared events a := by
  induction events using List.reverseRecOn with
  | nil =>
      simp [run, empty, firstOffer]
  | append_singleton events event ih =>
      rw [run_concat, firstOffer_concat, spared_concat]
      have hknown := isSome_contents_run events a
      cases event with
      | deposit owner items =>
          simp only [step, filled, Event.offers, reduceCtorEq, false_implies, and_true]
          cases hoffer : firstOffer events a with
          | some b' =>
              rw [hoffer] at hknown ih
              rw [Option.or_of_isSome hknown, ih]
              simp
          | none =>
              rw [hoffer] at hknown
              have hnone : (run empty events).contents a = none := by
                simpa using hknown
              have hspared : Spared events a := by
                intro before after heq hsome
                rw [heq] at hoffer
                simp [firstOffer, List.findSome?_append] at hoffer hsome
                obtain ⟨e, he, hoffers⟩ := hsome
                rw [hoffer.1 e he] at hoffers
                cases hoffers
              simp [hnone, hspared]
      | release owner =>
          simpa [step, Event.offers] using ih
      | sweep =>
          simp only [step, swept, Event.offers, Option.or_none, true_implies]
          by_cases hidle : (run empty events).books.occurrences a = 0
          · rw [if_pos hidle]
            refine ⟨fun h => ?_, fun h => ?_⟩
            · simp at h
            · exact absurd hidle (h.2.2 (by rw [h.1]; rfl))
          · rw [if_neg hidle, ih]
            simp [hidle]

/-- The contents of an item change neither in deposits nor in sweeps while an owner
refers to it. -/
theorem contents_step_of_mem {owner : ι} {items : List α}
    (howner : vault.books.lookup owner = some items) (ha : a ∈ items)
    (hknown : (vault.contents a).isSome) :
    (vault.step event).contents a = vault.contents a := by
  cases event with
  | deposit owner' items' =>
      exact Option.or_of_isSome hknown
  | release owner' => rfl
  | sweep =>
      refine if_neg fun hidle => ?_
      have hle := Ledger.count_le_occurrences howner a
      have hpos := List.count_pos_iff.mpr ha
      omega

theorem lookup_books_step_of_ne {owner : ι} (hevent : event.owner ≠ some owner) :
    (vault.step event).books.lookup owner = vault.books.lookup owner := by
  cases event with
  | deposit owner' items =>
      refine (HashMap.lookup_insert_of _ _ _ _).trans (if_neg fun heq => ?_)
      exact hevent (congrArg some heq.symm)
  | release owner' =>
      refine (HashMap.lookup_erase_of _ _ _).trans (if_neg fun heq => ?_)
      exact hevent (congrArg some heq.symm)
  | sweep => rfl

/-- Neither do they in a run that leaves the owner alone. -/
theorem contents_run_of_mem {owner : ι} {items : List α} (ha : a ∈ items)
    (hevents : ∀ event ∈ events, event.owner ≠ some owner) :
    ∀ {vault : Vault ι α β}, vault.books.lookup owner = some items →
      (vault.contents a).isSome → (run vault events).contents a = vault.contents a := by
  induction events with
  | nil => exact fun _ _ => rfl
  | cons event events ih =>
      intro vault howner hknown
      have hsame : (vault.step event).contents a = vault.contents a :=
        contents_step_of_mem howner ha hknown
      have hbooks : (vault.step event).books.lookup owner = some items :=
        (lookup_books_step_of_ne (hevents event (by simp))).trans howner
      have hrest := ih (fun event' hmem => hevents event' (by simp [hmem])) hbooks
        (hsame ▸ hknown)
      exact hrest.trans hsame

end Contents

end Vault

end Lib
