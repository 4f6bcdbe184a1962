import Mathlib.Data.List.Basic

/-!
# What holds at every step of a run

A run takes the actions of a list one after another.  `Always` says that a
relation between a state and the action taken in it holds at every step.  Two
such relations that agree in the states of an invariant hold along the same
runs, if one of them keeps the invariant.
-/

namespace Lib
namespace Runs

universe u v

variable {σ : Type u} {α : Type v} (step : σ → α → σ)

/-- The relation holds at every step of the run. -/
def Always (P : σ → α → Prop) : σ → List α → Prop
  | _, [] => True
  | s, a :: actions => P s a ∧ Always P (step s a) actions

variable {step}
variable {P Q : σ → α → Prop} {s : σ} {a : α} {actions : List α}

@[simp] theorem always_nil :
    Always step P s [] := by
  trivial

@[simp] theorem always_cons :
    Always step P s (a :: actions) ↔
      P s a ∧ Always step P (step s a) actions :=
  Iff.rfl

theorem always_true : ∀ {s : σ} (actions : List α), Always step (fun _ _ => True) s actions
  | _, [] => trivial
  | _, _ :: actions => ⟨trivial, always_true actions⟩

/-- The relation holds wherever the run is split. -/
theorem always_iff_split :
    Always step P s actions ↔
      ∀ before a later, actions = before ++ a :: later →
        P (before.foldl step s) a := by
  induction actions generalizing s with
  | nil =>
      simp
  | cons a actions ih =>
      rw [always_cons, ih]
      constructor
      · rintro ⟨hfirst, hrest⟩ before b later heq
        cases before with
        | nil =>
            obtain ⟨rfl, -⟩ := List.cons.inj heq
            exact hfirst
        | cons c before =>
            obtain ⟨rfl, htail⟩ := List.cons.inj heq
            exact hrest before b later htail
      · intro h
        exact ⟨h [] a actions rfl,
          fun before b later heq => h (a :: before) b later (by rw [heq]; rfl)⟩

/-- What holds in every state of a run holds at the start and after each step. -/
theorem forall_prefix_iff {I : σ → Prop} :
    (∀ before, before <+: actions → I (before.foldl step s)) ↔
      I s ∧ Always step (fun s a => I (step s a)) s actions := by
  induction actions generalizing s with
  | nil =>
      simp
  | cons a actions ih =>
      rw [always_cons, ← ih]
      constructor
      · intro h
        exact ⟨h [] (List.nil_prefix),
          fun before hbefore => h (a :: before) (List.cons_prefix_cons.mpr ⟨rfl, hbefore⟩)⟩
      · rintro ⟨hstart, hrest⟩ before hbefore
        cases before with
        | nil =>
            exact hstart
        | cons b before =>
            obtain ⟨rfl, htail⟩ := List.cons_prefix_cons.mp hbefore
            exact hrest before htail

theorem always_and :
    Always step (fun s a => P s a ∧ Q s a) s actions ↔
      Always step P s actions ∧ Always step Q s actions := by
  induction actions generalizing s with
  | nil =>
      simp
  | cons a actions ih =>
      rw [always_cons, always_cons, always_cons, ih]
      exact and_and_and_comm

variable {I : σ → Prop}

/-- Relations that agree where the invariant holds agree along runs. -/
theorem always_congr (hiff : ∀ s a, I s → (P s a ↔ Q s a))
    (hstep : ∀ s a, I s → P s a → I (step s a)) (h : I s) :
    Always step P s actions ↔ Always step Q s actions := by
  induction actions generalizing s with
  | nil =>
      rfl
  | cons a actions ih =>
      constructor
      · rintro ⟨hfirst, hrest⟩
        exact ⟨(hiff s a h).mp hfirst, (ih (hstep s a h hfirst)).mp hrest⟩
      · rintro ⟨hfirst, hrest⟩
        have hp := (hiff s a h).mpr hfirst
        exact ⟨hp, (ih (hstep s a h hp)).mpr hrest⟩

/-- An invariant that the steps of a run keep holds in every state of the run. -/
theorem forall_prefix_of_always (hstep : ∀ s a, I s → P s a → I (step s a)) (h : I s)
    (hP : Always step P s actions) :
    ∀ before, before <+: actions → I (before.foldl step s) := by
  rw [forall_prefix_iff]
  refine ⟨h, ?_⟩
  induction actions generalizing s with
  | nil =>
      trivial
  | cons a actions ih =>
      exact ⟨hstep s a h hP.1, ih (hstep s a h hP.1) hP.2⟩

/-- What the steps of a run do, given an invariant that they keep. -/
theorem always_of_inv (hstep : ∀ s a, I s → P s a → I (step s a))
    (hQ : ∀ s a, I s → P s a → Q s a) (h : I s) (hP : Always step P s actions) :
    Always step Q s actions := by
  induction actions generalizing s with
  | nil =>
      trivial
  | cons a actions ih =>
      exact ⟨hQ s a h hP.1, ih (hstep s a h hP.1) hP.2⟩

/-- If what is good stays good exactly in the steps that satisfy a relation, the
last state of a run is good exactly if the first is and every step satisfies it. -/
theorem good_foldl_iff {Good : σ → Prop} (hstep : ∀ s a, I s → Q s a → I (step s a))
    (hgood : ∀ s a, I s → Q s a → (Good (step s a) ↔ Good s ∧ P s a)) (h : I s)
    (hQ : Always step Q s actions) :
    Good (actions.foldl step s) ↔ Good s ∧ Always step P s actions := by
  induction actions generalizing s with
  | nil =>
      simp
  | cons a actions ih =>
      rw [List.foldl_cons, ih (hstep s a h hQ.1) hQ.2, hgood s a h hQ.1, always_cons,
        and_assoc]

end Runs
end Lib
