import HyperBackup.Lib.Program
import Mathlib.Data.List.Basic
import Mathlib.Logic.Function.Iterate

/-!
# Programs as trees of calls

A program that works on objects it does not own is a tree: it has ended, with
a value or an error, or it makes a call and goes on with the answer.  What the
calls do is left open, so one program can be run alone, against objects that
fail, or step by step next to other programs.

`exec` runs a program to its end against a handler for the calls; `step`
makes one call.  `Meets` says what a program guarantees under a relation
between a state, a call, its answer and the next state; it has the usual rules
for sequences and loops, and `meets_exec` takes it to a handler.  `interpret`
reads the calls as programs over a state of their own.
-/

namespace Lib

/-- A program that makes calls with answers of type `Res`. -/
inductive CallTree {Op : Type} (Res : Op → Type) (ε α : Type) : Type
  | ret (a : α)
  | fail (e : ε)
  | call (op : Op) (next : Res op → CallTree Res ε α)

namespace CallTree

section Programs

variable {Op : Type} {Res : Op → Type} {ε ε' α β : Type}

def bind (p : CallTree Res ε α) (f : α → CallTree Res ε β) : CallTree Res ε β :=
  match p with
  | .ret a => f a
  | .fail e => .fail e
  | .call op next => .call op fun r => (next r).bind f

instance : Monad (CallTree Res ε) where
  pure := .ret
  bind := bind

/-- Make one call and deliver its answer. -/
def perform (op : Op) : CallTree Res ε (Res op) :=
  .call op .ret

/-- Turn a result into a program, mapping its error. -/
def ofExcept (f : ε' → ε) : Except ε' α → CallTree Res ε α
  | .ok a => .ret a
  | .error e => .fail (f e)

end Programs

section Runs

variable {Op : Type} {Res : Op → Type} {ε α σ : Type}
variable (handle : (op : Op) → σ → Res op × σ)

/-- Run a program to its end. -/
def exec : CallTree Res ε α → σ → Except ε α × σ
  | .ret a, s => (.ok a, s)
  | .fail e, s => (.error e, s)
  | .call op next, s => exec (next (handle op s).1) (handle op s).2

/-- Make the next call; a program that has ended stays as it is. -/
def step : CallTree Res ε α → σ → CallTree Res ε α × σ
  | .call op next, s => (next (handle op s).1, (handle op s).2)
  | p, s => (p, s)

/-- A program that has ended. -/
def ofResult : Except ε α → CallTree Res ε α
  | .ok a => .ret a
  | .error e => .fail e

/-- Steps in a row lead to the end of the program. -/
theorem exists_iterate_step (p : CallTree Res ε α) :
    ∀ s, ∃ n, (Function.uncurry (step handle))^[n] (p, s) =
      (ofResult (exec handle p s).1, (exec handle p s).2) := by
  induction p with
  | ret a =>
      intro s
      exact ⟨0, rfl⟩
  | fail e =>
      intro s
      exact ⟨0, rfl⟩
  | call op next ih =>
      intro s
      obtain ⟨n, hn⟩ := ih (handle op s).1 (handle op s).2
      exact ⟨n + 1, hn⟩

/-- A program is run to its end, and then what comes after it. -/
theorem exec_bind_of_ok {β : Type} {p : CallTree Res ε α}
    {f : α → CallTree Res ε β} {a : α} :
    ∀ {s s' : σ}, exec handle p s = (.ok a, s') →
      exec handle (p >>= f) s = exec handle (f a) s' := by
  induction p with
  | ret b =>
      rintro s s' h
      cases h
      rfl
  | fail e =>
      intro s s' h
      cases h
  | call op next ih =>
      intro s s' h
      exact ih (handle op s).1 h

theorem exec_perform_of_eq {op : Op} {f : Res op → CallTree Res ε α} {r : Res op}
    {s s' : σ} (h : handle op s = (r, s')) :
    exec handle (perform op >>= f) s = exec handle (f r) s' := by
  have hcall : exec handle (perform op >>= f) s =
      exec handle (f (handle op s).1) (handle op s).2 := rfl
  rw [hcall, h]

/-- Keep a record of all calls and their answers. -/
def logged (op : Op) (c : σ × List ((op : Op) × Res op)) :
    Res op × (σ × List ((op : Op) × Res op)) :=
  ((handle op c.1).1, (handle op c.1).2, c.2 ++ [⟨op, (handle op c.1).1⟩])

/-- What every call keeps is kept by a run. -/
theorem exec_preserves {I : σ → Prop} (hstep : ∀ op s, I s → I (handle op s).2)
    (p : CallTree Res ε α) {s : σ} (h : I s) : I (exec handle p s).2 := by
  induction p generalizing s with
  | ret a =>
      exact h
  | fail e =>
      exact h
  | call op next ih =>
      exact ih _ (hstep op s h)

end Runs

section Rules

variable {Op : Type} {Res : Op → Type} {ε ε' α β γ : Type}
variable (Allowed : γ → Op → Prop) (Next : γ → (op : Op) → Res op → γ → Prop)

/-- Every call of the program is allowed where it is made, and the program ends
with the postconditions, for all answers and states that the relation admits. -/
def Meets : CallTree Res ε α → γ → (α → γ → Prop) → (ε → γ → Prop) → Prop
  | .ret a, g, Q, _ => Q a g
  | .fail e, g, _, E => E e g
  | .call op next, g, Q, E =>
      Allowed g op ∧ ∀ r g', Next g op r g' → Meets (next r) g' Q E

variable {Allowed Next} {g : γ} {Q : β → γ → Prop} {E : ε → γ → Prop}

theorem meets_bind {p : CallTree Res ε α} {f : α → CallTree Res ε β}
    {P : α → γ → Prop} (hp : p.Meets Allowed Next g P E)
    (hf : ∀ a g', P a g' → (f a).Meets Allowed Next g' Q E) :
    (p >>= f).Meets Allowed Next g Q E := by
  induction p generalizing g with
  | ret a =>
      exact hf a g hp
  | fail e =>
      exact hp
  | call op next ih =>
      exact ⟨hp.1, fun r g' hnext => ih r (hp.2 r g' hnext)⟩

theorem meets_mono {p : CallTree Res ε α} {P P' : α → γ → Prop}
    (hp : p.Meets Allowed Next g P E) (h : ∀ a g', P a g' → P' a g') :
    p.Meets Allowed Next g P' E := by
  induction p generalizing g with
  | ret a =>
      exact h a g hp
  | fail e =>
      exact hp
  | call op next ih =>
      exact ⟨hp.1, fun r g' hnext => ih r (hp.2 r g' hnext)⟩

theorem meets_perform {op : Op} {f : Res op → CallTree Res ε β}
    (hallowed : Allowed g op)
    (h : ∀ r g', Next g op r g' → (f r).Meets Allowed Next g' Q E) :
    (perform op >>= f).Meets Allowed Next g Q E :=
  ⟨hallowed, h⟩

theorem meets_ofExcept {r : Except ε' α} {m : ε' → ε}
    {f : α → CallTree Res ε β}
    (hok : ∀ a, r = .ok a → (f a).Meets Allowed Next g Q E)
    (herror : ∀ e, r = .error e → E (m e) g) :
    (ofExcept m r >>= f).Meets Allowed Next g Q E := by
  cases r with
  | ok a =>
      exact hok a rfl
  | error e =>
      exact herror e rfl

/-- Loop rule, with an invariant over the accumulator and the state. -/
theorem meets_foldlM {f : β → α → CallTree Res ε β} (I : β → γ → Prop)
    {xs : List α} {b : β} (h : I b g)
    (hstep : ∀ b g, ∀ x ∈ xs, I b g → (f b x).Meets Allowed Next g I E) :
    (xs.foldlM f b).Meets Allowed Next g I E := by
  induction xs generalizing b g with
  | nil =>
      exact h
  | cons x xs ih =>
      rw [List.foldlM_cons]
      refine meets_bind (hstep b g x List.mem_cons_self h) ?_
      intro b' g' h'
      exact ih h' fun b g y hy => hstep b g y (List.mem_cons_of_mem _ hy)

/-- Loop rule, with an invariant over the elements already treated as well. -/
theorem meets_foldlM_prefix {f : β → α → CallTree Res ε β}
    (I : List α → β → γ → Prop) {xs : List α} {b : β} (h : I [] b g)
    (hstep : ∀ done b g, ∀ x ∈ xs, I done b g →
      (f b x).Meets Allowed Next g (I (done ++ [x])) E) :
    (xs.foldlM f b).Meets Allowed Next g (I xs) E := by
  have hfold : ∀ (rest done : List α) (b : β) (g : γ), (∀ x ∈ rest, x ∈ xs) →
      I done b g → (rest.foldlM f b).Meets Allowed Next g (I (done ++ rest)) E := by
    intro rest
    induction rest with
    | nil =>
        intro done b g _ hdone
        rw [List.append_nil]
        exact hdone
    | cons x rest ih =>
        intro done b g hmem hdone
        rw [List.foldlM_cons]
        refine meets_bind (hstep done b g x (hmem x List.mem_cons_self) hdone) ?_
        intro b' g' h'
        have hrest := ih (done ++ [x]) b' g'
          (fun y hy => hmem y (List.mem_cons_of_mem _ hy)) h'
        rw [List.append_assoc] at hrest
        exact hrest
  exact hfold xs [] b g (fun _ hx => hx) h

/-- What a program guarantees holds at its end, if the handler keeps to the
relation. -/
theorem meets_exec {p : CallTree Res ε α} {P : α → γ → Prop}
    {handle : (op : Op) → γ → Res op × γ}
    (hhandle : ∀ g op, Next g op (handle op g).1 (handle op g).2)
    (h : p.Meets Allowed Next g P E) :
    (∀ a, (exec handle p g).1 = .ok a → P a (exec handle p g).2) ∧
      ∀ e, (exec handle p g).1 = .error e → E e (exec handle p g).2 := by
  induction p generalizing g with
  | ret a =>
      refine ⟨fun a' ha => ?_, nofun⟩
      cases ha
      exact h
  | fail e =>
      refine ⟨nofun, fun e' he => ?_⟩
      cases he
      exact h
  | call op next ih =>
      exact ih _ (h.2 _ _ (hhandle g op))

/-- If a state that a program leaves is admissible, so is the state it began
in. -/
theorem admissible_of_exec {handle : (op : Op) → γ → Res op × γ}
    (admissible : γ → Prop)
    (hback : ∀ g op, admissible (handle op g).2 → admissible g)
    (p : CallTree Res ε α) {g : γ} (h : admissible (exec handle p g).2) :
    admissible g := by
  induction p generalizing g with
  | ret a =>
      exact h
  | fail e =>
      exact h
  | call op next ih =>
      exact hback g op (ih _ h)

/-- The same for a handler that keeps to the relation as long as the states
are admissible. -/
theorem meets_exec_of_admissible {p : CallTree Res ε α} {P : α → γ → Prop}
    {handle : (op : Op) → γ → Res op × γ} (admissible : γ → Prop)
    (hback : ∀ g op, admissible (handle op g).2 → admissible g)
    (hhandle : ∀ g op, admissible (handle op g).2 →
      Next g op (handle op g).1 (handle op g).2)
    (h : p.Meets Allowed Next g P E) (hend : admissible (exec handle p g).2) :
    (∀ a, (exec handle p g).1 = .ok a → P a (exec handle p g).2) ∧
      ∀ e, (exec handle p g).1 = .error e → E e (exec handle p g).2 := by
  induction p generalizing g with
  | ret a =>
      refine ⟨fun a' ha => ?_, nofun⟩
      cases ha
      exact h
  | fail e =>
      refine ⟨nofun, fun e' he => ?_⟩
      cases he
      exact h
  | call op next ih =>
      have hcall : admissible (handle op g).2 :=
        admissible_of_exec admissible hback (next (handle op g).1) hend
      exact ih _ (h.2 _ _ (hhandle g op hcall)) hend

end Rules

section Interpretation

variable {Op : Type} {Res : Op → Type} {ε ε' α β σ : Type}
variable (answer : (op : Op) → EStateM ε σ (Res op))

/-- Read every call as a program over a state. -/
def interpret : CallTree Res ε α → EStateM ε σ α
  | .ret a => pure a
  | .fail e => throw e
  | .call op next => answer op >>= fun r => interpret (next r)

variable {answer}

@[simp] theorem interpret_pure (a : α) :
    interpret answer (pure a : CallTree Res ε α) = pure a :=
  rfl

@[simp] theorem interpret_perform (op : Op) :
    interpret answer (perform op) = answer op :=
  bind_pure (answer op)

@[simp] theorem interpret_ofExcept (f : ε' → ε) (r : Except ε' α) :
    interpret answer (ofExcept f r) = Program.ofResult f r := by
  cases r with
  | ok a =>
      rfl
  | error e =>
      rfl

@[simp] theorem interpret_bind (p : CallTree Res ε α) (f : α → CallTree Res ε β) :
    interpret answer (p >>= f) =
      interpret answer p >>= fun a => interpret answer (f a) := by
  induction p with
  | ret a =>
      rfl
  | fail e =>
      rfl
  | call op next ih =>
      have hcall : interpret answer (.call op next >>= f) =
          answer op >>= fun r => interpret answer (next r >>= f) := rfl
      rw [hcall, funext ih]
      exact (bind_assoc (m := EStateM ε σ) (answer op) _ _).symm

theorem interpret_foldlM (f : β → α → CallTree Res ε β) (xs : List α) (b : β) :
    interpret answer (xs.foldlM f b) =
      xs.foldlM (fun b x => interpret answer (f b x)) b := by
  induction xs generalizing b with
  | nil =>
      rfl
  | cons x xs ih =>
      rw [List.foldlM_cons, List.foldlM_cons, interpret_bind, funext fun b => ih b]

end Interpretation

end CallTree
end Lib
