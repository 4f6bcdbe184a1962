import HyperBackup.Lib.Program

/-!
# Programs as sequences of elementary operations

A program over a state has an outside effect, say on a disk, that comes about
by a list of elementary operations.  `Performs` says that the list accounts
for everything the program does to the outside.  What an interrupted program
leaves behind is then the effect of a first part of that list.
-/

namespace Lib
namespace Trace

open Program

universe u

section Run

variable {Op D : Type u} (exec : Op → D → D)

/-- The effect of a list of operations. -/
def run (ops : List Op) (d : D) : D :=
  ops.foldl (fun d op => exec op d) d

@[simp] theorem run_nil (d : D) : run exec [] d = d :=
  rfl

@[simp] theorem run_cons (op : Op) (ops : List Op) (d : D) :
    run exec (op :: ops) d = run exec ops (exec op d) :=
  rfl

theorem run_append (ops ops' : List Op) (d : D) :
    run exec (ops ++ ops') d = run exec ops' (run exec ops d) :=
  List.foldl_append

/-- What no operation of the list changes stays as it is. -/
theorem run_frame {β : Type u} {ops : List Op} (f : D → β)
    (h : ∀ op ∈ ops, ∀ d, f (exec op d) = f d) (d : D) :
    f (run exec ops d) = f d := by
  induction ops generalizing d with
  | nil =>
      rfl
  | cons op ops ih =>
      rw [run_cons, ih fun op' hop => h op' (List.mem_cons_of_mem _ hop),
        h op List.mem_cons_self]

end Run

section Performs

variable {ε σ α β Op D : Type u} (view : σ → D) (exec : Op → D → D)

/-- The operations are all that the program does to the outside. -/
def Performs (x : EStateM ε σ α) (s : σ) (ops : List Op) : Prop :=
  view (stateAfter x s) = run exec ops (view s)

variable {view} {exec}

theorem performs_pure (a : α) (s : σ) :
    Performs view exec (pure a : EStateM ε σ α) s [] :=
  rfl

/-- What a sequence performs, if its first part delivers a value. -/
theorem performs_bind
    {x : EStateM ε σ α} {f : α → EStateM ε σ β} {s s' : σ} {a : α}
    {ops ops' : List Op} (hrun : x.run s = .ok a s')
    (hx : Performs view exec x s ops)
    (hf : Performs view exec (f a) s' ops') :
    Performs view exec (x >>= f) s (ops ++ ops') := by
  have hafter := (run_eq_ok_iff.mp hrun).2
  unfold Performs at hx hf ⊢
  rw [stateAfter_bind_of_run hrun, hf, ← hafter, hx, run_append]

/-- A first part that performs a single operation. -/
theorem performs_bind_cons
    {x : EStateM ε σ α} {f : α → EStateM ε σ β} {s s' : σ} {a : α}
    {op : Op} {ops : List Op} (hrun : x.run s = .ok a s')
    (hx : Performs view exec x s [op])
    (hf : Performs view exec (f a) s' ops) :
    Performs view exec (x >>= f) s (op :: ops) :=
  performs_bind hrun hx hf

/-- A first part that does not show outside. -/
theorem performs_bind_silent
    {x : EStateM ε σ α} {f : α → EStateM ε σ β} {s s' : σ} {a : α}
    {ops : List Op} (hrun : x.run s = .ok a s') (hview : view s' = view s)
    (hf : Performs view exec (f a) s' ops) :
    Performs view exec (x >>= f) s ops := by
  unfold Performs at hf ⊢
  rw [stateAfter_bind_of_run hrun, hf, hview]

/-- A sequence that stops in a first part which does not show outside. -/
theorem performs_bind_of_error
    {x : EStateM ε σ α} {f : α → EStateM ε σ β} {s s' : σ} {e : ε}
    (hrun : x.run s = .error e s') (hview : view s' = view s) :
    Performs view exec (x >>= f) s [] := by
  unfold Performs
  rw [stateAfter_bind_of_error hrun, hview, run_nil]

end Performs

end Trace
end Lib
