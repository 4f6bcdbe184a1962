import Mathlib.Data.List.Basic
import Mathlib.Data.List.Forall2

/-!
# Stateful programs that may stop early

A program over a state `σ` is an `EStateM ε σ α`: it either delivers a value
or stops with a reason of type `ε`, and in both cases it leaves a state.  The
state at an early stop is kept because what a failed or interrupted run leaves
behind is part of its meaning.

Two predicates say what a program does from a given state:

* `Returns` (total correctness): it delivers a value, and value and final
  state satisfy the postcondition;
* `Ensures` (partial correctness): every value it delivers, together with the
  final state, satisfies the postcondition.

Both have the usual rules for `pure`, sequencing, lifted results and loops.
The loop rules carry an invariant over the elements already treated, the
accumulator and the state.

A third predicate, `Preserves`, speaks about the state a program leaves
however it ends, and `Keeps` joins it with `Ensures`.  `zoom` runs a program on
a part of a larger state.
-/

namespace Lib
namespace Program

universe u

section Rules

variable {ε σ α β : Type u}

/-- The program delivers a value and the postcondition holds. -/
def Returns
    (x : EStateM ε σ α) (s : σ) (Q : α → σ → Prop) : Prop :=
  ∃ a s', x.run s = .ok a s' ∧ Q a s'

/-- Whenever the program delivers a value, the postcondition holds. -/
def Ensures
    (x : EStateM ε σ α) (s : σ) (Q : α → σ → Prop) : Prop :=
  ∀ a s', x.run s = .ok a s' → Q a s'

/-- Turn a result into a program, mapping its error to a reason to stop. -/
def ofResult {ε' : Type u}
    (f : ε' → ε) : Except ε' α → EStateM ε σ α
  | .ok a => pure a
  | .error e => throw (f e)

/-- A sequence delivers a value iff both of its parts do. -/
theorem run_bind_eq_ok
    {x : EStateM ε σ α} {f : α → EStateM ε σ β}
    {s s' : σ} {b : β} :
    (x >>= f).run s = .ok b s' ↔
      ∃ a s₁, x.run s = .ok a s₁ ∧ (f a).run s₁ = .ok b s' := by
  rw [EStateM.run_bind]
  cases h : x.run s with
  | ok a s₁ =>
      constructor
      · intro hb
        exact ⟨a, s₁, rfl, hb⟩
      · rintro ⟨a', s₂, ha, hb⟩
        cases ha
        exact hb
  | error e s₁ =>
      simp

theorem run_bind_of_ok
    {x : EStateM ε σ α} {f : α → EStateM ε σ β}
    {s s' : σ} {a : α} (h : x.run s = .ok a s') :
    (x >>= f).run s = (f a).run s' := by
  rw [EStateM.run_bind, h]

theorem run_bind_of_error
    {x : EStateM ε σ α} {f : α → EStateM ε σ β}
    {s s' : σ} {e : ε} (h : x.run s = .error e s') :
    (x >>= f).run s = .error e s' := by
  rw [EStateM.run_bind, h]

/-- A first part that only succeeds under a condition, and then in one way. -/
theorem run_guarded_bind_eq_ok
    {x : EStateM ε σ PUnit} {f : PUnit → EStateM ε σ β}
    {s t s' : σ} {b : β} {P : Prop}
    (hx : ∀ s₁, x.run s = .ok ⟨⟩ s₁ ↔ P ∧ s₁ = t) :
    (x >>= f).run s = .ok b s' ↔ P ∧ (f ⟨⟩).run t = .ok b s' := by
  rw [run_bind_eq_ok]
  constructor
  · rintro ⟨_, s₁, hfirst, hrest⟩
    obtain ⟨hP, rfl⟩ := (hx s₁).mp hfirst
    exact ⟨hP, hrest⟩
  · rintro ⟨hP, hrest⟩
    exact ⟨⟨⟩, t, (hx t).mpr ⟨hP, rfl⟩, hrest⟩

theorem returns_pure
    {a : α} {s : σ} {Q : α → σ → Prop}
    (h : Q a s) :
    Returns (pure a : EStateM ε σ α) s Q :=
  ⟨a, s, rfl, h⟩

theorem returns_bind
    {x : EStateM ε σ α} {f : α → EStateM ε σ β}
    {s : σ} {P : α → σ → Prop} {Q : β → σ → Prop}
    (hx : Returns x s P)
    (hf : ∀ a s', P a s' → Returns (f a) s' Q) :
    Returns (x >>= f) s Q := by
  obtain ⟨a, s₁, hrun, hP⟩ := hx
  obtain ⟨b, s₂, hrun', hQ⟩ := hf a s₁ hP
  exact ⟨b, s₂, run_bind_eq_ok.mpr ⟨a, s₁, hrun, hrun'⟩, hQ⟩

/-- A first part whose result is known is stepped over. -/
theorem returns_bind_of_run
    {x : EStateM ε σ α} {f : α → EStateM ε σ β}
    {s s' : σ} {a : α} {Q : β → σ → Prop}
    (hx : x.run s = .ok a s') (hf : Returns (f a) s' Q) :
    Returns (x >>= f) s Q := by
  obtain ⟨b, s₂, hrun, hQ⟩ := hf
  exact ⟨b, s₂, run_bind_eq_ok.mpr ⟨a, s', hx, hrun⟩, hQ⟩

/-- Reading the state changes nothing. -/
theorem returns_get_bind
    {f : σ → EStateM ε σ β} {s : σ} {Q : β → σ → Prop}
    (h : Returns (f s) s Q) :
    Returns (get >>= f) s Q :=
  returns_bind_of_run rfl h

theorem returns_mono
    {x : EStateM ε σ α} {s : σ} {P Q : α → σ → Prop}
    (hx : Returns x s P) (h : ∀ a s', P a s' → Q a s') :
    Returns x s Q := by
  obtain ⟨a, s', hrun, hP⟩ := hx
  exact ⟨a, s', hrun, h a s' hP⟩

theorem ensures_pure
    {a : α} {s : σ} {Q : α → σ → Prop}
    (h : Q a s) :
    Ensures (pure a : EStateM ε σ α) s Q := by
  intro a' s' hrun
  cases hrun
  exact h

theorem ensures_bind
    {x : EStateM ε σ α} {f : α → EStateM ε σ β}
    {s : σ} {P : α → σ → Prop} {Q : β → σ → Prop}
    (hx : Ensures x s P)
    (hf : ∀ a s', P a s' → Ensures (f a) s' Q) :
    Ensures (x >>= f) s Q := by
  intro b s₂ hrun
  obtain ⟨a, s₁, hrun₁, hrun₂⟩ := run_bind_eq_ok.mp hrun
  exact hf a s₁ (hx a s₁ hrun₁) b s₂ hrun₂

theorem ensures_mono
    {x : EStateM ε σ α} {s : σ} {P Q : α → σ → Prop}
    (hx : Ensures x s P) (h : ∀ a s', P a s' → Q a s') :
    Ensures x s Q :=
  fun a s' hrun => h a s' (hx a s' hrun)

/-- A lifted result delivers exactly its value and leaves the state alone. -/
theorem run_ofResult_eq_ok {ε' : Type u}
    {f : ε' → ε} {r : Except ε' α} {s s' : σ} {a : α} :
    (ofResult f r : EStateM ε σ α).run s = .ok a s' ↔
      r = .ok a ∧ s' = s := by
  cases r with
  | ok b =>
      constructor
      · intro h
        cases h
        exact ⟨rfl, rfl⟩
      · rintro ⟨h, rfl⟩
        cases h
        rfl
  | error e =>
      constructor
      · intro h
        cases h
      · rintro ⟨h, _⟩
        cases h

theorem ensures_ofResult {ε' : Type u}
    {f : ε' → ε} {r : Except ε' α} {s : σ}
    {Q : α → σ → Prop}
    (h : ∀ a, r = .ok a → Q a s) :
    Ensures (ofResult f r : EStateM ε σ α) s Q := by
  intro a s' hrun
  obtain ⟨hr, rfl⟩ := run_ofResult_eq_ok.mp hrun
  exact h a hr

/-- Total loop rule: the invariant is over the elements already treated. -/
theorem returns_foldlM
    {f : β → α → EStateM ε σ β} (xs : List α)
    (I : List α → β → σ → Prop)
    {b : β} {s : σ} (h₀ : I [] b s)
    (hstep : ∀ done x rest b s, xs = done ++ x :: rest →
      I done b s → Returns (f b x) s (I (done ++ [x]))) :
    Returns (xs.foldlM f b) s (I xs) := by
  suffices key : ∀ rest done b s, xs = done ++ rest → I done b s →
      Returns (rest.foldlM f b) s (I xs) from key xs [] b s rfl h₀
  intro rest
  induction rest with
  | nil =>
      intro done b s hxs hI
      rw [List.append_nil] at hxs
      subst hxs
      exact returns_pure hI
  | cons x rest ih =>
      intro done b s hxs hI
      rw [List.foldlM_cons]
      refine returns_bind (hstep done x rest b s hxs hI) ?_
      intro b' s' hI'
      exact ih (done ++ [x]) b' s' (by simp [hxs]) hI'

/-- Partial loop rule: the invariant is over the elements already treated. -/
theorem ensures_foldlM
    {f : β → α → EStateM ε σ β} (xs : List α)
    (I : List α → β → σ → Prop)
    {b : β} {s : σ} (h₀ : I [] b s)
    (hstep : ∀ done x rest b s, xs = done ++ x :: rest →
      I done b s → Ensures (f b x) s (I (done ++ [x]))) :
    Ensures (xs.foldlM f b) s (I xs) := by
  suffices key : ∀ rest done b s, xs = done ++ rest → I done b s →
      Ensures (rest.foldlM f b) s (I xs) from key xs [] b s rfl h₀
  intro rest
  induction rest with
  | nil =>
      intro done b s hxs hI
      rw [List.append_nil] at hxs
      subst hxs
      exact ensures_pure hI
  | cons x rest ih =>
      intro done b s hxs hI
      rw [List.foldlM_cons]
      refine ensures_bind (hstep done x rest b s hxs hI) ?_
      intro b' s' hI'
      exact ih (done ++ [x]) b' s' (by simp [hxs]) hI'

end Rules

section StateAfter

variable {ε ε' σ τ α β : Type u}

/-- The state a program leaves, whether or not it delivers a value. -/
def stateAfter (x : EStateM ε σ α) (s : σ) : σ :=
  match x.run s with
  | .ok _ s' => s'
  | .error _ s' => s'

/-- What a program delivers, or why it stopped. -/
def outcome (x : EStateM ε σ α) (s : σ) : Except ε α :=
  match x.run s with
  | .ok a _ => .ok a
  | .error e _ => .error e

/-- The state property survives the program however it ends. -/
def Preserves (x : EStateM ε σ α) (I : σ → Prop) : Prop :=
  ∀ s, I s → I (stateAfter x s)

/-- Run a program on a part of the state, renaming its reasons to stop. -/
def zoom
    (get : σ → τ) (set : τ → σ → σ) (f : ε → ε')
    (x : EStateM ε τ α) : EStateM ε' σ α :=
  fun s =>
    match x.run (get s) with
    | .ok a t => .ok a (set t s)
    | .error e t => .error (f e) (set t s)

/-- Run a program and deliver its outcome instead of stopping. -/
def attempt (x : EStateM ε σ α) : EStateM ε' σ (Except ε α) :=
  fun s =>
    match x.run s with
    | .ok a s' => .ok (.ok a) s'
    | .error e s' => .ok (.error e) s'

theorem run_attempt (x : EStateM ε σ α) (s : σ) :
    (attempt x : EStateM ε' σ (Except ε α)).run s =
      .ok (outcome x s) (stateAfter x s) := by
  change attempt x s = _
  unfold attempt outcome stateAfter
  cases x.run s with
  | ok a t =>
      rfl
  | error e t =>
      rfl

theorem run_eq_ok_iff
    {x : EStateM ε σ α} {s s' : σ} {a : α} :
    x.run s = .ok a s' ↔ outcome x s = .ok a ∧ stateAfter x s = s' := by
  unfold outcome stateAfter
  cases x.run s with
  | ok b t =>
      simp
  | error e t =>
      simp

/-- A program whose outcome is a value returns. -/
theorem exists_run_of_isOk
    {x : EStateM ε σ α} {s : σ} (h : (outcome x s).isOk = true) :
    ∃ a s', x.run s = .ok a s' := by
  cases hout : outcome x s with
  | error e =>
      rw [hout] at h
      cases h
  | ok a =>
      exact ⟨a, _, run_eq_ok_iff.mpr ⟨hout, rfl⟩⟩

@[simp] theorem stateAfter_pure (a : α) (s : σ) :
    stateAfter (pure a : EStateM ε σ α) s = s :=
  rfl

/-- A lifted result leaves the state alone. -/
@[simp] theorem stateAfter_ofResult
    (f : ε' → ε) (r : Except ε' α) (s : σ) :
    stateAfter (ofResult f r : EStateM ε σ α) s = s := by
  cases r with
  | ok a =>
      rfl
  | error e =>
      rfl

/-- A sequence stops in the state of its first part if that part stops. -/
theorem stateAfter_bind
    (x : EStateM ε σ α) (f : α → EStateM ε σ β) (s : σ) :
    stateAfter (x >>= f) s =
      match outcome x s with
      | .ok a => stateAfter (f a) (stateAfter x s)
      | .error _ => stateAfter x s := by
  unfold outcome stateAfter
  rw [EStateM.run_bind]
  cases x.run s with
  | ok a t =>
      rfl
  | error e t =>
      rfl

/-- To change what a program delivers changes no state. -/
theorem stateAfter_bind_pure (x : EStateM ε σ α) (f : α → β) (s : σ) :
    stateAfter (x >>= fun a => pure (f a)) s = stateAfter x s := by
  rw [stateAfter_bind]
  cases outcome x s with
  | ok a =>
      rfl
  | error e =>
      rfl

/-- A first part whose result is known is stepped over. -/
theorem stateAfter_bind_of_run
    {x : EStateM ε σ α} {f : α → EStateM ε σ β} {s s' : σ} {a : α}
    (h : x.run s = .ok a s') :
    stateAfter (x >>= f) s = stateAfter (f a) s' := by
  simp only [stateAfter, EStateM.run_bind, h]

theorem stateAfter_bind_of_error
    {x : EStateM ε σ α} {f : α → EStateM ε σ β} {s s' : σ} {e : ε}
    (h : x.run s = .error e s') :
    stateAfter (x >>= f) s = s' := by
  simp only [stateAfter, EStateM.run_bind, h]

theorem outcome_bind_of_run
    {x : EStateM ε σ α} {f : α → EStateM ε σ β} {s s' : σ} {a : α}
    (h : x.run s = .ok a s') :
    outcome (x >>= f) s = outcome (f a) s' := by
  simp only [outcome, EStateM.run_bind, h]

theorem outcome_bind_of_error
    {x : EStateM ε σ α} {f : α → EStateM ε σ β} {s : σ} {e : ε}
    (h : outcome x s = .error e) :
    outcome (x >>= f) s = .error e := by
  cases hrun : x.run s with
  | ok a s' =>
      simp only [outcome, hrun, reduceCtorEq] at h
  | error e' s' =>
      simp only [outcome, hrun] at h
      simp only [outcome, run_bind_of_error hrun, Except.error.inj h]

@[simp] theorem stateAfter_zoom
    (get : σ → τ) (set : τ → σ → σ) (f : ε → ε')
    (x : EStateM ε τ α) (s : σ) :
    stateAfter (zoom get set f x) s = set (stateAfter x (get s)) s := by
  unfold stateAfter
  change (match zoom get set f x s with
    | .ok _ s' => s'
    | .error _ s' => s') = _
  unfold zoom
  cases x.run (get s) with
  | ok a t =>
      rfl
  | error e t =>
      rfl

theorem outcome_zoom
    (get : σ → τ) (set : τ → σ → σ) (f : ε → ε')
    (x : EStateM ε τ α) (s : σ) :
    outcome (zoom get set f x) s = (outcome x (get s)).mapError f := by
  unfold outcome
  change (match zoom get set f x s with
    | .ok a _ => Except.ok a
    | .error e _ => .error e) = _
  unfold zoom
  cases x.run (get s) with
  | ok a t =>
      rfl
  | error e t =>
      rfl

theorem run_zoom_ok
    {get : σ → τ} {set : τ → σ → σ} {f : ε → ε'}
    {x : EStateM ε τ α} {s : σ} {t : τ} {a : α}
    (h : x.run (get s) = .ok a t) :
    (zoom get set f x).run s = .ok a (set t s) := by
  change zoom get set f x s = _
  simp only [zoom, h]

theorem run_zoom_error
    {get : σ → τ} {set : τ → σ → σ} {f : ε → ε'}
    {x : EStateM ε τ α} {s : σ} {t : τ} {e : ε}
    (h : x.run (get s) = .error e t) :
    (zoom get set f x).run s = .error (f e) (set t s) := by
  change zoom get set f x s = _
  simp only [zoom, h]

/-- A program that returns leaves a state its postcondition speaks about. -/
theorem exists_of_returns
    {x : EStateM ε σ α} {s : σ} {Q : α → σ → Prop}
    (h : Returns x s Q) :
    ∃ a, outcome x s = .ok a ∧ Q a (stateAfter x s) := by
  obtain ⟨a, s', hrun, hQ⟩ := h
  refine ⟨a, ?_, ?_⟩
  · simp [outcome, hrun]
  · simpa [stateAfter, hrun] using hQ

theorem preserves_pure (a : α) (I : σ → Prop) :
    Preserves (pure a : EStateM ε σ α) I :=
  fun _ h => h

theorem preserves_ofResult
    (f : ε' → ε) (r : Except ε' α) (I : σ → Prop) :
    Preserves (ofResult f r : EStateM ε σ α) I := by
  intro s h
  rw [stateAfter_ofResult]
  exact h

theorem preserves_bind
    {x : EStateM ε σ α} {f : α → EStateM ε σ β} {I : σ → Prop}
    (hx : Preserves x I) (hf : ∀ a, Preserves (f a) I) :
    Preserves (x >>= f) I := by
  intro s h
  rw [stateAfter_bind]
  cases outcome x s with
  | ok a =>
      exact hf a _ (hx s h)
  | error e =>
      exact hx s h

theorem preserves_foldlM
    {f : β → α → EStateM ε σ β} {I : σ → Prop} (xs : List α)
    (hf : ∀ b, ∀ x ∈ xs, Preserves (f b x) I) :
    ∀ b, Preserves (xs.foldlM f b) I := by
  induction xs with
  | nil =>
      intro b
      exact preserves_pure b I
  | cons x xs ih =>
      intro b
      rw [List.foldlM_cons]
      refine preserves_bind (hf b x (by simp)) ?_
      intro b'
      exact ih (fun c y hy => hf c y (by simp [hy])) b'

end StateAfter

section Keeps

variable {ε ε' σ α β : Type u}

/-- The state property holds however the program ends, and the postcondition
if it delivers a value. -/
def Keeps (x : EStateM ε σ α) (s : σ) (I : σ → Prop) (Q : α → σ → Prop) :
    Prop :=
  match x.run s with
  | .ok a s' => I s' ∧ Q a s'
  | .error _ s' => I s'

variable {I : σ → Prop} {s s' : σ}

theorem keeps_of_ok
    {x : EStateM ε σ α} {Q : α → σ → Prop} {a : α}
    (h : x.run s = .ok a s') (hI : I s') (hQ : Q a s') : Keeps x s I Q := by
  rw [Keeps, h]
  exact ⟨hI, hQ⟩

theorem keeps_of_error
    {x : EStateM ε σ α} {Q : α → σ → Prop} {e : ε}
    (h : x.run s = .error e s') (hI : I s') : Keeps x s I Q := by
  rw [Keeps, h]
  exact hI

theorem Keeps.of_run
    {x : EStateM ε σ α} {Q : α → σ → Prop} {a : α}
    (h : Keeps x s I Q) (hrun : x.run s = .ok a s') : I s' ∧ Q a s' := by
  rw [Keeps, hrun] at h
  exact h

theorem Keeps.stateAfter
    {x : EStateM ε σ α} {Q : α → σ → Prop}
    (h : Keeps x s I Q) : I (stateAfter x s) := by
  unfold Keeps at h
  unfold Program.stateAfter
  cases hrun : x.run s with
  | ok a s' =>
      rw [hrun] at h
      exact h.1
  | error e s' =>
      rw [hrun] at h
      exact h

theorem keeps_mono
    {x : EStateM ε σ α} {P Q : α → σ → Prop}
    (hx : Keeps x s I P) (h : ∀ a s', I s' → P a s' → Q a s') :
    Keeps x s I Q := by
  cases hrun : x.run s with
  | ok a s' =>
      obtain ⟨hI, hP⟩ := hx.of_run hrun
      exact keeps_of_ok hrun hI (h a s' hI hP)
  | error e s' =>
      rw [Keeps, hrun] at hx
      exact keeps_of_error hrun hx

theorem keeps_pure
    {a : α} {Q : α → σ → Prop} (hI : I s) (hQ : Q a s) :
    Keeps (pure a : EStateM ε σ α) s I Q :=
  ⟨hI, hQ⟩

theorem keeps_bind
    {x : EStateM ε σ α} {f : α → EStateM ε σ β}
    {P : α → σ → Prop} {Q : β → σ → Prop}
    (hx : Keeps x s I P)
    (hf : ∀ a s', I s' → P a s' → Keeps (f a) s' I Q) :
    Keeps (x >>= f) s I Q := by
  cases hrun : x.run s with
  | ok a s' =>
      obtain ⟨hI, hP⟩ := hx.of_run hrun
      rw [Keeps, run_bind_of_ok hrun]
      exact hf a s' hI hP
  | error e s' =>
      rw [Keeps, hrun] at hx
      exact keeps_of_error (run_bind_of_error hrun) hx

/-- A part that surely delivers a value. -/
theorem keeps_bind_of_run
    {x : EStateM ε σ α} {f : α → EStateM ε σ β} {a : α} {Q : β → σ → Prop}
    (hrun : x.run s = .ok a s') (hf : Keeps (f a) s' I Q) :
    Keeps (x >>= f) s I Q := by
  rw [Keeps, run_bind_of_ok hrun]
  exact hf

theorem keeps_ofResult_bind
    {g : ε' → ε} {r : Except ε' α} {f : α → EStateM ε σ β} {Q : β → σ → Prop}
    (hI : I s) (hf : ∀ a, r = .ok a → Keeps (f a) s I Q) :
    Keeps (ofResult g r >>= f) s I Q := by
  cases r with
  | ok a =>
      exact hf a rfl
  | error e =>
      exact hI

/-- Loop rule, with an invariant over the elements already treated. -/
theorem keeps_foldlM
    {f : β → α → EStateM ε σ β} (xs : List α)
    (J : List α → β → σ → Prop) {b : β} (hI : I s) (hJ : J [] b s)
    (hstep : ∀ done x rest b s, xs = done ++ x :: rest → I s → J done b s →
      Keeps (f b x) s I (J (done ++ [x]))) :
    Keeps (xs.foldlM f b) s I (J xs) := by
  have key : ∀ rest done b s, xs = done ++ rest → I s → J done b s →
      Keeps (rest.foldlM f b) s I (J xs) := by
    intro rest
    induction rest with
    | nil =>
        intro done b s hxs hI hJ
        rw [List.append_nil] at hxs
        subst hxs
        exact keeps_pure hI hJ
    | cons x rest ih =>
        intro done b s hxs hI hJ
        rw [List.foldlM_cons]
        refine keeps_bind (hstep done x rest b s hxs hI hJ) ?_
        intro b' s' hI' hJ'
        exact ih (done ++ [x]) b' s' (by simp [hxs]) hI' hJ'
  exact key xs [] b s rfl hI hJ

end Keeps

section Results

variable {ε α β : Type u}

/-- All steps of a list succeed, each with its result. -/
theorem mapM_eq_ok_iff {f : α → Except ε β} {as : List α} {bs : List β} :
    as.mapM f = .ok bs ↔ List.Forall₂ (fun a b => f a = .ok b) as bs := by
  induction as generalizing bs with
  | nil =>
      rw [List.mapM_nil, List.forall₂_nil_left_iff]
      exact ⟨fun h => (Except.ok.inj h).symm, fun h => congrArg Except.ok h.symm⟩
  | cons a as ih =>
      rw [List.mapM_cons, List.forall₂_cons_left_iff]
      constructor
      · intro h
        cases ha : f a with
        | error e =>
            rw [ha] at h
            cases h
        | ok b =>
            rw [ha] at h
            cases has : as.mapM f with
            | error e =>
                simp only [has] at h
                cases h
            | ok rest =>
                simp only [has] at h
                exact ⟨b, rest, rfl, ih.mp has, (Except.ok.inj h).symm⟩
      · rintro ⟨b, rest, ha, hrest, rfl⟩
        rw [ha, ih.mpr hrest]
        rfl

theorem exists_mapM_iff {f : α → Except ε β} {as : List α} :
    (∃ bs, as.mapM f = .ok bs) ↔ ∀ a ∈ as, ∃ b, f a = .ok b := by
  simp only [mapM_eq_ok_iff]
  induction as with
  | nil =>
      exact iff_of_true ⟨[], .nil⟩ (List.forall_mem_nil _)
  | cons a as ih =>
      rw [List.forall_mem_cons, ← ih]
      constructor
      · rintro ⟨_, hall⟩
        cases hall with
        | cons ha has => exact ⟨⟨_, ha⟩, _, has⟩
      · rintro ⟨⟨b, ha⟩, bs, has⟩
        exact ⟨b :: bs, .cons ha has⟩

/-- All steps of a list succeed with nothing. -/
theorem exists_forall₂_flatten_eq_nil_iff {f : α → Except ε (List β)} {as : List α} :
    (∃ bs : List (List β), List.Forall₂ (fun a b => f a = .ok b) as bs ∧
      bs.flatten = []) ↔ ∀ a ∈ as, f a = .ok [] := by
  constructor
  · rintro ⟨bs, hall, hnil⟩
    induction hall with
    | nil =>
        exact List.forall_mem_nil _
    | cons ha _ ih =>
        rw [List.flatten_cons, List.append_eq_nil_iff] at hnil
        rw [hnil.1] at ha
        exact List.forall_mem_cons.mpr ⟨ha, ih hnil.2⟩
  · intro h
    refine ⟨as.map fun _ => [], ?_, ?_⟩
    · exact List.forall₂_map_right_iff.mpr (List.forall₂_same.mpr h)
    · rw [List.flatten_eq_nil_iff]
      intro b hb
      obtain ⟨_, _, rfl⟩ := List.mem_map.mp hb
      rfl

end Results

end Program
end Lib
