import HyperBackup.Badou.IndexFile

/-!
# Operations of an index at the same time

An operation of the index changes the memory under the lock, takes a copy of
the memory when the lock is released, and then writes the copy to the file.
The copies of different operations are not written in any particular order,
so an older copy can be written over a newer one.

A run counts its updates, and notes for every copy how many updates there were
before it.  The file holds what is in memory if the copy that was written last
was taken after the last update.
-/

namespace HyperBackup
namespace Badou
namespace IndexRace

open Lib PersistedIndex IndexFile

section Model

/-- How far a call of an operation has come. -/
inductive Phase
  | idle
  | updated
  | copied (data : PersistedIndex)
  | returned (ok : Bool)

/-- The steps of the calls. -/
inductive Step
  | update (call : Nat) (op : Op)
  | snapshot (call : Nat)
  | write (call : Nat)
deriving DecidableEq

/-- One index, its file and the calls of its operations. -/
structure State where
  memory : PersistedIndex
  file : Option Bytes
  calls : Nat → Phase

/-- An index before any call. -/
def ofIndex (index : IndexFile) : State where
  memory := index.memory
  file := index.file
  calls := fun _ => .idle

def setCall (s : State) (call : Nat) (phase : Phase) : State :=
  { s with calls := fun other => if other = call then phase else s.calls other }

/-- A step of a call, if it is the next one of that call. -/
def step (json : IndexJson) (s : State) : Step → Option State
  | .update call op =>
      match s.calls call with
      | .idle =>
          match s.memory.update op with
          | .error _ => some (setCall s call (.returned false))
          | .ok memory => some (setCall { s with memory := memory } call .updated)
      | _ => none
  | .snapshot call =>
      match s.calls call with
      | .updated => some (setCall s call (.copied s.memory))
      | _ => none
  | .write call =>
      match s.calls call with
      | .copied data =>
          some (setCall { s with file := some (json.toVec data) } call
            (.returned true))
      | _ => none

def run (json : IndexJson) (s : State) (steps : List Step) : Option State :=
  steps.foldlM (step json) s

/-- Every call that was made has returned without an error. -/
def AllReturned (s : State) : Prop :=
  ∀ call, s.calls call = .idle ∨ s.calls call = .returned true

end Model

section Clock

/-- The number of updates so far, before each copy, and before the copy that is
in the file. -/
structure Clock where
  updates : Nat
  copied : Nat → Nat
  written : Nat

def Clock.start : Clock where
  updates := 0
  copied := fun _ => 0
  written := 0

def Clock.tick (clock : Clock) : Step → Clock
  | .update _ _ => { clock with updates := clock.updates + 1 }
  | .snapshot call =>
      { clock with copied := fun other =>
          if other = call then clock.updates else clock.copied other }
  | .write call => { clock with written := clock.copied call }

def clockOf (steps : List Step) : Clock :=
  steps.foldl Clock.tick .start

/-- The copy that was written last was taken after the last update. -/
def LastWriteCurrent (steps : List Step) : Prop :=
  (clockOf steps).written = (clockOf steps).updates

instance (steps : List Step) : Decidable (LastWriteCurrent steps) :=
  inferInstanceAs (Decidable (_ = _))

end Clock

section Steps

variable {json : IndexJson}

/-- What a step does. -/
theorem step_cases {s s' : State} {event : Step}
    (h : step json s event = some s') :
    (∃ call op e, event = .update call op ∧ s.memory.update op = .error e ∧
      s' = setCall s call (.returned false)) ∨
    (∃ call op memory, event = .update call op ∧
      s.memory.update op = .ok memory ∧
      s' = setCall { s with memory := memory } call .updated) ∨
    (∃ call, event = .snapshot call ∧
      s' = setCall s call (.copied s.memory)) ∨
    (∃ call data, event = .write call ∧ s.calls call = .copied data ∧
      s' = setCall { s with file := some (json.toVec data) } call
        (.returned true)) := by
  cases event with
  | update call op =>
      cases hcall : s.calls call with
      | idle =>
          cases hupdate : s.memory.update op with
          | error e =>
              simp only [step, hcall, hupdate, Option.some.injEq] at h
              exact Or.inl ⟨call, op, e, rfl, hupdate, h.symm⟩
          | ok memory =>
              simp only [step, hcall, hupdate, Option.some.injEq] at h
              exact Or.inr (Or.inl ⟨call, op, memory, rfl, hupdate, h.symm⟩)
      | _ => simp [step, hcall] at h
  | snapshot call =>
      cases hcall : s.calls call with
      | updated =>
          simp only [step, hcall, Option.some.injEq] at h
          exact Or.inr (Or.inr (Or.inl ⟨call, rfl, h.symm⟩))
      | _ => simp [step, hcall] at h
  | write call =>
      cases hcall : s.calls call with
      | copied data =>
          simp only [step, hcall, Option.some.injEq] at h
          exact Or.inr (Or.inr (Or.inr ⟨call, data, rfl, hcall, h.symm⟩))
      | _ => simp [step, hcall] at h

/-- A copy taken after the last update is the memory, and the file holds it
once it is written. -/
structure Tracks (json : IndexJson) (clock : Clock) (s : State) : Prop where
  copied_le : ∀ call, clock.copied call ≤ clock.updates
  written_le : clock.written ≤ clock.updates
  copy : ∀ call data, s.calls call = .copied data →
    clock.copied call = clock.updates → data = s.memory
  file : clock.written = clock.updates →
    Persisted json { memory := s.memory, file := s.file }

theorem tracks_start {index : IndexFile} (h : Persisted json index) :
    Tracks json .start (ofIndex index) where
  copied_le := fun _ => Nat.le_refl 0
  written_le := Nat.le_refl 0
  copy := by
    intro call data hcall
    cases hcall
  file := fun _ => h

theorem tracks_step {clock : Clock} {s s' : State} {event : Step}
    (h : Tracks json clock s) (hstep : step json s event = some s') :
    Tracks json (clock.tick event) s' := by
  have hcopied := h.copied_le
  have hwritten := h.written_le
  rcases step_cases hstep with ⟨call, op, e, rfl, -, rfl⟩ |
    ⟨call, op, memory, rfl, -, rfl⟩ | ⟨call, rfl, rfl⟩ |
    ⟨call, data, rfl, hdata, rfl⟩
  · refine ⟨fun other => ?_, ?_, fun other data _ hcount => ?_, fun hcount => ?_⟩
    · exact Nat.le_succ_of_le (hcopied other)
    · exact Nat.le_succ_of_le hwritten
    · have := hcopied other
      simp only [Clock.tick] at hcount
      omega
    · simp only [Clock.tick] at hcount
      omega
  · refine ⟨fun other => ?_, ?_, fun other data _ hcount => ?_, fun hcount => ?_⟩
    · exact Nat.le_succ_of_le (hcopied other)
    · exact Nat.le_succ_of_le hwritten
    · have := hcopied other
      simp only [Clock.tick] at hcount
      omega
    · simp only [Clock.tick] at hcount
      omega
  · refine ⟨fun other => ?_, hwritten, fun other data hother hcount => ?_, h.file⟩
    · by_cases heq : other = call
      · simp [Clock.tick, heq]
      · simpa [Clock.tick, heq] using hcopied other
    · by_cases heq : other = call
      · simp only [setCall, if_pos heq, Phase.copied.injEq] at hother
        exact hother.symm
      · simp only [setCall, if_neg heq] at hother
        simp only [Clock.tick, if_neg heq] at hcount
        exact h.copy other data hother hcount
  · refine ⟨hcopied, hcopied call, fun other data' hother hcount => ?_,
      fun hcount => ?_⟩
    · by_cases heq : other = call
      · simp [setCall, heq] at hother
      · simp only [setCall, if_neg heq] at hother
        exact h.copy other data' hother hcount
    · rw [h.copy call data hdata hcount]
      exact Or.inr rfl

/-- A run keeps track of its copies. -/
theorem tracks_run {clock : Clock} {s s' : State} {steps : List Step}
    (h : Tracks json clock s) (hrun : run json s steps = some s') :
    Tracks json (steps.foldl Clock.tick clock) s' := by
  induction steps generalizing clock s with
  | nil =>
      cases hrun
      exact h
  | cons event steps ih =>
      rw [run, List.foldlM_cons, Option.bind_eq_bind,
        Option.bind_eq_some_iff] at hrun
      obtain ⟨next, hnext, hrest⟩ := hrun
      exact ih (tracks_step h hnext) hrest

/-- In every run of calls on one index in which the copy that was written last
was taken after the last update, the file is opened as the memory is. -/
theorem openIndex_run {start : IndexFile} {final : State} {steps : List Step}
    (hstart : Persisted json start)
    (hrun : run json (ofIndex start) steps = some final)
    (hlast : LastWriteCurrent steps) (hread : json.RoundTrips final.memory) :
    ∃ read, openIndex json final.file = .ok read ∧ read.Same final.memory :=
  Persisted.openIndex ((tracks_run (tracks_start hstart) hrun).file hlast) hread

end Steps

section Example

/-- Two calls whose copies are written in the order in which they were taken. -/
def orderedWrites : List Step :=
  [.update 0 .markInconsistent, .snapshot 0, .update 1 .markConsistent,
    .snapshot 1, .write 0, .write 1]

/-- The same calls with the older copy written last. -/
def reversedWrites : List Step :=
  [.update 0 .markInconsistent, .snapshot 0, .update 1 .markConsistent,
    .snapshot 1, .write 1, .write 0]

/-- Calls other than the two of a run are not made. -/
theorem allReturned_of_two {s : State} (h0 : s.calls 0 = .returned true)
    (h1 : s.calls 1 = .returned true)
    (hidle : ∀ call, call ≠ 0 → call ≠ 1 → s.calls call = .idle) :
    AllReturned s := by
  intro call
  by_cases hc0 : call = 0
  · rw [hc0, h0]
    exact Or.inr rfl
  · by_cases hc1 : call = 1
    · rw [hc1, h1]
      exact Or.inr rfl
    · exact Or.inl (hidle call hc0 hc1)

theorem exists_run_orderedWrites (json : IndexJson) :
    ∃ final, run json (ofIndex create) orderedWrites = some final ∧
      AllReturned final ∧ final.memory = emptyIndex true := by
  refine ⟨_, rfl, allReturned_of_two rfl rfl ?_, rfl⟩
  intro call h0 h1
  simp [setCall, ofIndex, h0, h1]

theorem exists_run_reversedWrites (json : IndexJson) :
    ∃ final, run json (ofIndex create) reversedWrites = some final ∧
      AllReturned final ∧ final.memory = emptyIndex true ∧
      final.file = some (json.toVec (emptyIndex false)) := by
  refine ⟨_, rfl, allReturned_of_two rfl rfl ?_, rfl, rfl⟩
  intro call h0 h1
  simp [setCall, ofIndex, h0, h1]

/-- Copies that are written in their order lose nothing. -/
theorem openIndex_orderedWrites :
    ∃ final, run emptyJson (ofIndex create) orderedWrites = some final ∧
      AllReturned final ∧ ∃ read, openIndex emptyJson final.file = .ok read ∧
        read.Same final.memory := by
  obtain ⟨final, hrun, hreturned, hmemory⟩ := exists_run_orderedWrites emptyJson
  refine ⟨final, hrun, hreturned, ?_⟩
  refine openIndex_run (Or.inl ⟨rfl, rfl⟩) hrun (by decide) ?_
  rw [hmemory]
  exact roundTrips_emptyJson true

/-- An older copy that is written last takes an update away. -/
theorem openIndex_reversedWrites :
    ∃ final, run emptyJson (ofIndex create) reversedWrites = some final ∧
      AllReturned final ∧ ¬ ∃ read, openIndex emptyJson final.file = .ok read ∧
        read.Same final.memory := by
  obtain ⟨final, hrun, hreturned, hmemory, hfile⟩ :=
    exists_run_reversedWrites emptyJson
  refine ⟨final, hrun, hreturned, ?_⟩
  rintro ⟨read, hopen, hsame⟩
  obtain ⟨old, hold, hold_same⟩ := openIndex_toVec (roundTrips_emptyJson false)
  rw [hfile, hold] at hopen
  cases hopen
  rw [hmemory] at hsame
  cases hold_same.consistent.symm.trans hsame.consistent

end Example

end IndexRace
end Badou
end HyperBackup
