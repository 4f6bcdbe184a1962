import HyperBackup.Badou.ChunkStore

/-!
# Uploads of chunks at the same time

An upload looks its chunk up in the index.  If the chunk is there, one more
reference is counted; if not, the file is written and the chunk is registered
with one reference.  The lookup and what follows are separate steps, and other
uploads can come in between.

Registering a chunk that another upload has registered in the meantime sets
its count back to one.  This is the only way to lose a reference: a run in
which it does not happen counts every upload.
-/

namespace HyperBackup
namespace Badou
namespace UploadRace

open Lib Lib.Program

section Model

variable (layout : BadouDataLayout) (repoId : RepositoryId)

/-- How far an upload has come: its chunk was found, or is missing, its file is
written, or it has returned. -/
inductive Phase
  | found
  | missing
  | stored
  | returned (ok : Bool)
deriving DecidableEq

/-- A call of `write_chunk`. -/
structure Call where
  chunkHash : ChunkHash
  encryptedData : Bytes
  phase : Phase
deriving DecidableEq

/-- The store and the calls in the order in which they began. -/
structure State where
  store : Store
  calls : List Call

/-- The steps of the calls; all but the first name the call by its number. -/
inductive Step
  | lookup (chunkHash : ChunkHash) (encryptedData : Bytes)
  | increment (call : Nat)
  | writeFile (call : Nat)
  | register (call : Nat)
deriving DecidableEq

def setPhase (s : State) (i : Nat) (call : Call) (phase : Phase) : State :=
  { s with calls := s.calls.set i { call with phase := phase } }

/-- The file of a chunk that is missing. -/
def writeFile (s : State) (call : Call) : State :=
  { s with
    store := s.store.writeFile (layout.bucketPath repoId call.chunkHash)
      call.encryptedData }

/-- The new entry of a chunk that was missing. -/
def register (s : State) (call : Call) : State :=
  { s with
    store := s.store.onIndex fun index =>
      index.register call.chunkHash.toHex (ChunkStore.newEntry layout repoId
        call.chunkHash call.encryptedData) }

/-- A step of a call, if it is the next one of that call. -/
def step (s : State) : Step → Option State
  | .lookup chunkHash encryptedData =>
      let phase : Phase :=
        if (s.store.index.lookup chunkHash.toHex).isSome then .found else .missing
      some { s with calls := s.calls ++ [⟨chunkHash, encryptedData, phase⟩] }
  | .increment i => do
      let call ← s.calls[i]?
      if call.phase ≠ .found then none
      else
        match s.store.index.incrementRefCount call.chunkHash.toHex with
        | .error _ => some (setPhase s i call (.returned false))
        | .ok (_, index) =>
            some (setPhase { s with store := s.store.onIndex fun _ => index } i
              call (.returned true))
  | .writeFile i => do
      let call ← s.calls[i]?
      if call.phase ≠ .missing then none
      else
        some (setPhase (writeFile layout repoId s call) i call .stored)
  | .register i => do
      let call ← s.calls[i]?
      if call.phase ≠ .stored then none
      else
        some (setPhase (register layout repoId s call) i call (.returned true))

def run (s : State) (steps : List Step) : Option State :=
  steps.foldlM (step layout repoId) s

/-- A store without chunks, before any call. -/
def start : State where
  store := .empty
  calls := []

def AllReturned (s : State) : Prop :=
  ∀ call ∈ s.calls, call.phase = .returned true

/-- The number of calls for a chunk. -/
def callsFor (s : State) (h : ChunkHash) : Nat :=
  s.calls.countP fun call => call.chunkHash = h

/-- The number of calls for a chunk that have returned. -/
def returnedFor (s : State) (h : ChunkHash) : Nat :=
  s.calls.countP fun call => call.chunkHash = h ∧ call.phase = .returned true

/-- A step does not register a chunk that is in the index. -/
def Fresh (s : State) : Step → Prop
  | .register i => ∀ call, s.calls[i]? = some call →
      s.store.index.lookup call.chunkHash.toHex = none
  | _ => True

/-- In a run no chunk is registered that is in the index: no other call has
registered it since it was looked up. -/
def FreshRun (s : State) : List Step → Prop
  | [] => True
  | event :: steps => Fresh s event ∧
      ∀ s', step layout repoId s event = some s' → FreshRun s' steps

end Model

section Steps

variable {layout : BadouDataLayout} {repoId : RepositoryId}

/-- What a step does. -/
theorem step_cases {s s' : State} {event : Step}
    (h : step layout repoId s event = some s') :
    (∃ chunkHash encryptedData, event = .lookup chunkHash encryptedData ∧
      s' = { s with calls := s.calls ++ [⟨chunkHash, encryptedData,
        if (s.store.index.lookup chunkHash.toHex).isSome then .found
        else .missing⟩] }) ∨
    (∃ i call, event = .increment i ∧ s.calls[i]? = some call ∧
      call.phase = .found ∧
      ((∃ e, s.store.index.incrementRefCount call.chunkHash.toHex = .error e ∧
          s' = setPhase s i call (.returned false)) ∨
        ∃ count index, s.store.index.incrementRefCount call.chunkHash.toHex =
            .ok (count, index) ∧
          s' = setPhase { s with store := s.store.onIndex fun _ => index } i
            call (.returned true))) ∨
    (∃ i call, event = .writeFile i ∧ s.calls[i]? = some call ∧
      call.phase = .missing ∧
      s' = setPhase (writeFile layout repoId s call) i call .stored) ∨
    (∃ i call, event = .register i ∧ s.calls[i]? = some call ∧
      call.phase = .stored ∧
      s' = setPhase (register layout repoId s call) i call
        (.returned true)) := by
  cases event with
  | lookup chunkHash encryptedData =>
      left
      exact ⟨chunkHash, encryptedData, rfl, (Option.some.inj h).symm⟩
  | increment i =>
      right; left
      simp only [step, Option.bind_eq_bind, Option.bind_eq_some_iff] at h
      obtain ⟨call, hcall, h⟩ := h
      by_cases hphase : call.phase = .found
      · rw [if_neg (not_not.mpr hphase)] at h
        refine ⟨i, call, rfl, hcall, hphase, ?_⟩
        cases hcount : s.store.index.incrementRefCount call.chunkHash.toHex with
        | error e =>
            rw [hcount] at h
            exact Or.inl ⟨e, rfl, (Option.some.inj h).symm⟩
        | ok result =>
            rw [hcount] at h
            exact Or.inr ⟨result.1, result.2, rfl, (Option.some.inj h).symm⟩
      · rw [if_pos hphase] at h
        cases h
  | writeFile i =>
      right; right; left
      simp only [step, Option.bind_eq_bind, Option.bind_eq_some_iff] at h
      obtain ⟨call, hcall, h⟩ := h
      by_cases hphase : call.phase = .missing
      · rw [if_neg (not_not.mpr hphase)] at h
        exact ⟨i, call, rfl, hcall, hphase, (Option.some.inj h).symm⟩
      · rw [if_pos hphase] at h
        cases h
  | register i =>
      right; right; right
      simp only [step, Option.bind_eq_bind, Option.bind_eq_some_iff] at h
      obtain ⟨call, hcall, h⟩ := h
      by_cases hphase : call.phase = .stored
      · rw [if_neg (not_not.mpr hphase)] at h
        exact ⟨i, call, rfl, hcall, hphase, (Option.some.inj h).symm⟩
      · rw [if_pos hphase] at h
        cases h

/-- A call that goes on is counted once it has returned, whatever happens to
the store. -/
theorem returnedFor_setPhase {s t : State} {i : Nat} {call : Call}
    (hcalls : t.calls = s.calls) (hcall : s.calls[i]? = some call)
    (hphase : call.phase ≠ .returned true) (phase : Phase) (h : ChunkHash) :
    returnedFor (setPhase t i call phase) h = returnedFor s h +
      if call.chunkHash = h ∧ phase = .returned true then 1 else 0 := by
  obtain ⟨hi, rfl⟩ := List.getElem?_eq_some_iff.mp hcall
  simp [returnedFor, setPhase, hcalls, List.countP_set hi, hphase]

theorem returnedFor_lookup (s : State) (call : Call)
    (hphase : call.phase ≠ .returned true) (h : ChunkHash) :
    returnedFor { s with calls := s.calls ++ [call] } h = returnedFor s h := by
  simp [returnedFor, List.countP_append, hphase]

/-- A chunk is in the index once a call for it has returned, a chunk that was
found stays in the index, and no call fails. -/
structure Sound (s : State) : Prop where
  present : ∀ h : ChunkHash, (s.store.index.lookup h.toHex).isSome ↔
    0 < returnedFor s h
  found : ∀ call ∈ s.calls, call.phase = .found →
    (s.store.index.lookup call.chunkHash.toHex).isSome
  noError : ∀ call ∈ s.calls, call.phase ≠ .returned false

/-- What a step does to the index and to the number of calls that have
returned: nothing, or it counts a chunk, or it registers one. -/
inductive Effect (layout : BadouDataLayout) (repoId : RepositoryId)
    (s : State) (event : Step) (s' : State) : Prop
  | quiet (hindex : s'.store.index = s.store.index)
      (hreturned : ∀ h, returnedFor s' h = returnedFor s h)
  | counted (call : Call) (entry : ChunkIndexEntry)
      (hentry : s.store.index.lookup call.chunkHash.toHex = some entry)
      (hindex : s'.store.index =
        s.store.index.register call.chunkHash.toHex entry.incremented)
      (hreturned : ∀ h, returnedFor s' h =
        returnedFor s h + if call.chunkHash = h then 1 else 0)
  | registered (i : Nat) (call : Call) (hevent : event = .register i)
      (hcall : s.calls[i]? = some call)
      (hindex : s'.store.index = s.store.index.register call.chunkHash.toHex
        (ChunkStore.newEntry layout repoId call.chunkHash call.encryptedData))
      (hreturned : ∀ h, returnedFor s' h =
        returnedFor s h + if call.chunkHash = h then 1 else 0)

theorem effect_of_step {s s' : State} {event : Step} (hsound : Sound s)
    (h : step layout repoId s event = some s') :
    Effect layout repoId s event s' := by
  rcases step_cases h with ⟨chunkHash, encryptedData, rfl, rfl⟩ |
    ⟨i, call, rfl, hcall, hphase, ⟨e, herror, rfl⟩ | ⟨count, index, hok, rfl⟩⟩ |
    ⟨i, call, rfl, hcall, hphase, rfl⟩ | ⟨i, call, rfl, hcall, hphase, rfl⟩
  · refine .quiet rfl (returnedFor_lookup s _ ?_)
    split
    · simp
    · simp
  · obtain ⟨entry, hentry⟩ := Option.isSome_iff_exists.mp
      (hsound.found call (List.mem_of_getElem? hcall) hphase)
    rw [BadouIndex.incrementRefCount_of_lookup hentry] at herror
    cases herror
  · obtain ⟨entry, hentry⟩ := Option.isSome_iff_exists.mp
      (hsound.found call (List.mem_of_getElem? hcall) hphase)
    rw [BadouIndex.incrementRefCount_of_lookup hentry] at hok
    cases hok
    refine .counted call entry hentry rfl fun h => ?_
    refine (returnedFor_setPhase rfl hcall (by simp [hphase]) _ h).trans ?_
    simp
  · refine .quiet rfl fun h => ?_
    refine (returnedFor_setPhase rfl hcall (by simp [hphase]) _ h).trans ?_
    simp
  · refine .registered i call rfl hcall rfl fun h => ?_
    refine (returnedFor_setPhase rfl hcall (by simp [hphase]) _ h).trans ?_
    simp

theorem sound_start : Sound start where
  present := by
    intro h
    simp [start, Store.empty, returnedFor]
  found := by
    intro call hcall
    cases hcall
  noError := by
    intro call hcall
    cases hcall

/-- The index never loses a chunk. -/
theorem Effect.isSome_lookup {s s' : State} {event : Step}
    (heffect : Effect layout repoId s event s') {k : String}
    (h : (s.store.index.lookup k).isSome) :
    (s'.store.index.lookup k).isSome := by
  cases heffect with
  | quiet hindex hreturned =>
      rwa [hindex]
  | counted call entry hentry hindex hreturned =>
      rw [hindex, BadouIndex.lookup_register]
      by_cases hk : k = call.chunkHash.toHex
      · simp [hk]
      · rwa [if_neg hk]
  | registered i call hevent hcall hindex hreturned =>
      rw [hindex, BadouIndex.lookup_register]
      by_cases hk : k = call.chunkHash.toHex
      · simp [hk]
      · rwa [if_neg hk]

/-- Registering a chunk for a call that returns. -/
theorem present_register {s s' : State} {call : Call} {entry : ChunkIndexEntry}
    (hsound : Sound s)
    (hindex : s'.store.index =
      s.store.index.register call.chunkHash.toHex entry)
    (hreturned : ∀ h, returnedFor s' h =
      returnedFor s h + if call.chunkHash = h then 1 else 0) (h : ChunkHash) :
    (s'.store.index.lookup h.toHex).isSome ↔ 0 < returnedFor s' h := by
  rw [hindex, hreturned, BadouIndex.lookup_register]
  by_cases hh : h = call.chunkHash
  · simp [hh]
  · have hne : call.chunkHash ≠ h := fun heq => hh heq.symm
    simp [hh, hne, hsound.present]

theorem Effect.present {s s' : State} {event : Step} (hsound : Sound s)
    (heffect : Effect layout repoId s event s') (h : ChunkHash) :
    (s'.store.index.lookup h.toHex).isSome ↔ 0 < returnedFor s' h := by
  cases heffect with
  | quiet hindex hreturned =>
      rw [hindex, hreturned]
      exact hsound.present h
  | counted call entry hentry hindex hreturned =>
      exact present_register hsound hindex hreturned h
  | registered i call hevent hcall hindex hreturned =>
      exact present_register hsound hindex hreturned h

/-- The phases of the calls after a step: a call is as before, or it has just
been made, or it goes on. -/
theorem mem_calls_of_step {s s' : State} {event : Step} (hsound : Sound s)
    (h : step layout repoId s event = some s') {call : Call}
    (hmem : call ∈ s'.calls) :
    call ∈ s.calls ∨ call.phase = .missing ∨ call.phase = .stored ∨
      call.phase = .returned true ∨
      (call.phase = .found ∧
        (s.store.index.lookup call.chunkHash.toHex).isSome) := by
  rcases step_cases h with ⟨chunkHash, encryptedData, rfl, rfl⟩ |
    ⟨i, other, rfl, hother, hphase, ⟨e, herror, rfl⟩ | ⟨count, index, hok, rfl⟩⟩ |
    ⟨i, other, rfl, hother, hphase, rfl⟩ | ⟨i, other, rfl, hother, hphase, rfl⟩
  · rcases List.mem_append.mp hmem with hold | hnew
    · exact Or.inl hold
    · rw [List.mem_singleton] at hnew
      subst hnew
      by_cases hknown : (s.store.index.lookup chunkHash.toHex).isSome
      · simp [hknown]
      · simp [hknown]
  · obtain ⟨entry, hentry⟩ := Option.isSome_iff_exists.mp
      (hsound.found other (List.mem_of_getElem? hother) hphase)
    rw [BadouIndex.incrementRefCount_of_lookup hentry] at herror
    cases herror
  · rcases List.mem_or_eq_of_mem_set hmem with hold | rfl
    · exact Or.inl hold
    · simp
  · rcases List.mem_or_eq_of_mem_set hmem with hold | rfl
    · exact Or.inl hold
    · simp
  · rcases List.mem_or_eq_of_mem_set hmem with hold | rfl
    · exact Or.inl hold
    · simp

theorem sound_step {s s' : State} {event : Step} (hsound : Sound s)
    (h : step layout repoId s event = some s') : Sound s' := by
  have heffect := effect_of_step hsound h
  refine ⟨heffect.present hsound, ?_, ?_⟩
  · intro call hmem hphase
    rcases mem_calls_of_step hsound h hmem with hold | hnew | hnew | hnew |
      ⟨-, hknown⟩
    · exact heffect.isSome_lookup (hsound.found call hold hphase)
    · simp [hphase] at hnew
    · simp [hphase] at hnew
    · simp [hphase] at hnew
    · exact heffect.isSome_lookup hknown
  · intro call hmem hphase
    rcases mem_calls_of_step hsound h hmem with hold | hnew | hnew | hnew |
      ⟨hnew, -⟩
    · exact hsound.noError call hold hphase
    · simp [hphase] at hnew
    · simp [hphase] at hnew
    · simp [hphase] at hnew
    · simp [hphase] at hnew

end Steps

section Counts

variable {layout : BadouDataLayout} {repoId : RepositoryId}
variable {s s' : State} {event : Step}

/-- Every call that has returned is counted. -/
def Counted (s : State) : Prop :=
  ∀ h, ChunkStore.refCount s.store h = UInt32.ofNat (returnedFor s h)

/-- A reference to the chunk has been lost. -/
def Lost (s : State) (h : ChunkHash) : Prop :=
  (ChunkStore.refCount s.store h).toNat < returnedFor s h

/-- The counts after an entry has been replaced. -/
theorem refCount_of_register {h k : ChunkHash} {entry : ChunkIndexEntry}
    (hindex : s'.store.index = s.store.index.register k.toHex entry) :
    ChunkStore.refCount s'.store h =
      if h = k then entry.refCount else ChunkStore.refCount s.store h := by
  unfold ChunkStore.refCount
  rw [hindex, BadouIndex.lookup_register]
  by_cases hh : h = k
  · simp [hh]
  · simp [hh]

theorem refCount_of_lookup {h : ChunkHash} {entry : ChunkIndexEntry}
    (hentry : s.store.index.lookup h.toHex = some entry) :
    ChunkStore.refCount s.store h = entry.refCount := by
  simp [ChunkStore.refCount, hentry]

theorem refCount_of_index (hindex : s'.store.index = s.store.index)
    (h : ChunkHash) :
    ChunkStore.refCount s'.store h = ChunkStore.refCount s.store h := by
  unfold ChunkStore.refCount
  rw [hindex]

/-- A step that registers nothing twice counts the call that returns. -/
theorem counted_step (hsound : Sound s) (hcounted : Counted s)
    (hfresh : Fresh s event) (hstep : step layout repoId s event = some s') :
    Counted s' := by
  intro h
  have hbefore := hcounted h
  cases effect_of_step hsound hstep with
  | quiet hindex hreturned =>
      rw [refCount_of_index hindex, hreturned, hbefore]
  | counted call entry hentry hindex hreturned =>
      rw [refCount_of_register hindex, hreturned]
      by_cases hh : h = call.chunkHash
      · subst hh
        rw [refCount_of_lookup hentry] at hbefore
        rw [if_pos rfl, if_pos rfl, UInt32.ofNat_add, ← hbefore]
        rfl
      · rw [if_neg hh, if_neg fun heq => hh heq.symm, hbefore, Nat.add_zero]
  | registered i call hevent hcall hindex hreturned =>
      rw [refCount_of_register hindex, hreturned]
      by_cases hh : h = call.chunkHash
      · subst hh
        subst hevent
        have hnone := hfresh call hcall
        have hzero : returnedFor s call.chunkHash = 0 := by
          have hpresent := hsound.present call.chunkHash
          rw [hnone] at hpresent
          simpa using hpresent
        rw [if_pos rfl, if_pos rfl, hzero]
        rfl
      · rw [if_neg hh, if_neg fun heq => hh heq.symm, hbefore, Nat.add_zero]

/-- Registering a chunk a second time loses references. -/
theorem lost_of_not_fresh (hsound : Sound s) (hfresh : ¬ Fresh s event)
    (hstep : step layout repoId s event = some s') : ∃ h, Lost s' h := by
  obtain ⟨i, rfl⟩ : ∃ i, event = .register i := by
    cases event with
    | register i =>
        exact ⟨i, rfl⟩
    | _ => exact absurd trivial hfresh
  rcases step_cases hstep with ⟨_, _, hevent, -⟩ | ⟨_, _, hevent, -⟩ |
    ⟨_, _, hevent, -⟩ | ⟨j, call, hevent, hcall, hphase, rfl⟩
  · cases hevent
  · cases hevent
  · cases hevent
  · cases hevent
    refine ⟨call.chunkHash, ?_⟩
    have hpresent : 0 < returnedFor s call.chunkHash := by
      rw [← hsound.present, Option.isSome_iff_ne_none]
      intro hnone
      refine hfresh fun other hother => ?_
      rw [hcall] at hother
      cases hother
      exact hnone
    have hcount : ChunkStore.refCount (setPhase (register layout repoId s call) i
        call (.returned true)).store call.chunkHash = 1 :=
      (refCount_of_register (s := s) rfl).trans (if_pos rfl)
    have hreturned : returnedFor (setPhase (register layout repoId s call) i call
        (.returned true)) call.chunkHash = returnedFor s call.chunkHash + 1 :=
      (returnedFor_setPhase rfl hcall (by simp [hphase]) _ _).trans (by simp)
    rw [Lost, hcount, hreturned, UInt32.toNat_one]
    omega

/-- What is lost stays lost. -/
theorem lost_step {h : ChunkHash} (hsound : Sound s) (hlost : Lost s h)
    (hstep : step layout repoId s event = some s') : Lost s' h := by
  unfold Lost at hlost ⊢
  cases effect_of_step hsound hstep with
  | quiet hindex hreturned =>
      rwa [refCount_of_index hindex, hreturned]
  | counted call entry hentry hindex hreturned =>
      rw [refCount_of_register hindex, hreturned]
      by_cases hh : h = call.chunkHash
      · subst hh
        rw [refCount_of_lookup hentry] at hlost
        have hle : entry.incremented.refCount.toNat ≤ entry.refCount.toNat + 1 := by
          rw [ChunkIndexEntry.incremented, UInt32.toNat_add]
          exact Nat.mod_le _ _
        rw [if_pos rfl, if_pos rfl]
        omega
      · rw [if_neg hh]
        omega
  | registered i call hevent hcall hindex hreturned =>
      rw [refCount_of_register hindex, hreturned]
      by_cases hh : h = call.chunkHash
      · subst hh
        have hone : (ChunkStore.newEntry layout repoId call.chunkHash
            call.encryptedData).refCount.toNat = 1 := rfl
        rw [if_pos rfl, if_pos rfl, hone]
        omega
      · rw [if_neg hh]
        omega

end Counts

section Runs

variable {layout : BadouDataLayout} {repoId : RepositoryId}
variable {s s' : State} {steps : List Step}

theorem run_cons_eq_some {event : Step}
    (hrun : run layout repoId s (event :: steps) = some s') :
    ∃ next, step layout repoId s event = some next ∧
      run layout repoId next steps = some s' := by
  rwa [run, List.foldlM_cons, Option.bind_eq_bind, Option.bind_eq_some_iff] at hrun

theorem lost_run {h : ChunkHash} (hsound : Sound s) (hlost : Lost s h)
    (hrun : run layout repoId s steps = some s') : Lost s' h := by
  induction steps generalizing s with
  | nil =>
      cases hrun
      exact hlost
  | cons event steps ih =>
      obtain ⟨next, hstep, hrest⟩ := run_cons_eq_some hrun
      exact ih (sound_step hsound hstep) (lost_step hsound hlost hstep) hrest

/-- A run counts every call if no chunk is registered twice, and loses a
reference otherwise. -/
theorem counted_or_lost (hsound : Sound s) (hcounted : Counted s)
    (hrun : run layout repoId s steps = some s') :
    (FreshRun layout repoId s steps ∧ Counted s') ∨
      (¬ FreshRun layout repoId s steps ∧ ∃ h, Lost s' h) := by
  induction steps generalizing s with
  | nil =>
      cases hrun
      exact Or.inl ⟨trivial, hcounted⟩
  | cons event steps ih =>
      obtain ⟨next, hstep, hrest⟩ := run_cons_eq_some hrun
      have hsound' := sound_step hsound hstep
      by_cases hfresh : Fresh s event
      · rcases ih hsound' (counted_step hsound hcounted hfresh hstep) hrest with
          ⟨hrun', hall⟩ | ⟨hrun', hlost⟩
        · left
          refine ⟨⟨hfresh, fun other hother => ?_⟩, hall⟩
          rw [hstep] at hother
          cases hother
          exact hrun'
        · right
          exact ⟨fun h => hrun' (h.2 next hstep), hlost⟩
      · right
        obtain ⟨h, hlost⟩ := lost_of_not_fresh hsound hfresh hstep
        exact ⟨fun hall => hfresh hall.1, h, lost_run hsound' hlost hrest⟩

theorem returnedFor_of_allReturned (hdone : AllReturned s) (h : ChunkHash) :
    returnedFor s h = callsFor s h := by
  unfold returnedFor callsFor
  refine List.countP_congr ?_
  intro call hmem
  simp [hdone call hmem]

/-- When all calls of a run have returned, the reference count of every chunk is
the number of its uploads, exactly if in the run no chunk is registered that
another call has registered since the lookup, and no chunk has more uploads
than fit into 32 bits. -/
theorem refCount_eq_callsFor_iff {final : State}
    (hrun : run layout repoId start steps = some final)
    (hdone : AllReturned final) :
    (∀ h, (ChunkStore.refCount final.store h).toNat = callsFor final h) ↔
      FreshRun layout repoId start steps ∧ ∀ h, callsFor final h < 2 ^ 32 := by
  have hstart : Counted start := fun _ => rfl
  rcases counted_or_lost sound_start hstart hrun with ⟨hfresh, hcounted⟩ |
    ⟨hfresh, h, hlost⟩
  · have hcount : ∀ h, ChunkStore.refCount final.store h =
        UInt32.ofNat (callsFor final h) := by
      intro h
      rw [hcounted h, returnedFor_of_allReturned hdone]
    constructor
    · intro heq
      refine ⟨hfresh, fun h => ?_⟩
      rw [← heq h]
      exact UInt32.toNat_lt _
    · rintro ⟨-, hbound⟩ h
      rw [hcount h]
      exact UInt32.toNat_ofNat_of_lt' (hbound h)
  · refine iff_of_false ?_ fun hboth => hfresh hboth.1
    intro heq
    rw [Lost, heq h, returnedFor_of_allReturned hdone] at hlost
    exact Nat.lt_irrefl _ hlost

/-- The steps of a call that nothing comes in between. -/
def stepsOf (s : State) (h : ChunkHash) (data : Bytes) : List Step :=
  if ChunkStore.chunkExists s.store h then
    [.lookup h data, .increment s.calls.length]
  else [.lookup h data, .writeFile s.calls.length, .register s.calls.length]

/-- A call that nothing comes in between is `write_chunk`. -/
theorem run_stepsOf (layout : BadouDataLayout) (repoId : RepositoryId) (s : State)
    (h : ChunkHash) (data : Bytes) :
    run layout repoId s (stepsOf s h data) = some
      { store := stateAfter (ChunkStore.writeChunk layout repoId h data) s.store
        calls := s.calls ++ [⟨h, data, .returned true⟩] } := by
  unfold stepsOf ChunkStore.chunkExists
  cases hentry : s.store.index.lookup h.toHex with
  | some entry =>
      simp [run, step, hentry, stateAfter, ChunkStore.run_writeChunk_known hentry,
        BadouIndex.incrementRefCount_of_lookup hentry, setPhase, Store.onIndex]
  | none =>
      simp [run, step, hentry, stateAfter, ChunkStore.run_writeChunk_new hentry,
        setPhase, writeFile, register]

end Runs

section Example

def exampleLayout : BadouDataLayout where
  dataRoot := "/var/lib/badou"

def exampleRepo : RepositoryId where
  uuid := 0x6f9619ff8b864d01b42d00cf4fc964ff

/-- Two uploads of a chunk, one after the other. -/
def inTurn : List Step :=
  [.lookup .ofEmpty [], .writeFile 0, .register 0, .lookup .ofEmpty [],
    .increment 1]

/-- Two uploads of a chunk that both find it missing. -/
def overlapping : List Step :=
  [.lookup .ofEmpty [], .lookup .ofEmpty [], .writeFile 0, .register 0,
    .writeFile 1, .register 1]

theorem exists_run_inTurn :
    ∃ final, run exampleLayout exampleRepo start inTurn = some final ∧
      final.calls = List.replicate 2 ⟨.ofEmpty, [], .returned true⟩ := by
  refine ⟨_, rfl, rfl⟩

theorem exists_run_overlapping :
    ∃ final, run exampleLayout exampleRepo start overlapping = some final ∧
      final.calls = List.replicate 2 ⟨.ofEmpty, [], .returned true⟩ ∧
      ChunkStore.refCount final.store .ofEmpty = 1 := by
  refine ⟨_, rfl, rfl, rfl⟩

theorem freshRun_inTurn : FreshRun exampleLayout exampleRepo start inTurn := by
  refine ⟨trivial, fun s₁ h₁ => ?_⟩
  cases h₁
  refine ⟨trivial, fun s₂ h₂ => ?_⟩
  cases h₂
  refine ⟨fun call hcall => ?_, fun s₃ h₃ => ?_⟩
  · cases hcall
    rfl
  cases h₃
  refine ⟨trivial, fun s₄ h₄ => ?_⟩
  cases h₄
  exact ⟨trivial, fun _ _ => trivial⟩

theorem allReturned_replicate {s : State} {n : Nat} {h : ChunkHash} {data : Bytes}
    (hcalls : s.calls = List.replicate n ⟨h, data, .returned true⟩) :
    AllReturned s := by
  intro call hmem
  rw [hcalls] at hmem
  rw [List.eq_of_mem_replicate hmem]

theorem callsFor_replicate {s : State} {n : Nat} {h : ChunkHash} {data : Bytes}
    (hcalls : s.calls = List.replicate n ⟨h, data, .returned true⟩)
    (h' : ChunkHash) : callsFor s h' = if h = h' then n else 0 := by
  rw [callsFor, hcalls, List.countP_replicate]
  simp

/-- Uploads one after the other are all counted. -/
theorem refCount_inTurn :
    ∃ final, run exampleLayout exampleRepo start inTurn = some final ∧
      AllReturned final ∧
      ∀ h, (ChunkStore.refCount final.store h).toNat = callsFor final h := by
  obtain ⟨final, hrun, hcalls⟩ := exists_run_inTurn
  have hdone := allReturned_replicate hcalls
  refine ⟨final, hrun, hdone, ?_⟩
  refine (refCount_eq_callsFor_iff hrun hdone).mpr ⟨freshRun_inTurn, ?_⟩
  intro h
  rw [callsFor_replicate hcalls]
  split
  · decide
  · decide

/-- Of two uploads that both find the chunk missing only one is counted. -/
theorem refCount_overlapping :
    ∃ final, run exampleLayout exampleRepo start overlapping = some final ∧
      AllReturned final ∧
      (ChunkStore.refCount final.store .ofEmpty).toNat = 1 ∧
      callsFor final .ofEmpty = 2 := by
  obtain ⟨final, hrun, hcalls, hcount⟩ := exists_run_overlapping
  refine ⟨final, hrun, allReturned_replicate hcalls, ?_, ?_⟩
  · rw [hcount]
    rfl
  · rw [callsFor_replicate hcalls, if_pos rfl]

end Example

end UploadRace
end Badou
end HyperBackup
