import HyperBackup.Domain
import HyperBackup.Lib.HashMap
import HyperBackup.Lib.Program

/-!
# Versions of a BaDou repository

The version table of the server: every version with its life-cycle status,
the versions of each repository in order of creation, and the last sequence
number given out per repository.  Fresh identifiers and the clock are
arguments of the operations that use them.
-/

namespace HyperBackup
namespace Badou

open Lib Lib.Program

inductive VersionStatus
  | created
  | writing
  | verifying
  | committing
  | sealed
  | expired
  | deleted
  | gcPending
  | purged
deriving DecidableEq

def VersionStatus.canTransitionTo : VersionStatus → VersionStatus → Bool
  | .created, .writing => true
  | .writing, .verifying => true
  | .writing, .created => true
  | .verifying, .committing => true
  | .verifying, .writing => true
  | .committing, .sealed => true
  | .sealed, .expired => true
  | .sealed, .deleted => true
  | .expired, .deleted => true
  | .expired, .gcPending => true
  | .deleted, .gcPending => true
  | .gcPending, .purged => true
  | _, _ => false

/-- The name of a status as debug output shows it. -/
def VersionStatus.debug : VersionStatus → String
  | .created => "Created"
  | .writing => "Writing"
  | .verifying => "Verifying"
  | .committing => "Committing"
  | .sealed => "Sealed"
  | .expired => "Expired"
  | .deleted => "Deleted"
  | .gcPending => "GcPending"
  | .purged => "Purged"

structure Version where
  versionId : VersionId
  repoId : RepositoryId
  snapshotId : Uuid
  parentVersionId : Option VersionId
  sequence : UInt64
  status : VersionStatus
  createdAt : DateTime
  sealedAt : Option DateTime
  immutableUntil : Option DateTime
deriving DecidableEq

inductive VersionOpsError
  | notFound (versionId : VersionId)
  | invalidTransition (source target : VersionStatus)
  | parentNotFound (versionId : VersionId)
deriving DecidableEq

def VersionOpsError.message : VersionOpsError → String
  | .notFound v => "version not found: " ++ v.debug
  | .invalidTransition a b =>
      "invalid state transition: " ++ a.debug ++ " -> " ++ b.debug
  | .parentNotFound v => "parent version not found: " ++ v.debug

structure VersionOps where
  versions : HashMap VersionId Version
  repoVersions : HashMap RepositoryId (List VersionId)
  sequences : HashMap RepositoryId UInt64

namespace VersionOps

def new : VersionOps :=
  { versions := ∅, repoVersions := ∅, sequences := ∅ }

/-- Create a version under the given fresh identifiers. -/
def createVersion
    (now : DateTime) (freshVersion : VersionId) (freshSnapshot : Uuid)
    (repoId : RepositoryId) (parentVersionId : Option VersionId) :
    EStateM VersionOpsError VersionOps Version := do
  let ops ← get
  match parentVersionId with
  | some parent =>
      if (ops.versions.lookup parent).isNone then
        throw (.parentNotFound parent)
  | none => pure ()
  let seq := (ops.sequences.lookup repoId).getD 0 + 1
  let version : Version :=
    { versionId := freshVersion
      repoId := repoId
      snapshotId := freshSnapshot
      parentVersionId := parentVersionId
      sequence := seq
      status := .created
      createdAt := now
      sealedAt := none
      immutableUntil := none }
  set {
    versions := ops.versions.insert freshVersion version
    repoVersions := ops.repoVersions.insert repoId
      ((ops.repoVersions.lookup repoId).getD [] ++ [freshVersion])
    sequences := ops.sequences.insert repoId seq : VersionOps }
  return version

def getVersion (ops : VersionOps) (versionId : VersionId) :
    Except VersionOpsError Version :=
  match ops.versions.lookup versionId with
  | none => .error (.notFound versionId)
  | some version => .ok version

def transition (versionId : VersionId) (target : VersionStatus) :
    EStateM VersionOpsError VersionOps Version := do
  let ops ← get
  match ops.versions.lookup versionId with
  | none => throw (.notFound versionId)
  | some version =>
      if ¬ version.status.canTransitionTo target then
        throw (.invalidTransition version.status target)
      let version := { version with status := target }
      set { ops with versions := ops.versions.insert versionId version }
      return version

def startWriting (versionId : VersionId) :
    EStateM VersionOpsError VersionOps Version :=
  transition versionId .writing

section Specs

variable {ops : VersionOps} {v : VersionId} {version : Version}

/-- A transition the table allows changes the status of that version only. -/
theorem run_transition
    {target : VersionStatus} (hv : ops.versions.lookup v = some version)
    (hok : version.status.canTransitionTo target = true) :
    (transition v target).run ops =
      .ok { version with status := target }
        { ops with versions :=
            ops.versions.insert v { version with status := target } } := by
  simp only [transition, EStateM.run_bind, EStateM.run_get, hv, hok,
    not_true_eq_false, if_false, EStateM.run_pure, EStateM.run_set]

/-- A version whose parent, if any, exists is created; no other is touched. -/
theorem run_createVersion
    {parent : Option VersionId}
    (hparent : ∀ p ∈ parent, (ops.versions.lookup p).isSome)
    (now : DateTime) (fresh : VersionId) (snap : Uuid)
    (repoId : RepositoryId) :
    ∃ version ops',
      (createVersion now fresh snap repoId parent).run ops =
        .ok version ops' ∧
      ops'.versions = ops.versions.insert fresh version ∧
      version.status = .created ∧ version.snapshotId = snap ∧
      version.immutableUntil = none := by
  cases parent with
  | none =>
      exact ⟨_, _, rfl, rfl, rfl, rfl, rfl⟩
  | some p =>
      obtain ⟨q, hq⟩ := Option.isSome_iff_exists.mp (hparent p rfl)
      simp only [createVersion, EStateM.run_bind, EStateM.run_get, hq,
        Option.isNone_some, Bool.false_eq_true, if_false, EStateM.run_pure,
        EStateM.run_set]
      exact ⟨_, _, rfl, rfl, rfl, rfl, rfl⟩

theorem run_createVersion_error
    {p : VersionId} (hp : ops.versions.lookup p = none)
    (now : DateTime) (fresh : VersionId) (snap : Uuid)
    (repoId : RepositoryId) :
    (createVersion now fresh snap repoId (some p)).run ops =
      .error (.parentNotFound p) ops := by
  simp only [createVersion, EStateM.run_bind, EStateM.run_get, hp,
    Option.isNone_none, if_true]
  rfl

theorem isSome_lookup_createVersion
    (now : DateTime) (fresh w : VersionId) (snap : Uuid)
    (repoId : RepositoryId) :
    ((stateAfter (createVersion now fresh snap repoId none)
      ops).versions.lookup w).isSome ↔
      w = fresh ∨ (ops.versions.lookup w).isSome := by
  have hparent : ∀ p ∈ (none : Option VersionId),
      (ops.versions.lookup p).isSome := by
    simp
  obtain ⟨version, ops', hrun, hversions, -⟩ :=
    run_createVersion hparent now fresh snap repoId
  simp only [stateAfter, hrun, hversions, HashMap.lookup_insert_of]
  by_cases hw : w = fresh
  · simp [hw]
  · simp [hw]

/-- A transition changes the status of its version, or nothing. -/
theorem stateAfter_transition_cases (v : VersionId) (target : VersionStatus)
    (ops : VersionOps) :
    stateAfter (transition v target) ops = ops ∨
      ∃ version, ops.versions.lookup v = some version ∧
        version.status.canTransitionTo target = true ∧
        stateAfter (transition v target) ops =
          { ops with versions :=
              ops.versions.insert v { version with status := target } } := by
  cases hv : ops.versions.lookup v with
  | none =>
      left
      simp only [transition, stateAfter, EStateM.run_bind, EStateM.run_get, hv]
      rfl
  | some version =>
      by_cases hok : version.status.canTransitionTo target = true
      · exact Or.inr ⟨version, rfl, hok,
          by simp only [stateAfter, run_transition hv hok]⟩
      · left
        simp only [transition, stateAfter, EStateM.run_bind, EStateM.run_get, hv,
          hok]
        rfl

/-- Creating a version inserts it, or changes nothing. -/
theorem stateAfter_createVersion_cases
    (now : DateTime) (fresh : VersionId) (snap : Uuid) (repoId : RepositoryId)
    (parent : Option VersionId) (ops : VersionOps) :
    stateAfter (createVersion now fresh snap repoId parent) ops = ops ∨
      ∃ version : Version, version.versionId = fresh ∧
        version.snapshotId = snap ∧ version.status = .created ∧
        (stateAfter (createVersion now fresh snap repoId parent) ops).versions =
          ops.versions.insert fresh version := by
  cases parent with
  | none =>
      exact Or.inr ⟨_, rfl, rfl, rfl, rfl⟩
  | some p =>
      cases hp : ops.versions.lookup p with
      | none =>
          left
          simp only [stateAfter, run_createVersion_error hp]
      | some q =>
          right
          simp only [stateAfter, createVersion, EStateM.run_bind,
            EStateM.run_get, hp, Option.isNone_some, Bool.false_eq_true, if_false,
            EStateM.run_pure, EStateM.run_set]
          exact ⟨_, rfl, rfl, rfl, rfl⟩

/-- A version that was created is in the table, the others are as before. -/
theorem versions_of_createVersion_ok
    {now : DateTime} {fresh : VersionId} {snap : Uuid} {repoId : RepositoryId}
    {parent : Option VersionId} {ops' : VersionOps}
    (hrun : (createVersion now fresh snap repoId parent).run ops =
      .ok version ops') :
    ops'.versions = ops.versions.insert fresh version := by
  have hparent : ∀ p ∈ parent, (ops.versions.lookup p).isSome := by
    rintro p rfl
    rw [Option.isSome_iff_ne_none]
    intro hp
    rw [run_createVersion_error hp] at hrun
    cases hrun
  obtain ⟨version', ops'', hrun', hversions, -⟩ :=
    run_createVersion hparent now fresh snap repoId
  rw [hrun] at hrun'
  cases hrun'
  exact hversions

/-- What is said of the versions apart from their status. -/
theorem preserves_transition
    {Q : VersionId → Version → Prop}
    (hQ : ∀ w version status, Q w version → Q w { version with status := status })
    (v : VersionId) (target : VersionStatus) :
    Preserves (transition v target) fun ops =>
      ∀ w version, ops.versions.lookup w = some version → Q w version := by
  intro ops h
  obtain hsame | ⟨version, hversion, -, hstate⟩ :=
    stateAfter_transition_cases v target ops
  · rw [hsame]
    exact h
  · intro w version' hlookup
    rw [hstate] at hlookup
    rcases HashMap.lookup_insert_eq_some.mp hlookup with ⟨rfl, rfl⟩ | ⟨-, hold⟩
    · exact hQ _ _ _ (h w version hversion)
    · exact h w version' hold

theorem preserves_createVersion
    {Q : VersionId → Version → Prop} {fresh : VersionId} {snap : Uuid}
    (hQ : ∀ version : Version, version.versionId = fresh →
      version.snapshotId = snap → Q fresh version)
    (now : DateTime) (repoId : RepositoryId) (parent : Option VersionId) :
    Preserves (createVersion now fresh snap repoId parent) fun ops =>
      ∀ w version, ops.versions.lookup w = some version → Q w version := by
  intro ops h
  obtain hsame | ⟨version, hid, hsnap, -, hstate⟩ :=
    stateAfter_createVersion_cases now fresh snap repoId parent ops
  · rw [hsame]
    exact h
  · intro w version' hlookup
    rw [hstate] at hlookup
    rcases HashMap.lookup_insert_eq_some.mp hlookup with ⟨rfl, rfl⟩ | ⟨-, hold⟩
    · exact hQ version' hid hsnap
    · exact h w version' hold

/-- The version is in the table, with the snapshot, and among the versions of
the repository. -/
def Registered (ops : VersionOps) (repoId : RepositoryId) (v : VersionId)
    (snap : Uuid) : Prop :=
  (∃ version, ops.versions.lookup v = some version ∧ version.snapshotId = snap) ∧
    v ∈ (ops.repoVersions.lookup repoId).getD []

theorem registered_createVersion
    {parent : Option VersionId} {fresh : VersionId} {snap : Uuid}
    (hparent : ∀ p ∈ parent, (ops.versions.lookup p).isSome)
    (now : DateTime) (repoId : RepositoryId) :
    (stateAfter (createVersion now fresh snap repoId parent) ops).Registered
      repoId fresh snap := by
  cases parent with
  | none =>
      simp only [createVersion, stateAfter, EStateM.run_bind, EStateM.run_get,
        EStateM.run_pure, EStateM.run_set]
      exact ⟨⟨_, AList.lookup_insert _, rfl⟩, by simp⟩
  | some p =>
      obtain ⟨q, hq⟩ := Option.isSome_iff_exists.mp (hparent p rfl)
      simp only [createVersion, stateAfter, EStateM.run_bind, EStateM.run_get, hq,
        Option.isNone_some, Bool.false_eq_true, if_false, EStateM.run_pure,
        EStateM.run_set]
      exact ⟨⟨_, AList.lookup_insert _, rfl⟩, by simp⟩

/-- No transition takes a version out of the table. -/
theorem preserves_registered (repoId : RepositoryId) (w : VersionId) (snap : Uuid)
    (v : VersionId) (target : VersionStatus) :
    Preserves (transition v target) fun ops => ops.Registered repoId w snap := by
  rintro ops ⟨⟨version, hversion, hsnap⟩, hlisted⟩
  obtain hsame | ⟨version', hversion', -, hstate⟩ :=
    stateAfter_transition_cases v target ops
  · rw [hsame]
    exact ⟨⟨version, hversion, hsnap⟩, hlisted⟩
  · rw [hstate]
    refine ⟨?_, hlisted⟩
    by_cases hw : w = v
    · subst hw
      obtain rfl := Option.some.inj (hversion.symm.trans hversion')
      exact ⟨_, AList.lookup_insert _, hsnap⟩
    · exact ⟨version, (AList.lookup_insert_ne hw).trans hversion, hsnap⟩

/-- No transition changes which versions a repository has. -/
theorem preserves_repoVersions (m : HashMap RepositoryId (List VersionId))
    (v : VersionId) (target : VersionStatus) :
    Preserves (transition v target) fun ops => ops.repoVersions = m := by
  intro ops h
  obtain hsame | ⟨version, -, -, hstate⟩ := stateAfter_transition_cases v target ops
  · rw [hsame]
    exact h
  · rw [hstate]
    exact h

end Specs

end VersionOps

end Badou
end HyperBackup
