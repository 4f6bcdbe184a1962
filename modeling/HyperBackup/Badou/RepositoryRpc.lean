import HyperBackup.Badou.Server

/-!
# Creating repositories

The handler that creates a repository under an identifier drawn for it.  What
a repository is configured with is kept beside it; of that only the name and
the time until which it is immutable are answered.
-/

namespace HyperBackup
namespace Badou

open Lib Lib.Program

structure RepositoryConfig where
  name : String
  immutableUntil : Option DateTime
deriving DecidableEq

structure RepositoryCreateRequest where
  config : Option RepositoryConfig
deriving DecidableEq

structure RepositoryInfo where
  repoId : String
  name : String
  status : Int32
  immutableUntil : Option DateTime
  versionCount : UInt64
  totalSize : UInt64
  storedSize : UInt64
  createdAt : Option DateTime
deriving DecidableEq

/-- The identifier and the time drawn for a new repository. -/
structure CreateDraws where
  repoId : RepositoryId
  now : DateTime
deriving DecidableEq

/-- The status for a repository that exists already. -/
def repoExistsStatus (repoId : RepositoryId) : Status :=
  toStatus .repoAlreadyExists
    ("repository already exists: RepositoryId(" ++ uuidText repoId.uuid ++ ")")

/-- A new repository is active. -/
def Convert.repoToPbInfo (draws : CreateDraws) (config : RepositoryConfig) :
    RepositoryInfo where
  repoId := uuidText draws.repoId.uuid
  name := config.name
  status := 1
  immutableUntil := config.immutableUntil
  versionCount := 0
  totalSize := 0
  storedSize := 0
  createdAt := some draws.now

namespace Server

def repositoryCreate (draws : CreateDraws)
    (request : Request RepositoryCreateRequest) : ServerM RepositoryInfo := do
  let _ ← ofResult id request.auth
  match request.inner.config with
  | none => throw (toStatus .repoNotFound "missing config")
  | some config =>
      let s ← get
      if (s.repos.lookup draws.repoId).isSome then
        throw (repoExistsStatus draws.repoId)
      else
        set (setRepo draws.repoId .empty s)
        return Convert.repoToPbInfo draws config

section Specs

variable {s : ServerState} {r : RepositoryId} {draws : CreateDraws}
variable {request : Request RepositoryCreateRequest}

/-- The repository a request is to create, if an administrator configures it
and its identifier is new. -/
def createTarget (s : ServerState) (draws : CreateDraws)
    (request : Request RepositoryCreateRequest) : Option RepositoryConfig :=
  match request.auth, s.repos.lookup draws.repoId with
  | .ok (), none => request.inner.config
  | _, _ => none

theorem run_repositoryCreate {config : RepositoryConfig}
    (h : createTarget s draws request = some config) :
    (repositoryCreate draws request).run s =
      .ok (Convert.repoToPbInfo draws config) (setRepo draws.repoId .empty s) := by
  unfold createTarget at h
  split at h
  · next hauth hnew =>
      simp only [repositoryCreate, hauth, h, ofResult]
      change (if (s.repos.lookup draws.repoId).isSome then _ else _ : ServerM _).run s = _
      rw [hnew]
      rfl
  · cases h

/-- A request that creates no repository changes nothing and is not
answered. -/
theorem run_repositoryCreate_of_none (h : createTarget s draws request = none) :
    ∃ status, (repositoryCreate draws request).run s = .error status s := by
  unfold createTarget at h
  unfold repositoryCreate
  cases hauth : request.auth with
  | error status =>
      exact ⟨status, rfl⟩
  | ok u =>
      cases hconfig : request.inner.config with
      | none =>
          exact ⟨_, rfl⟩
      | some config =>
          cases hknown : s.repos.lookup draws.repoId with
          | none =>
              rw [hauth, hknown, hconfig] at h
              cases h
          | some repo =>
              refine ⟨repoExistsStatus draws.repoId, ?_⟩
              change (if (s.repos.lookup draws.repoId).isSome then _ else _ :
                ServerM _).run s = _
              rw [hknown]
              rfl

theorem stateAfter_repositoryCreate :
    stateAfter (repositoryCreate draws request) s =
      match createTarget s draws request with
      | none => s
      | some _ => setRepo draws.repoId .empty s := by
  cases htarget : createTarget s draws request with
  | none =>
      obtain ⟨status, hrun⟩ := run_repositoryCreate_of_none htarget
      simp only [stateAfter, hrun]
  | some config =>
      simp only [stateAfter, run_repositoryCreate htarget]

/-- A new repository is empty, as one that is unknown counts. -/
theorem repoState_repositoryCreate :
    repoState (stateAfter (repositoryCreate draws request) s) r =
      repoState s r := by
  rw [stateAfter_repositoryCreate]
  cases htarget : createTarget s draws request with
  | none =>
      rfl
  | some config =>
      have hnew : s.repos.lookup draws.repoId = none := by
        unfold createTarget at htarget
        split at htarget
        · next hnew =>
            exact hnew
        · cases htarget
      rw [repoState_setRepo]
      split
      · next hr =>
          rw [hr, repoState, hnew]
          rfl
      · rfl

theorem versionOps_repositoryCreate :
    (stateAfter (repositoryCreate draws request) s).versionOps = s.versionOps := by
  rw [stateAfter_repositoryCreate]
  split
  · rfl
  · rfl

end Specs

end Server

end Badou
end HyperBackup
