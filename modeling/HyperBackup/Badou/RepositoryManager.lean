import HyperBackup.Badou.IndexFile
import HyperBackup.Badou.Json
import HyperBackup.Badou.RepositoryRpc

/-!
# Repositories that must not be deleted

The manager keeps a record of each repository in a file of its directory, with
the configuration that the repository was created with.  The record has a
retention date of its own beside the one of the configuration, and no new
repository gets it.  A deletion asks for the date of the record only, so the
date of the configuration protects nothing.
-/

namespace HyperBackup

namespace Badou

open Lib Lib.Program

inductive RepoStatus
  | active
  | readonly
  | deleted
  | immutable
deriving DecidableEq

structure RepoConfig where
  name : String
  immutable : Bool
  immutableUntil : Option DateTime
  options : HashMap String String

structure Repository where
  repoId : RepositoryId
  name : String
  createdAt : DateTime
  config : RepoConfig
  versionCount : UInt64
  status : RepoStatus
  immutableUntil : Option DateTime

namespace Repository

def new (draws : CreateDraws) (config : RepoConfig) : Repository where
  repoId := draws.repoId
  name := config.name
  createdAt := draws.now
  config := config
  versionCount := 0
  status := .active
  immutableUntil := none

def isImmutable (now : DateTime) (repo : Repository) : Bool :=
  repo.status == .immutable || repo.config.immutable ||
    repo.immutableUntil.any fun t => t > now

end Repository

namespace Json

open JsonText

def repoStatus : RepoStatus → String
  | .active => quote "Active"
  | .readonly => quote "Readonly"
  | .deleted => quote "Deleted"
  | .immutable => quote "Immutable"

def repoConfig (c : RepoConfig) : String :=
  object [
    ("name", quote c.name),
    ("immutable", bool c.immutable),
    ("immutable_until", option time c.immutableUntil),
    ("options", object ((HashMap.toList c.options).map fun o => (o.1, quote o.2)))]

def repository (r : Repository) : String :=
  object [
    ("repo_id", uuid r.repoId.uuid),
    ("name", quote r.name),
    ("created_at", time r.createdAt),
    ("config", repoConfig r.config),
    ("version_count", toString r.versionCount.toNat),
    ("status", repoStatus r.status),
    ("immutable_until", option time r.immutableUntil)]

end Json

inductive RepositoryError
  | io (e : String)
  | alreadyExists (repoId : RepositoryId)
  | notFound (repoId : RepositoryId)
  | immutable (repoId : RepositoryId)
  | index (e : IndexOpenError)
deriving DecidableEq

structure RepoStat where
  repoId : RepositoryId
  name : String
  status : RepoStatus
  versionCount : UInt64
  totalSize : UInt64
  storedSize : UInt64
  chunkCount : UInt64
  immutable : Bool

/-- What an open repository is made of, beside its directory. -/
structure RepositoryHandle where
  repo : Repository
  index : PersistedIndex

/-- The JSON and UUID libraries. -/
structure ManagerExternals where
  repositoryToVec : Repository → Bytes
  repositoryFromSlice : Bytes → Except String Repository
  indexJson : IndexJson
  parseUuid : String → Except String Uuid

/-- The files of a repository directory that the manager reads:
`.badou/repository.json` and `index/chunk_index.json`. -/
structure RepositoryDir where
  repositoryJson : Option Bytes
  chunkIndexJson : Option Bytes
deriving DecidableEq

/-- What lies under the name of a repository. -/
inductive RootEntry
  | file
  | directory (dir : RepositoryDir)
deriving DecidableEq

/-- The entries of `repositories` under the data root. -/
abbrev DataRoot : Type := HashMap String RootEntry

abbrev ManagerM : Type → Type := EStateM RepositoryError DataRoot

/-- The name of the directory of a repository. -/
def repoDirName (repoId : RepositoryId) : String :=
  uuidText repoId.uuid

namespace RootEntry

/-- The file of the record, if it exists. -/
def repositoryJson : RootEntry → Option Bytes
  | .file => none
  | .directory dir => dir.repositoryJson

def chunkIndexJson : RootEntry → Option Bytes
  | .file => none
  | .directory dir => dir.chunkIndexJson

/-- Why there is no file to read. -/
def missingText : RootEntry → String
  | .file => "Not a directory (os error 20)"
  | .directory _ => "No such file or directory (os error 2)"

end RootEntry

namespace RepositoryManager

section Operations

variable (ext : ManagerExternals)

/-- Read the contents of the record. -/
def parseRepository (data : Bytes) : Except RepositoryError Repository :=
  (ext.repositoryFromSlice data).mapError .io

def readRepository (entry : RootEntry) : Except RepositoryError Repository :=
  match entry.repositoryJson with
  | none => .error (.io entry.missingText)
  | some data => parseRepository ext data

/-- The number of chunks in the index; an index that cannot be read counts as
empty. -/
def chunkCount (entry : RootEntry) : UInt64 :=
  match IndexFile.openIndex ext.indexJson entry.chunkIndexJson with
  | .ok index => UInt64.ofNat (HashMap.toList index.chunkIndex).length
  | .error _ => 0

def repoStat (now : DateTime) (entry : RootEntry) (repo : Repository) : RepoStat where
  repoId := repo.repoId
  name := repo.name
  status := repo.status
  versionCount := repo.versionCount
  totalSize := 0
  storedSize := 0
  chunkCount := chunkCount ext entry
  immutable := repo.isImmutable now

/-- What lies under the name of a known repository. -/
def findRepository (repoId : RepositoryId) : ManagerM RootEntry := do
  match (← get).lookup (repoDirName repoId) with
  | none => throw (.notFound repoId)
  | some entry => return entry

def createRepository (draws : CreateDraws) (name : String) (config : RepoConfig) :
    ManagerM Repository := do
  let root ← get
  if (root.lookup (repoDirName draws.repoId)).isSome then
    throw (.alreadyExists draws.repoId)
  else
    let repo := Repository.new draws { config with name := name }
    set (root.insert (repoDirName draws.repoId) (.directory
      { repositoryJson := some (ext.repositoryToVec repo)
        chunkIndexJson := none }))
    return repo

def openRepository (repoId : RepositoryId) : ManagerM RepositoryHandle := do
  let entry ← findRepository repoId
  let repo ← ofResult id (readRepository ext entry)
  let index ← ofResult .index (IndexFile.openIndex ext.indexJson entry.chunkIndexJson)
  return { repo := repo, index := index }

/-- The statistics of one entry under the root; what is not the directory of a
repository is passed over. -/
def listEntry (now : DateTime) (entry : String × RootEntry) :
    Except RepositoryError (Option RepoStat) :=
  match entry.2, ext.parseUuid entry.1, entry.2.repositoryJson with
  | .directory _, .ok _, some data => do
      let repo ← parseRepository ext data
      return some (repoStat ext now entry.2 repo)
  | _, _, _ => .ok none

def listRepositories (order : IterOrder (String × RootEntry)) (now : DateTime) :
    ManagerM (List RepoStat) := do
  let stats ← ofResult id
    ((order.arrange (HashMap.toList (← get))).mapM (listEntry ext now))
  return stats.filterMap id

def statRepository (now : DateTime) (repoId : RepositoryId) : ManagerM RepoStat := do
  let entry ← findRepository repoId
  let repo ← ofResult id (readRepository ext entry)
  return repoStat ext now entry repo

/-- A record that exists is asked whether the repository may be deleted. -/
def checkDeletable (now : DateTime) (repoId : RepositoryId) (entry : RootEntry) :
    Except RepositoryError Unit :=
  match entry.repositoryJson with
  | none => .ok ()
  | some data => do
      let repo ← parseRepository ext data
      if repo.isImmutable now then .error (.immutable repoId) else .ok ()

def deleteRepository (now : DateTime) (repoId : RepositoryId) : ManagerM Unit := do
  let entry ← findRepository repoId
  let _ ← ofResult id (checkDeletable ext now repoId entry)
  match entry with
  | .file => throw (.io entry.missingText)
  | .directory _ => modify fun root => root.erase (repoDirName repoId)

/-- The calls that only read. -/
inductive ReadCall
  | openRepository (repoId : RepositoryId)
  | listRepositories (order : IterOrder (String × RootEntry)) (now : DateTime)
  | statRepository (repoId : RepositoryId) (now : DateTime)

/-- The data root that a call leaves. -/
def ReadCall.perform (root : DataRoot) : ReadCall → DataRoot
  | .openRepository repoId => stateAfter (RepositoryManager.openRepository ext repoId) root
  | .listRepositories order now =>
      stateAfter (RepositoryManager.listRepositories ext order now) root
  | .statRepository repoId now =>
      stateAfter (RepositoryManager.statRepository ext now repoId) root

def performReads (reads : List ReadCall) (root : DataRoot) : DataRoot :=
  reads.foldl (ReadCall.perform ext) root

end Operations

/-- The configuration lets the repository be deleted at a time. -/
def Releases (config : RepoConfig) (now : DateTime) : Prop :=
  config.immutable = false ∧ ∀ t ∈ config.immutableUntil, t ≤ now

/-- A repository that is created and then read is deleted only when its
configuration releases it. -/
def Protects (ext : ManagerExternals) (draws : CreateDraws) (name : String)
    (config : RepoConfig) (reads : List ReadCall) (now : DateTime) (root : DataRoot) :
    Prop :=
  ∀ repo, outcome (createRepository ext draws name config) root = .ok repo →
    outcome (deleteRepository ext now repo.repoId) (performReads ext reads
      (stateAfter (createRepository ext draws name config) root)) = .ok () →
    Releases config now

section Specs

variable {ext : ManagerExternals} {draws : CreateDraws} {name : String}
variable {config : RepoConfig} {root : DataRoot} {now : DateTime}

/-- A new repository is immutable only by the mark of its configuration. -/
theorem isImmutable_new : (Repository.new draws config).isImmutable now = config.immutable := by
  simp [Repository.new, Repository.isImmutable]

theorem run_findRepository {repoId : RepositoryId} {entry : RootEntry}
    (h : root.lookup (repoDirName repoId) = some entry) :
    (findRepository repoId).run root = .ok entry root := by
  simp only [findRepository, EStateM.run_bind, EStateM.run_get, h, EStateM.run_pure]

theorem stateAfter_findRepository (repoId : RepositoryId) :
    stateAfter (findRepository repoId) root = root := by
  cases h : root.lookup (repoDirName repoId) with
  | none =>
      simp only [stateAfter, findRepository, EStateM.run_bind, EStateM.run_get, h]
      rfl
  | some entry =>
      simp only [stateAfter, run_findRepository h]

/-- Reading changes nothing under the data root. -/
theorem perform_eq (call : ReadCall) : ReadCall.perform ext root call = root := by
  cases call with
  | openRepository repoId =>
      rw [ReadCall.perform, openRepository, stateAfter_bind, stateAfter_findRepository]
      split
      · rw [stateAfter_bind, stateAfter_ofResult]
        split
        · rw [stateAfter_bind, stateAfter_ofResult]
          split
          · rfl
          · rfl
        · rfl
      · rfl
  | listRepositories order now =>
      rw [ReadCall.perform, listRepositories, stateAfter_bind]
      change stateAfter (ofResult id _ >>= _) root = root
      rw [stateAfter_bind, stateAfter_ofResult]
      split
      · rfl
      · rfl
  | statRepository repoId now =>
      rw [ReadCall.perform, statRepository, stateAfter_bind, stateAfter_findRepository]
      split
      · rw [stateAfter_bind, stateAfter_ofResult]
        split
        · rfl
        · rfl
      · rfl

theorem performReads_eq (reads : List ReadCall) : performReads ext reads root = root := by
  induction reads with
  | nil =>
      rfl
  | cons call reads ih =>
      rw [performReads, List.foldl_cons, perform_eq]
      exact ih

/-- What a creation answers and leaves. -/
theorem of_create {repo : Repository}
    (h : outcome (createRepository ext draws name config) root = .ok repo) :
    repo = Repository.new draws { config with name := name } ∧
      stateAfter (createRepository ext draws name config) root =
        root.insert (repoDirName draws.repoId) (.directory
          { repositoryJson := some (ext.repositoryToVec repo)
            chunkIndexJson := none }) := by
  by_cases hnew : (root.lookup (repoDirName draws.repoId)).isSome
  · simp only [outcome, createRepository, EStateM.run_bind, EStateM.run_get, hnew, if_true] at h
    cases h
  · simp only [outcome, createRepository, EStateM.run_bind, EStateM.run_get, hnew] at h
    obtain rfl := Except.ok.inj h
    refine ⟨rfl, ?_⟩
    simp only [stateAfter, createRepository, EStateM.run_bind, EStateM.run_get, hnew]
    rfl

/-- A repository whose record can be read is deleted unless it is immutable. -/
theorem outcome_deleteRepository {repoId : RepositoryId} {repo : Repository}
    {dir : RepositoryDir} {data : Bytes}
    (hdir : root.lookup (repoDirName repoId) = some (.directory dir))
    (hdata : dir.repositoryJson = some data)
    (hjson : ext.repositoryFromSlice data = .ok repo) :
    outcome (deleteRepository ext now repoId) root =
      if repo.isImmutable now then .error (.immutable repoId) else .ok () := by
  have hcheck : checkDeletable ext now repoId (.directory dir) =
      if repo.isImmutable now then .error (.immutable repoId) else .ok () := by
    simp only [checkDeletable, RootEntry.repositoryJson, hdata, parseRepository, hjson]
    rfl
  rw [deleteRepository, outcome_bind_of_run (run_findRepository hdir), hcheck]
  by_cases himmutable : repo.isImmutable now = true
  · rw [if_pos himmutable]
    rfl
  · rw [if_neg himmutable]
    rfl

/-- The deletion of a new repository is refused only for the mark, whatever was read
in between. -/
theorem outcome_deleteRepository_created {repo : Repository} (reads : List ReadCall)
    (hcreate : outcome (createRepository ext draws name config) root = .ok repo)
    (hjson : ext.repositoryFromSlice (ext.repositoryToVec repo) = .ok repo) :
    outcome (deleteRepository ext now repo.repoId) (performReads ext reads
        (stateAfter (createRepository ext draws name config) root)) =
      if config.immutable then .error (.immutable repo.repoId) else .ok () := by
  obtain ⟨hrepo, hstate⟩ := of_create hcreate
  have hdir : (root.insert (repoDirName draws.repoId) (.directory
      { repositoryJson := some (ext.repositoryToVec repo), chunkIndexJson := none })).lookup
        (repoDirName repo.repoId) = some (.directory
          { repositoryJson := some (ext.repositoryToVec repo), chunkIndexJson := none }) := by
    rw [hrepo]
    exact AList.lookup_insert _
  have himmutable : repo.isImmutable now = config.immutable := by
    rw [hrepo]
    exact isImmutable_new
  rw [performReads_eq, hstate, outcome_deleteRepository hdir rfl hjson, himmutable]

end Specs

/-- A created repository is protected at a time exactly if its configuration is
marked as immutable, or has no date later than that time: its date is never asked
for. -/
theorem protects_iff (ext : ManagerExternals) (draws : CreateDraws) (name : String)
    (config : RepoConfig) (reads : List ReadCall) (now : DateTime) (root : DataRoot)
    (repo : Repository)
    (hcreate : outcome (createRepository ext draws name config) root = .ok repo)
    (hjson : ext.repositoryFromSlice (ext.repositoryToVec repo) = .ok repo) :
    Protects ext draws name config reads now root ↔
      config.immutable = true ∨ ∀ t ∈ config.immutableUntil, t ≤ now := by
  have hdelete := @outcome_deleteRepository_created ext draws name config root now repo
    reads hcreate hjson
  constructor
  · intro hprotects
    by_cases himmutable : config.immutable = true
    · exact Or.inl himmutable
    · rw [if_neg himmutable] at hdelete
      exact Or.inr (hprotects repo hcreate hdelete).2
  · intro hsafe repo' hcreate' hdeleted
    obtain rfl := Except.ok.inj (hcreate.symm.trans hcreate')
    by_cases himmutable : config.immutable = true
    · rw [hdelete, if_pos himmutable] at hdeleted
      cases hdeleted
    · exact ⟨Bool.eq_false_iff.mpr himmutable, hsafe.resolve_left himmutable⟩

section Example

/-- The libraries, with a reader that knows one record. -/
def externalsOf (repo : Repository) : ManagerExternals where
  repositoryToVec := fun r => Hex.utf8 (Json.repository r)
  repositoryFromSlice := fun data =>
    if data = Hex.utf8 (Json.repository repo) then .ok repo
    else .error "EOF while parsing a value at line 1 column 0"
  indexJson := IndexFile.emptyJson
  parseUuid := uuidOfText

/-- Locked for a minute after the start of 1970, by the date alone. -/
def minuteConfig : RepoConfig where
  name := "vault"
  immutable := false
  immutableUntil := some 60000000000
  options := ∅

def minuteDraws : CreateDraws where
  repoId := ⟨1#128⟩
  now := 0

def minuteRepository : Repository :=
  Repository.new minuteDraws minuteConfig

theorem json_minuteRepository :
    (externalsOf minuteRepository).repositoryFromSlice
      ((externalsOf minuteRepository).repositoryToVec minuteRepository) =
        .ok minuteRepository := by
  simp only [externalsOf, if_true]

theorem create_minuteRepository :
    outcome (createRepository (externalsOf minuteRepository) minuteDraws "vault"
      minuteConfig) ∅ = .ok minuteRepository := by
  rfl

theorem protects_iff_minute :
    Protects (externalsOf minuteRepository) minuteDraws "vault" minuteConfig
        [.openRepository ⟨1#128⟩, .listRepositories .asStored 1] 60000000000 ∅ ↔
      minuteConfig.immutable = true ∨
        ∀ t ∈ minuteConfig.immutableUntil, t ≤ 60000000000 :=
  protects_iff _ minuteDraws "vault" minuteConfig _ 60000000000 ∅ minuteRepository
    create_minuteRepository json_minuteRepository

/-- The repository is deleted after a second. -/
theorem deleted_within_minute :
    ¬ Protects (externalsOf minuteRepository) minuteDraws "vault" minuteConfig
      [.statRepository ⟨1#128⟩ 500000000] 1000000000 ∅ := by
  intro hprotects
  have hdelete := @outcome_deleteRepository_created (externalsOf minuteRepository)
    minuteDraws "vault" minuteConfig ∅ 1000000000 minuteRepository
    [.statRepository ⟨1#128⟩ 500000000] create_minuteRepository json_minuteRepository
  have hreleased := hprotects minuteRepository create_minuteRepository hdelete
  exact absurd (hreleased.2 60000000000 rfl) (by decide)

end Example

end RepositoryManager
end Badou
end HyperBackup
