import HyperBackup.Badou.CommitCrash
import HyperBackup.Badou.SnapshotRpc

/-!
# Listing and opening versions

The server keeps its versions in memory only.  The list of snapshots and the
recovery of a version both start from that table.

Two things follow.  A new server over the same data root knows no version, so
that nothing committed before is listed or can be opened.  And a listed
snapshot shows the version identifier of the metadata it was committed with,
while the table has the one that was drawn for the commit, so that a version
is found under the identifier it is listed with only if the two are the same.
-/

namespace HyperBackup
namespace Badou
namespace VersionTable

open Lib Lib.Program

/-- A commit request with the identifiers that are drawn for it. -/
structure CommitCall where
  draws : RequestDraws
  request : Request SnapshotCommitRequest

section Runs

variable (ext : Externals) (layout : BadouDataLayout)

def commitOne (s : ServerState) (c : CommitCall) : ServerState :=
  stateAfter (Server.snapshotCommit ext layout c.draws c.request) s

def commitAll (s : ServerState) (calls : List CommitCall) : ServerState :=
  calls.foldl (commitOne ext layout) s

/-- The calls that are answered with success, with their answers. -/
def answers (s : ServerState) :
    List CommitCall → List (CommitCall × SnapshotCommitResponse)
  | [] => []
  | c :: calls =>
      match outcome (Server.snapshotCommit ext layout c.draws c.request) s with
      | .ok response => (c, response) :: answers (commitOne ext layout s c) calls
      | .error _ => answers (commitOne ext layout s c) calls

end Runs

section Accepted

/-- What the server checks of a commit request: it is authorized and can be
parsed, the repository is known, the parent exists and no staging area of the
new version is left over, the chunks are read back from the store they are
written to, and the text of the sealed snapshot can be read. -/
structure Accepts (ext : Externals) (layout : BadouDataLayout) (s : ServerState)
    (c : CommitCall) (args : Server.CommitArgs) : Prop where
  authorized : c.request.auth = .ok ()
  parsed : Server.parseCommit ext c.request.inner = .ok args
  known : (s.repos.lookup args.repoId).isSome
  admitted : CommitBackup.Admits (Server.commitState s args.repoId)
    args.parentVersionId c.draws.commit.versionId
  verified : CommitBackup.verifyChunks ext.blake3
    (stateAfter (ChunkStore.writeChunks layout args.repoId
      (Server.commitChunks ext s args)) (Server.repoState s args.repoId).store)
    (Server.commitChunks ext s args) = .ok true
  readable : ∃ snapshot, ext.json.snapshotFromSlice (ext.json.snapshotToVec
    (RecoveryEngine.sealedSnapshot ext c.draws args)) = .ok snapshot

def Accepted (ext : Externals) (layout : BadouDataLayout) (s : ServerState)
    (c : CommitCall) : Prop :=
  ∃ args, Accepts ext layout s c args

variable {ext : Externals} {layout : BadouDataLayout} {s : ServerState}
variable {c : CommitCall} {response : SnapshotCommitResponse}

/-- An answer is made from a snapshot that can be read. -/
theorem exists_readSnapshot_of_response
    {request : SnapshotCommitRequest} {repoId : RepositoryId} {v : VersionId}
    {id : Uuid}
    (h : Server.commitResponse ext request repoId s (.success v id) =
      .ok response) :
    ∃ snapshot, SnapshotStore.readSnapshot ext.json
      (Server.repoState s repoId).catalog id = .ok snapshot := by
  simp only [Server.commitResponse] at h
  generalize s.versionOps.getVersion v = found at h
  generalize SnapshotStore.readSnapshot ext.json
    (Server.repoState s repoId).catalog id = read at h ⊢
  cases found with
  | error e =>
      cases h
  | ok version =>
      cases read with
      | error e =>
          cases h
      | ok snapshot =>
          exact ⟨snapshot, rfl⟩

theorem parse_of_answer
    (h : outcome (Server.snapshotCommit ext layout c.draws c.request) s =
      .ok response) :
    c.request.auth = .ok () ∧
      ∃ args, Server.parseCommit ext c.request.inner = .ok args := by
  have hrun := run_eq_ok_iff.mpr ⟨h, rfl⟩
  unfold Server.snapshotCommit at hrun
  obtain ⟨_, s₁, h₁, hrun₁⟩ := run_bind_eq_ok.mp hrun
  obtain ⟨hauth, rfl⟩ := run_ofResult_eq_ok.mp h₁
  obtain ⟨args, s₂, h₂, -⟩ := run_bind_eq_ok.mp hrun₁
  obtain ⟨hargs, -⟩ := run_ofResult_eq_ok.mp h₂
  exact ⟨hauth, args, hargs⟩

/-- A commit request is answered with success exactly if it passes all checks. -/
theorem answered_iff_accepted :
    (∃ response, outcome (Server.snapshotCommit ext layout c.draws c.request) s =
      .ok response) ↔ Accepted ext layout s c := by
  constructor
  · rintro ⟨response, hanswer⟩
    obtain ⟨hauth, args, hparse⟩ := parse_of_answer hanswer
    obtain ⟨hknown, result, hrun, hresponse⟩ := Server.run_of_answer hparse hanswer
    obtain ⟨hsuccess, hrepo⟩ := Server.success_of_answer hparse hanswer
    obtain ⟨hadmits, hverified⟩ := CommitBackup.outcome_commitBackup.mp hsuccess
    refine ⟨args, hauth, hparse, hknown, hadmits, hverified, ?_⟩
    cases result with
    | failure v reason =>
        cases hresponse
    | success v id =>
        have hout := Server.innerCommit_of_run hrun
        obtain ⟨-, rfl, hpublishes⟩ := CommitBackup.publishes_of_success hout
        have hfile := hpublishes.snapshots
          (SnapshotStore.snapshotName c.draws.commit.snapshotId)
        rw [if_pos rfl] at hfile
        obtain ⟨snapshot, hread⟩ := exists_readSnapshot_of_response hresponse
        rw [hrepo] at hread
        exact ⟨snapshot, SnapshotStore.fromSlice_of_readSnapshot hfile hread⟩
  · rintro ⟨args, h⟩
    obtain ⟨snapshot, hjson⟩ := h.readable
    exact RecoveryEngine.exists_answer h.authorized h.parsed h.known
      (CommitBackup.outcome_commitBackup.mpr ⟨h.admitted, h.verified⟩) hjson

/-- No call of a sequence is answered with success exactly if none passes the
checks in the state it meets. -/
theorem answers_eq_nil_iff (calls : List CommitCall) :
    ∀ s, answers ext layout s calls = [] ↔
      ∀ done c later, calls = done ++ c :: later →
        ¬ Accepted ext layout (commitAll ext layout s done) c := by
  induction calls with
  | nil =>
      intro s
      simp [answers]
  | cons call calls ih =>
      intro s
      cases hout : outcome
          (Server.snapshotCommit ext layout call.draws call.request) s with
      | ok response =>
          have haccepted : Accepted ext layout s call :=
            answered_iff_accepted.mp ⟨response, hout⟩
          simp only [answers, hout, reduceCtorEq, false_iff]
          exact fun hnone => hnone [] call calls rfl haccepted
      | error e =>
          have hrefused : ¬ Accepted ext layout s call := by
            intro haccepted
            obtain ⟨response, hresponse⟩ := answered_iff_accepted.mpr haccepted
            rw [hout] at hresponse
            cases hresponse
          simp only [answers, hout, ih]
          constructor
          · intro hnone done c later hcalls
            cases done with
            | nil =>
                obtain ⟨rfl, -⟩ := List.cons.inj hcalls
                exact hrefused
            | cons first done =>
                obtain ⟨rfl, hrest⟩ := List.cons.inj hcalls
                exact hnone done c later hrest
          · intro hnone done c later hcalls
            exact hnone (call :: done) c later (by rw [hcalls]; rfl)

end Accepted

section Restart

/-- A repository that is opened anew: both indexes are loaded from the file,
which after commits is the index of the store. -/
def reopen (repo : OpenRepo) : OpenRepo :=
  { repo with index := repo.store.index }

/-- A new server over the same data root.  The version table is not there. -/
def restart (s : ServerState) : ServerState where
  repos := HashMap.collect
    ((HashMap.toList s.repos).map fun e => (e.1, reopen e.2))
  versionOps := .new

/-- A request for the snapshots of a repository. -/
def listOf (repoId : String) (limit : Option UInt32) (cursor : Option String) :
    Request SnapshotListRequest where
  auth := .ok ()
  inner := { repoId := repoId, limit := limit, cursor := cursor }

/-- A request for all files of a version. -/
def openOf (repoId versionId : String) : Request RecoveryOpenRequest where
  auth := .ok ()
  inner := { repoId := repoId, versionId := versionId, filePath := none }

/-- The snapshot is listed, with some limit and cursor. -/
def Listed (ext : Externals) (s : ServerState) (repoId snapshotId : String) :
    Prop :=
  ∃ limit cursor response,
    outcome (Server.snapshotList ext (listOf repoId limit cursor)) s =
      .ok response ∧
    ∃ m ∈ response.snapshots, m.snapshotId = snapshotId

/-- The version can be opened. -/
def Opened (ext : Externals) (s : ServerState) (repoId versionId : String) :
    Prop :=
  ∃ chunks, outcome (Server.recoveryOpen ext (openOf repoId versionId)) s =
    .ok chunks

/-- The version a call was answered with is listed and can be opened. -/
def Kept (ext : Externals) (s : ServerState)
    (answer : CommitCall × SnapshotCommitResponse) : Prop :=
  ∃ version, answer.2.version = some version ∧
    Listed ext s answer.1.request.inner.repoId version.snapshotId ∧
    Opened ext s answer.1.request.inner.repoId version.versionId

variable {ext : Externals} {layout : BadouDataLayout} {s : ServerState}

/-- The snapshots that are listed. -/
theorem snapshots_of_list {request : Request SnapshotListRequest}
    {response : SnapshotListResponse}
    (h : outcome (Server.snapshotList ext request) s = .ok response) :
    ∃ repoId, Convert.parseRepoId ext request.inner.repoId = .ok repoId ∧
      (s.repos.lookup repoId).isSome ∧
      response.snapshots = (Server.readSnapshots ext
        (Server.repoState s repoId).catalog
        ((s.versionOps.listVersions repoId).take
          (request.inner.limit.getD 100).toNat)).map
        fun snap => Convert.snapshotToPbMeta ext snap request.inner.repoId := by
  have hrun := run_eq_ok_iff.mpr ⟨h, rfl⟩
  unfold Server.snapshotList at hrun
  obtain ⟨_, s₁, h₁, hrun₁⟩ := run_bind_eq_ok.mp hrun
  obtain ⟨-, rfl⟩ := run_ofResult_eq_ok.mp h₁
  obtain ⟨repoId, s₂, h₂, hrun₂⟩ := run_bind_eq_ok.mp hrun₁
  obtain ⟨hrepoId, rfl⟩ := run_ofResult_eq_ok.mp h₂
  obtain ⟨_, s₃, h₃, hrun₃⟩ := run_bind_eq_ok.mp hrun₂
  cases h₃
  obtain ⟨repo, s₄, h₄, hrun₄⟩ := run_bind_eq_ok.mp hrun₃
  obtain ⟨hrepo, rfl, rfl⟩ := Server.of_run_openRepo h₄
  obtain rfl := Except.ok.inj (run_eq_ok_iff.mp hrun₄).1
  exact ⟨repoId, hrepoId, hrepo, rfl⟩

/-- What a recovery has found and run. -/
theorem recover_of_open {request : Request RecoveryOpenRequest}
    {result : RecoveryResult}
    (h : outcome (Server.recoveryResult ext request) s = .ok result) :
    request.auth = .ok () ∧
    ∃ r v version, Convert.parseRepoId ext request.inner.repoId = .ok r ∧
      Convert.parseVersionId ext request.inner.versionId = .ok v ∧
      s.versionOps.versions.lookup v = some version ∧
      (s.repos.lookup r).isSome ∧
      RecoveryEngine.recover ext.blake3 ext.json (Server.repoState s r).store
        (Server.repoState s r).catalog
        { snapshotId := version.snapshotId
          fileFilter := request.inner.filePath.map fun path => [path] } =
          .ok result := by
  have hrun := run_eq_ok_iff.mpr ⟨h, rfl⟩
  unfold Server.recoveryResult at hrun
  obtain ⟨_, s₁, h₁, hrun₁⟩ := run_bind_eq_ok.mp hrun
  obtain ⟨hauth, rfl⟩ := run_ofResult_eq_ok.mp h₁
  obtain ⟨r, s₂, h₂, hrun₂⟩ := run_bind_eq_ok.mp hrun₁
  obtain ⟨hrepoId, rfl⟩ := run_ofResult_eq_ok.mp h₂
  obtain ⟨v, s₃, h₃, hrun₃⟩ := run_bind_eq_ok.mp hrun₂
  obtain ⟨hversionId, rfl⟩ := run_ofResult_eq_ok.mp h₃
  obtain ⟨_, s₄, h₄, hrun₄⟩ := run_bind_eq_ok.mp hrun₃
  cases h₄
  obtain ⟨version, s₅, h₅, hrun₅⟩ := run_bind_eq_ok.mp hrun₄
  obtain ⟨hversion, rfl⟩ := run_ofResult_eq_ok.mp h₅
  obtain ⟨repo, s₆, h₆, hrun₆⟩ := run_bind_eq_ok.mp hrun₅
  obtain ⟨hrepo, rfl, rfl⟩ := Server.of_run_openRepo h₆
  obtain ⟨hresult, -⟩ := run_ofResult_eq_ok.mp hrun₆
  have hlookup : s₆.versionOps.versions.lookup v = some version := by
    unfold VersionOps.getVersion at hversion
    split at hversion
    · cases hversion
    next found hfound =>
      cases hversion
      exact hfound
  exact ⟨hauth, r, v, version, hrepoId, hversionId, hlookup, hrepo, hresult⟩

/-- A version that is found is recovered. -/
theorem outcome_recoveryResult {request : Request RecoveryOpenRequest}
    {r : RepositoryId} {v : VersionId} {version : Version}
    {result : RecoveryResult} (hauth : request.auth = .ok ())
    (hrepoId : Convert.parseRepoId ext request.inner.repoId = .ok r)
    (hversionId : Convert.parseVersionId ext request.inner.versionId = .ok v)
    (hlookup : s.versionOps.versions.lookup v = some version)
    (hrepo : (s.repos.lookup r).isSome)
    (hresult : RecoveryEngine.recover ext.blake3 ext.json
      (Server.repoState s r).store (Server.repoState s r).catalog
      { snapshotId := version.snapshotId
        fileFilter := request.inner.filePath.map fun path => [path] } =
          .ok result) :
    outcome (Server.recoveryResult ext request) s = .ok result := by
  have hversion : s.versionOps.getVersion v = .ok version := by
    simp only [VersionOps.getVersion, hlookup]
  unfold Server.recoveryResult
  rw [outcome_bind_of_run (run_ofResult_eq_ok.mpr ⟨hauth, rfl⟩),
    outcome_bind_of_run (run_ofResult_eq_ok.mpr ⟨hrepoId, rfl⟩),
    outcome_bind_of_run (run_ofResult_eq_ok.mpr ⟨hversionId, rfl⟩),
    outcome_bind_of_run (EStateM.run_get _),
    outcome_bind_of_run (run_ofResult_eq_ok.mpr ⟨hversion, rfl⟩),
    outcome_bind_of_run (Server.run_openRepo hrepo)]
  exact (run_eq_ok_iff.mp (run_ofResult_eq_ok.mpr ⟨hresult, rfl⟩)).1

/-- The chunks that are sent are those of the recovered files. -/
theorem exists_recover_of_chunks {request : Request RecoveryOpenRequest}
    {chunks : List RecoveryChunk}
    (h : outcome (Server.recoveryOpen ext request) s = .ok chunks) :
    ∃ result, outcome (Server.recoveryResult ext request) s = .ok result ∧
      chunks = result.recoveredFiles.map fun file =>
        Convert.makeRecoveryChunk (file.chunkHashes.head?.getD "") file.data
          file.path 0 := by
  have hrun := run_eq_ok_iff.mpr ⟨h, rfl⟩
  unfold Server.recoveryOpen at hrun
  obtain ⟨result, s₁, h₁, hrun₁⟩ := run_bind_eq_ok.mp hrun
  exact ⟨result, (run_eq_ok_iff.mp h₁).1, (Except.ok.inj (run_eq_ok_iff.mp hrun₁).1).symm⟩

theorem exists_recover_of_opened {repoId versionId : String}
    (h : Opened ext s repoId versionId) :
    ∃ result, outcome (Server.recoveryResult ext (openOf repoId versionId)) s =
      .ok result := by
  obtain ⟨chunks, hopen⟩ := h
  obtain ⟨result, hresult, -⟩ := exists_recover_of_chunks hopen
  exact ⟨result, hresult⟩

/-- A new server lists no snapshot. -/
theorem not_listed_restart (repoId snapshotId : String) :
    ¬ Listed ext (restart s) repoId snapshotId := by
  rintro ⟨limit, cursor, response, hlist, m, hm, -⟩
  obtain ⟨r, -, -, hsnapshots⟩ := snapshots_of_list hlist
  have hnone : (restart s).versionOps.listVersions r = [] := rfl
  rw [hsnapshots, hnone, List.take_nil] at hm
  cases hm

/-- A new server opens no version. -/
theorem not_opened_restart (repoId versionId : String) :
    ¬ Opened ext (restart s) repoId versionId := by
  intro hopened
  obtain ⟨result, hresult⟩ := exists_recover_of_opened hopened
  obtain ⟨-, r, v, version, -, -, hlookup, -, -⟩ := recover_of_open hresult
  cases hlookup

/-- After a restart the versions of all answered commits are listed and can be
opened exactly if no commit passed the checks of the server. -/
theorem kept_restart_iff (calls : List CommitCall) :
    (∀ answer ∈ answers ext layout s calls,
        Kept ext (restart (commitAll ext layout s calls)) answer) ↔
      ∀ done c later, calls = done ++ c :: later →
        ¬ Accepted ext layout (commitAll ext layout s done) c := by
  rw [← answers_eq_nil_iff]
  constructor
  · intro hkept
    refine List.eq_nil_iff_forall_not_mem.mpr fun answer hanswer => ?_
    obtain ⟨version, -, hlisted, -⟩ := hkept answer hanswer
    exact not_listed_restart _ _ hlisted
  · intro hnil answer hanswer
    rw [hnil] at hanswer
    cases hanswer

theorem answers_of_ok {c : CommitCall} {response : SnapshotCommitResponse}
    (h : outcome (Server.snapshotCommit ext layout c.draws c.request) s =
      .ok response) :
    answers ext layout s [c] = [(c, response)] := by
  rw [answers, h]
  rfl

/-- The commit of one snapshot with the given version identifier in its
metadata. -/
def callNamed (versionText : String) : CommitCall where
  draws := Server.drawsFrom 2
  request := Server.namedRequest versionText

/-- A commit is answered, and after a restart its version is gone. -/
theorem version_lost_by_restart :
    ∃ response, answers (Server.namedExternals ⟨BitVec.ofNat 128 4⟩) ⟨"/data"⟩
        (Server.new [⟨1#128⟩]) [callNamed ""] = [(callNamed "", response)] ∧
      ¬ ∀ answer ∈ answers (Server.namedExternals ⟨BitVec.ofNat 128 4⟩)
          ⟨"/data"⟩ (Server.new [⟨1#128⟩]) [callNamed ""],
        Kept (Server.namedExternals ⟨BitVec.ofNat 128 4⟩)
          (restart (commitAll (Server.namedExternals ⟨BitVec.ofNat 128 4⟩)
            ⟨"/data"⟩ (Server.new [⟨1#128⟩]) [callNamed ""])) answer := by
  obtain ⟨response, hanswer⟩ :=
    Server.answered_named Server.storedVersionId_unnamed
  have hanswers : answers (Server.namedExternals ⟨BitVec.ofNat 128 4⟩) ⟨"/data"⟩
      (Server.new [⟨1#128⟩]) [callNamed ""] = [(callNamed "", response)] :=
    answers_of_ok hanswer
  refine ⟨response, hanswers, fun hkept => ?_⟩
  obtain ⟨version, -, hlisted, -⟩ := hkept (callNamed "", response)
    (by rw [hanswers]; exact List.mem_singleton_self _)
  exact not_listed_restart _ _ hlisted

end Restart

section Recover

variable {blake3 : Bytes → ChunkHash} {json : Json} {st : Store}
variable {catalog : Catalog}

theorem snapshotId_foldl_recoverEntry (fileFilter : Option (List String))
    (entries : List FileEntry) (result : RecoveryResult) :
    (entries.foldl (RecoveryEngine.recoverEntry blake3 st fileFilter)
      result).snapshotId = result.snapshotId := by
  induction entries generalizing result with
  | nil =>
      rfl
  | cons entry entries ih =>
      rw [List.foldl_cons, ih, RecoveryEngine.recoverEntry]
      split
      · rfl
      · split
        · rfl
        · rfl

/-- A recovery is one of the snapshot it was asked for. -/
theorem snapshotId_of_recover {request : RecoveryRequest}
    {result : RecoveryResult}
    (h : RecoveryEngine.recover blake3 json st catalog request = .ok result) :
    result.snapshotId = request.snapshotId := by
  unfold RecoveryEngine.recover at h
  split at h
  · cases h
  · split at h
    · cases h
    · split at h
      · cases h
      · cases h
        exact snapshotId_foldl_recoverEntry _ _ _

/-- A sealed snapshot that can be read is recovered. -/
theorem exists_recover_of_sealed {snapshot : Snapshot} {request : RecoveryRequest}
    (hread : SnapshotStore.readSnapshot json catalog request.snapshotId =
      .ok snapshot)
    (hsealed : snapshot.status = .sealed) :
    ∃ result, RecoveryEngine.recover blake3 json st catalog request =
      .ok result := by
  simp only [RecoveryEngine.recover, hread, hsealed, reduceCtorEq, if_false, ne_eq,
    not_true_eq_false, Except.ok.injEq, exists_eq']

end Recover

section Traced

variable {ext : Externals} {layout : BadouDataLayout} {s₀ s : ServerState}
variable {calls : List CommitCall} {c : CommitCall}

/-- Every version in the table and every new snapshot on disk is due to one of
the calls. -/
structure Traced (ext : Externals) (s₀ : ServerState) (calls : List CommitCall)
    (s : ServerState) : Prop where
  versions : ∀ v version, s.versionOps.versions.lookup v = some version →
    ∃ c ∈ calls, c.draws.commit.versionId = v ∧
      c.draws.commit.snapshotId = version.snapshotId
  snapshots : ∀ r id data,
    (Server.repoState s r).catalog.snapshots.lookup
      (SnapshotStore.snapshotName id) = some data →
    (∃ c ∈ calls, ∃ args, Server.parseCommit ext c.request.inner = .ok args ∧
      args.repoId = r ∧ c.draws.commit.snapshotId = id ∧
      data = ext.json.snapshotToVec
        (RecoveryEngine.sealedSnapshot ext c.draws args)) ∨
    (Server.repoState s₀ r).catalog.snapshots.lookup
      (SnapshotStore.snapshotName id) = some data

theorem traced_nil (h : s₀.versionOps = .new) : Traced ext s₀ [] s₀ where
  versions := by
    intro v version hlookup
    rw [h] at hlookup
    cases hlookup
  snapshots := fun _ _ _ hlookup => Or.inr hlookup

theorem Traced.concat (h : Traced ext s₀ calls s) :
    Traced ext s₀ (calls ++ [c]) s where
  versions := by
    intro v version hlookup
    obtain ⟨c', hc', hids⟩ := h.versions v version hlookup
    exact ⟨c', List.mem_append_left _ hc', hids⟩
  snapshots := by
    intro r id data hlookup
    refine (h.snapshots r id data hlookup).imp_left ?_
    rintro ⟨c', hc', hrest⟩
    exact ⟨c', List.mem_append_left _ hc', hrest⟩

/-- One more call. -/
theorem traced_commitOne (h : Traced ext s₀ calls s) :
    Traced ext s₀ (calls ++ [c]) (commitOne ext layout s c) := by
  unfold commitOne
  obtain ⟨-, hstate⟩ | ⟨args, hparse, hstate, -⟩ :=
    Server.stateAfter_snapshotCommit_cases ext layout s c.draws c.request
  · rw [hstate]
    exact h.concat
  rw [hstate, Server.runCommit, stateAfter_zoom]
  have hlast : c ∈ calls ++ [c] := by simp
  constructor
  · intro v version hlookup
    refine CommitBackup.versions_commitBackup
      (Q := fun v version => ∃ c' ∈ calls ++ [c],
        c'.draws.commit.versionId = v ∧
          c'.draws.commit.snapshotId = version.snapshotId)
      (fun _ _ _ h => h) ?_ ?_ v version hlookup
    · intro version _ hsnapshot
      exact ⟨c, hlast, rfl, hsnapshot.symm⟩
    · exact h.concat.versions
  · intro r id data hlookup
    rw [Server.setCommitState, Server.repoState_setRepo] at hlookup
    split at hlookup
    next hr =>
      subst hr
      rcases CommitCrash.snapshots_commitBackup hlookup with ⟨hname, hdata⟩ | hold
      · exact Or.inl ⟨c, hlast, args, hparse, rfl,
          (SnapshotStore.snapshotName_injective hname).symm, hdata⟩
      · exact h.concat.snapshots _ _ _ hold
    · exact h.concat.snapshots r id data hlookup

/-- All calls of a run. -/
theorem traced_commitAll (hstart : s₀.versionOps = .new)
    (calls : List CommitCall) :
    Traced ext s₀ calls (commitAll ext layout s₀ calls) := by
  induction calls using List.reverseRecOn with
  | nil =>
      exact traced_nil hstart
  | append_singleton calls c ih =>
      rw [commitAll, List.foldl_append]
      exact traced_commitOne ih

end Traced

section Offered

variable {ext : Externals} {layout : BadouDataLayout} {s₀ s : ServerState}
variable {calls : List CommitCall} {c : CommitCall} {r : RepositoryId}
variable {args : Server.CommitArgs} {limit : Nat}

/-- The calls on a server that was just started: every call draws a new
identifier for its snapshot, and the snapshots are read back as they were
sealed. -/
structure FreshRun (ext : Externals) (s₀ : ServerState)
    (calls : List CommitCall) : Prop where
  started : s₀.versionOps = .new
  distinct : (calls.map fun c => c.draws.commit.snapshotId).Nodup
  unused : ∀ c ∈ calls, ∀ r, (Server.repoState s₀ r).catalog.snapshots.lookup
    (SnapshotStore.snapshotName c.draws.commit.snapshotId) = none
  readsBack : ∀ c ∈ calls, ∀ args,
    Server.parseCommit ext c.request.inner = .ok args →
    ext.json.snapshotFromSlice (ext.json.snapshotToVec
      (RecoveryEngine.sealedSnapshot ext c.draws args)) =
        .ok (RecoveryEngine.sealedSnapshot ext c.draws args)

/-- The version of the call is one of the first of the repository, and its
snapshot is stored. -/
def Offered (s : ServerState) (r : RepositoryId) (limit : Nat)
    (c : CommitCall) : Prop :=
  (∃ version ∈ (s.versionOps.listVersions r).take limit,
    version.snapshotId = c.draws.commit.snapshotId) ∧
  ((Server.repoState s r).catalog.snapshots.lookup
    (SnapshotStore.snapshotName c.draws.commit.snapshotId)).isSome

/-- With the version identifier it is listed with, the snapshot is found again
in the same repository. -/
def Reopens (ext : Externals) (s : ServerState) (repoId : String)
    (m : SnapshotMeta) : Prop :=
  ∃ result, outcome (Server.recoveryResult ext (openOf repoId m.versionId)) s =
      .ok result ∧
    uuidText result.snapshotId = m.snapshotId

theorem FreshRun.eq_of_snapshotId (h : FreshRun ext s₀ calls) {c' : CommitCall}
    (hc : c ∈ calls) (hc' : c' ∈ calls)
    (heq : c.draws.commit.snapshotId = c'.draws.commit.snapshotId) : c = c' :=
  List.inj_on_of_nodup_map h.distinct hc hc' heq

/-- A listed version is in the table. -/
theorem exists_lookup_of_listVersions {version : Version}
    (h : version ∈ (s.versionOps.listVersions r).take limit) :
    ∃ v, s.versionOps.versions.lookup v = some version := by
  have hlisted := List.mem_of_mem_take h
  unfold VersionOps.listVersions at hlisted
  obtain ⟨v, -, hlookup⟩ := List.mem_filterMap.mp hlisted
  exact ⟨v, hlookup⟩

/-- What is stored for a call is its sealed snapshot. -/
theorem readSnapshot_of_stored (hrun : FreshRun ext s₀ calls)
    (htraced : Traced ext s₀ calls s) (hc : c ∈ calls)
    (hstored : ((Server.repoState s r).catalog.snapshots.lookup
      (SnapshotStore.snapshotName c.draws.commit.snapshotId)).isSome) :
    ∃ args, Server.parseCommit ext c.request.inner = .ok args ∧ args.repoId = r ∧
      SnapshotStore.readSnapshot ext.json (Server.repoState s r).catalog
        c.draws.commit.snapshotId =
          .ok (RecoveryEngine.sealedSnapshot ext c.draws args) := by
  obtain ⟨data, hdata⟩ := Option.isSome_iff_exists.mp hstored
  rcases htraced.snapshots r _ data hdata with
    ⟨c', hc', args, hparse, hrepo, hid, htext⟩ | hold
  · obtain rfl := hrun.eq_of_snapshotId hc' hc hid
    refine ⟨args, hparse, hrepo, SnapshotStore.readSnapshot_of_lookup hdata ?_⟩
    rw [htext]
    exact hrun.readsBack c' hc args hparse
  · rw [hrun.unused c hc r] at hold
    cases hold

/-- The listed snapshots are those of the calls that are offered. -/
theorem mem_readSnapshots_iff (hrun : FreshRun ext s₀ calls)
    (htraced : Traced ext s₀ calls s) {snapshot : Snapshot} :
    snapshot ∈ Server.readSnapshots ext (Server.repoState s r).catalog
        ((s.versionOps.listVersions r).take limit) ↔
      ∃ c ∈ calls, ∃ args, Server.parseCommit ext c.request.inner = .ok args ∧
        Offered s r limit c ∧
        snapshot = RecoveryEngine.sealedSnapshot ext c.draws args := by
  unfold Server.readSnapshots
  rw [List.mem_filterMap]
  constructor
  · rintro ⟨version, hversion, hread⟩
    obtain ⟨v, hlookup⟩ := exists_lookup_of_listVersions hversion
    obtain ⟨c, hc, -, hid⟩ := htraced.versions v version hlookup
    rw [← hid] at hread
    have hstored : ((Server.repoState s r).catalog.snapshots.lookup
        (SnapshotStore.snapshotName c.draws.commit.snapshotId)).isSome := by
      by_contra hnone
      rw [SnapshotStore.readSnapshot, Option.not_isSome_iff_eq_none.mp hnone]
        at hread
      cases hread
    obtain ⟨args, hparse, -, hsealed⟩ :=
      readSnapshot_of_stored hrun htraced hc hstored
    rw [hsealed] at hread
    exact ⟨c, hc, args, hparse, ⟨⟨version, hversion, hid.symm⟩, hstored⟩,
      (Option.some.inj hread).symm⟩
  · rintro ⟨c, hc, args, hparse, ⟨⟨version, hversion, hid⟩, hstored⟩, rfl⟩
    obtain ⟨args', hparse', -, hsealed⟩ :=
      readSnapshot_of_stored hrun htraced hc hstored
    obtain rfl := Except.ok.inj (hparse.symm.trans hparse')
    refine ⟨version, hversion, ?_⟩
    rw [hid, hsealed]
    rfl

/-- An offered snapshot is found again exactly if it is stored with the version
identifier drawn for its commit. -/
theorem reopens_iff (hrun : FreshRun ext s₀ calls)
    (htraced : Traced ext s₀ calls s) (huuid : Server.ReadsUuids ext)
    {repoId : String} (hrepoId : Convert.parseRepoId ext repoId = .ok r)
    (hrepo : (s.repos.lookup r).isSome) (hc : c ∈ calls)
    (hparse : Server.parseCommit ext c.request.inner = .ok args)
    (hoffered : Offered s r limit c) :
    Reopens ext s repoId (Convert.snapshotToPbMeta ext
        (RecoveryEngine.sealedSnapshot ext c.draws args) repoId) ↔
      Server.storedVersionId ext c.draws args = c.draws.commit.versionId := by
  have hstored : Convert.parseVersionId ext
      (uuidText (Server.storedVersionId ext c.draws args).uuid) =
        .ok (Server.storedVersionId ext c.draws args) := by
    rw [Convert.parseVersionId, huuid]
  constructor
  · rintro ⟨result, hresult, hid⟩
    obtain ⟨-, r', v, version, hrepoId', hversionId, hlookup, -, hrecover⟩ :=
      recover_of_open hresult
    obtain rfl := Except.ok.inj (hstored.symm.trans hversionId)
    have hsnapshot : version.snapshotId = c.draws.commit.snapshotId :=
      (snapshotId_of_recover hrecover).symm.trans (uuidText_injective hid)
    obtain ⟨c', hc', hv, hid'⟩ := htraced.versions _ version hlookup
    obtain rfl := hrun.eq_of_snapshotId hc' hc (hid'.trans hsnapshot)
    exact hv.symm
  · intro hsame
    obtain ⟨⟨version, hversion, hid⟩, hfile⟩ := hoffered
    obtain ⟨v, hlookup⟩ := exists_lookup_of_listVersions hversion
    obtain ⟨c', hc', hv, hid'⟩ := htraced.versions v version hlookup
    obtain rfl := hrun.eq_of_snapshotId hc' hc (hid'.trans hid)
    obtain ⟨args', hparse', -, hread⟩ :=
      readSnapshot_of_stored hrun htraced hc hfile
    rw [← hid] at hread
    obtain ⟨result, hresult⟩ := @exists_recover_of_sealed ext.blake3 ext.json
      (Server.repoState s r).store (Server.repoState s r).catalog _
      { snapshotId := version.snapshotId, fileFilter := none } hread rfl
    have hcarried : Convert.parseVersionId ext
        (uuidText (Server.storedVersionId ext c'.draws args).uuid) = .ok v :=
      hstored.trans (congrArg Except.ok (hsame.trans hv))
    refine ⟨result, ?_, ?_⟩
    · exact @outcome_recoveryResult ext s (openOf repoId _) r v version result rfl
        hrepoId hcarried hlookup hrepo hresult
    · rw [snapshotId_of_recover hresult, hid]
      rfl

/-- After any calls, every listed snapshot is found again under the version
identifier it is listed with exactly if all offered calls are stored with the
version identifier drawn for them. -/
theorem reopens_listed_iff (hrun : FreshRun ext s₀ calls)
    (huuid : Server.ReadsUuids ext) {request : Request SnapshotListRequest}
    {response : SnapshotListResponse}
    (hrepoId : Convert.parseRepoId ext request.inner.repoId = .ok r)
    (hlist : outcome (Server.snapshotList ext request)
      (commitAll ext layout s₀ calls) = .ok response) :
    (∀ m ∈ response.snapshots,
        Reopens ext (commitAll ext layout s₀ calls) request.inner.repoId m) ↔
      ∀ c ∈ calls, ∀ args, Server.parseCommit ext c.request.inner = .ok args →
        Offered (commitAll ext layout s₀ calls) r
          (request.inner.limit.getD 100).toNat c →
        Server.storedVersionId ext c.draws args = c.draws.commit.versionId := by
  have htraced : Traced ext s₀ calls (commitAll ext layout s₀ calls) :=
    traced_commitAll hrun.started calls
  obtain ⟨r', hrepoId', hrepo, hsnapshots⟩ := snapshots_of_list hlist
  obtain rfl := Except.ok.inj (hrepoId.symm.trans hrepoId')
  rw [hsnapshots, List.forall_mem_map]
  constructor
  · intro hall c hc args hparse hoffered
    have hmem := (mem_readSnapshots_iff hrun htraced).mpr
      ⟨c, hc, args, hparse, hoffered, rfl⟩
    exact (reopens_iff hrun htraced huuid hrepoId hrepo hc hparse hoffered).mp
      (hall _ hmem)
  · intro hall snapshot hmem
    obtain ⟨c, hc, args, hparse, hoffered, rfl⟩ :=
      (mem_readSnapshots_iff hrun htraced).mp hmem
    exact (reopens_iff hrun htraced huuid hrepoId hrepo hc hparse hoffered).mpr
      (hall c hc args hparse hoffered)

end Offered

section Example

variable {ext : Externals} {layout : BadouDataLayout} {s : ServerState}
variable {c : CommitCall} {args : Server.CommitArgs}

/-- The first commit of a server is offered. -/
theorem offered_first {response : SnapshotCommitResponse} {limit : Nat}
    (hstart : s.versionOps = .new) (hlimit : 0 < limit)
    (hparent : args.parentVersionId = none)
    (hparse : Server.parseCommit ext c.request.inner = .ok args)
    (hanswer : outcome (Server.snapshotCommit ext layout c.draws c.request) s =
      .ok response) :
    Offered (commitOne ext layout s c) args.repoId limit c := by
  obtain ⟨-, result, hrun, -⟩ := Server.run_of_answer hparse hanswer
  obtain ⟨-, hstate⟩ := run_eq_ok_iff.mp hrun
  have hops : (commitOne ext layout s c).versionOps = (stateAfter
      (Server.innerCommit ext layout s c.draws args)
      (Server.commitState s args.repoId)).versions := by
    rw [commitOne, ← hstate, Server.runCommit, stateAfter_zoom]
    rfl
  obtain ⟨hsuccess, hrepo⟩ := Server.success_of_answer hparse hanswer
  have hadmits := (CommitBackup.outcome_commitBackup.mp hsuccess).1
  obtain ⟨v, id, hout⟩ := hsuccess
  obtain ⟨-, -, hpublishes⟩ := CommitBackup.publishes_of_success hout
  -- The table has just this version.
  have hversions : (commitOne ext layout s c).versionOps.repoVersions.lookup
      args.repoId = some [c.draws.commit.versionId] := by
    rw [hops]
    refine congrArg (AList.lookup args.repoId)
      (CommitBackup.versions_of_createVersion (P := fun ops => ops.repoVersions =
        (∅ : HashMap RepositoryId (List VersionId)).insert args.repoId
          [c.draws.commit.versionId]) ?_ ?_) |>.trans (AList.lookup_insert _)
    · exact VersionOps.preserves_repoVersions _ _
    · simp only [Server.commitState, hstart, hparent]
      rfl
  obtain ⟨⟨version, hlookup, hid⟩, -⟩ :=
    CommitBackup.registered_commitBackup hadmits
  refine ⟨⟨version, ?_, hid⟩, ?_⟩
  · have hlist : (commitOne ext layout s c).versionOps.listVersions args.repoId =
        [version] := by
      unfold VersionOps.listVersions
      rw [hversions, hops]
      exact List.filterMap_cons_some hlookup
    rw [hlist, List.take_of_length_le hlimit]
    exact List.mem_singleton_self _
  · rw [commitOne, hrepo]
    have hfile := hpublishes.snapshots
      (SnapshotStore.snapshotName c.draws.commit.snapshotId)
    rw [if_pos rfl] at hfile
    exact Option.isSome_of_mem hfile

/-- The snapshots of a known repository can be listed. -/
theorem exists_list {request : Request SnapshotListRequest} {r : RepositoryId}
    (hauth : request.auth = .ok ())
    (hrepoId : Convert.parseRepoId ext request.inner.repoId = .ok r)
    (hrepo : (s.repos.lookup r).isSome) :
    ∃ response, outcome (Server.snapshotList ext request) s = .ok response := by
  unfold Server.snapshotList
  rw [outcome_bind_of_run (run_ofResult_eq_ok.mpr ⟨hauth, rfl⟩),
    outcome_bind_of_run (run_ofResult_eq_ok.mpr ⟨hrepoId, rfl⟩),
    outcome_bind_of_run (EStateM.run_get _),
    outcome_bind_of_run (Server.run_openRepo hrepo)]
  exact ⟨_, rfl⟩

theorem freshRun_named {versionText : String} {v : VersionId}
    (h : Server.storedVersionId (Server.namedExternals v) (Server.drawsFrom 2)
      (Server.namedArgs versionText) = v) :
    FreshRun (Server.namedExternals v) (Server.new [⟨1#128⟩])
      [callNamed versionText] where
  started := rfl
  distinct := List.nodup_singleton _
  unused := by
    intro c _ r
    rw [Server.repoState_new]
    rfl
  readsBack := by
    intro c hc args hparse
    obtain rfl := List.mem_singleton.mp hc
    obtain rfl := Except.ok.inj
      ((Server.parseCommit_named versionText v).symm.trans hparse)
    exact Server.readsBack_named h

/-- After an answered commit its repository can be listed. -/
theorem exists_list_of_answer {response : SnapshotCommitResponse}
    (hparse : Server.parseCommit ext c.request.inner = .ok args)
    (hanswer : outcome (Server.snapshotCommit ext layout c.draws c.request) s =
      .ok response) :
    ∃ response, outcome (Server.snapshotList ext
      (listOf c.request.inner.repoId none none)) (commitAll ext layout s [c]) =
        .ok response :=
  exists_list rfl (Server.parseCommit_eq_ok hparse).1
    (Server.isSome_lookup_of_answer hparse hanswer)

theorem parseRepoId_named (versionText : String) (v : VersionId) :
    Convert.parseRepoId (Server.namedExternals v)
      (listOf (callNamed versionText).request.inner.repoId none none).inner.repoId =
        .ok ⟨1#128⟩ := by
  exact (Server.parseCommit_eq_ok (Server.parseCommit_named versionText v)).1

/-- The first draw of a version identifier. -/
def drawnVersion : VersionId :=
  (Server.drawsFrom 2).commit.versionId

theorem storedVersionId_drawn :
    Server.storedVersionId (Server.namedExternals drawnVersion)
      (Server.drawsFrom 2) (Server.namedArgs (uuidText drawnVersion.uuid)) =
        drawnVersion := by
  simp only [Server.storedVersionId, Server.namedArgs, Convert.parseVersionId,
    Server.namedExternals, uuidOfText_uuidText]

/-- A commit that has the drawn version identifier in its metadata is listed,
and found again. -/
theorem drawn_reopens :
    ∃ response, outcome (Server.snapshotList (Server.namedExternals drawnVersion)
        (listOf (callNamed (uuidText drawnVersion.uuid)).request.inner.repoId none
          none))
        (commitAll (Server.namedExternals drawnVersion) ⟨"/data"⟩
          (Server.new [⟨1#128⟩]) [callNamed (uuidText drawnVersion.uuid)]) =
            .ok response ∧
      ∀ m ∈ response.snapshots, Reopens (Server.namedExternals drawnVersion)
        (commitAll (Server.namedExternals drawnVersion) ⟨"/data"⟩
          (Server.new [⟨1#128⟩]) [callNamed (uuidText drawnVersion.uuid)])
        (listOf (callNamed (uuidText drawnVersion.uuid)).request.inner.repoId none
          none).inner.repoId m := by
  obtain ⟨answer, hanswer⟩ := Server.answered_named storedVersionId_drawn
  have hparse := Server.parseCommit_named (uuidText drawnVersion.uuid) drawnVersion
  obtain ⟨response, hlist⟩ := @exists_list_of_answer _ _ _
    (callNamed (uuidText drawnVersion.uuid)) _ _ hparse hanswer
  have hiff := reopens_listed_iff (freshRun_named storedVersionId_drawn)
    (Server.readsUuids_named _) (parseRepoId_named _ _) hlist
  refine ⟨response, hlist, hiff.mpr ?_⟩
  intro c hc args hparse' _
  obtain rfl := List.mem_singleton.mp hc
  obtain rfl := Except.ok.inj (hparse.symm.trans hparse')
  exact storedVersionId_drawn

/-- The first commit of a server is listed, and not found again if it is stored
with another version identifier than the one drawn for it. -/
theorem exists_not_reopens {answer : SnapshotCommitResponse}
    {response : SnapshotListResponse}
    (hrun : FreshRun ext s [c]) (huuid : Server.ReadsUuids ext)
    (hparent : args.parentVersionId = none)
    (hparse : Server.parseCommit ext c.request.inner = .ok args)
    (hanswer : outcome (Server.snapshotCommit ext layout c.draws c.request) s =
      .ok answer)
    (hlist : outcome (Server.snapshotList ext
      (listOf c.request.inner.repoId none none)) (commitAll ext layout s [c]) =
        .ok response)
    (hother : Server.storedVersionId ext c.draws args ≠
      c.draws.commit.versionId) :
    ∃ m ∈ response.snapshots, ¬ Reopens ext (commitAll ext layout s [c])
      c.request.inner.repoId m := by
  have htraced : Traced ext s [c] (commitAll ext layout s [c]) :=
    traced_commitAll hrun.started [c]
  have hoffered : Offered (commitAll ext layout s [c]) args.repoId 100 c :=
    offered_first hrun.started (by decide) hparent hparse hanswer
  obtain ⟨r, hrepoId, hrepo, hsnapshots⟩ := snapshots_of_list hlist
  obtain rfl := Except.ok.inj
    ((Server.parseCommit_eq_ok hparse).1.symm.trans hrepoId)
  have hmem := (mem_readSnapshots_iff hrun htraced).mpr
    ⟨c, List.mem_singleton_self c, args, hparse, hoffered, rfl⟩
  refine ⟨_, ?_, fun hreopens => hother ((reopens_iff hrun htraced huuid hrepoId
    hrepo (List.mem_singleton_self c) hparse hoffered).mp hreopens)⟩
  rw [hsnapshots]
  exact List.mem_map_of_mem hmem

/-- A commit without a version identifier in its metadata is listed with one
under which it is not found. -/
theorem unnamed_not_reopened :
    ∃ response, outcome (Server.snapshotList
        (Server.namedExternals ⟨BitVec.ofNat 128 4⟩)
        (listOf (callNamed "").request.inner.repoId none none))
        (commitAll (Server.namedExternals ⟨BitVec.ofNat 128 4⟩) ⟨"/data"⟩
          (Server.new [⟨1#128⟩]) [callNamed ""]) = .ok response ∧
      ∃ m ∈ response.snapshots, ¬ Reopens
        (Server.namedExternals ⟨BitVec.ofNat 128 4⟩)
        (commitAll (Server.namedExternals ⟨BitVec.ofNat 128 4⟩) ⟨"/data"⟩
          (Server.new [⟨1#128⟩]) [callNamed ""])
        (callNamed "").request.inner.repoId m := by
  obtain ⟨answer, hanswer⟩ :=
    Server.answered_named Server.storedVersionId_unnamed
  have hparse := Server.parseCommit_named "" ⟨BitVec.ofNat 128 4⟩
  obtain ⟨response, hlist⟩ := @exists_list_of_answer _ _ _ (callNamed "") _ _
    hparse hanswer
  have hother : Server.storedVersionId
      (Server.namedExternals ⟨BitVec.ofNat 128 4⟩) (callNamed "").draws
      (Server.namedArgs "") ≠ (callNamed "").draws.commit.versionId := by
    intro heq
    have hdrawn := Server.storedVersionId_unnamed.symm.trans heq
    exact absurd hdrawn (by decide)
  exact ⟨response, hlist, exists_not_reopens
    (freshRun_named Server.storedVersionId_unnamed) (Server.readsUuids_named _)
    rfl hparse hanswer hlist hother⟩

end Example

end VersionTable
end Badou
end HyperBackup
