import HyperBackup.Badou.GcAccounting

/-!
# What a deletion leaves of a version

The status of a version stands in the version table, its chunk list in the
index.  A deletion takes the references away in the index and leaves the table
as it is, although its errors know a transition to `Deleted`.

Over every sequence of creations, transitions, deletions and collections, a
deleted version is shown as deleted, and a sealed one keeps its chunks, if only
versions that were marked as deleted before are deleted.
-/

namespace HyperBackup
namespace Badou

/-- The version is marked as deleted, or is past that. -/
def VersionStatus.isDeleted : VersionStatus → Bool
  | .deleted => true
  | .gcPending => true
  | .purged => true
  | _ => false

/-- There is no way back from a deletion. -/
theorem VersionStatus.isDeleted_of_canTransitionTo
    {a b : VersionStatus} (hab : a.canTransitionTo b = true)
    (ha : a.isDeleted = true) :
    b.isDeleted = true := by
  cases a with
  | deleted =>
      cases b <;> simp_all [canTransitionTo, isDeleted]
  | gcPending =>
      cases b <;> simp_all [canTransitionTo, isDeleted]
  | purged =>
      simp [canTransitionTo] at hab
  | created | writing | verifying | committing | sealed | expired =>
      simp [isDeleted] at ha

namespace DeletedVersions

open Lib Lib.Program
open GcAccounting (Repo Balanced Permitted)

/-- What is done to a repository. -/
inductive Op
  | createVersion (now : DateTime) (v : VersionId) (snapshot : Uuid)
      (parentVersionId : Option VersionId)
      (chunks : List (ChunkHash × Bytes))
  | transition (v : VersionId) (target : VersionStatus)
  | deleteVersion (now : DateTime) (v : VersionId)
  | executeGc (order : IterOrder (String × ChunkIndexEntry))

section Runs

variable (layout : BadouDataLayout) (repoId : RepositoryId)

/-- Create a version; if that succeeds, write its chunks and register the
list. -/
def createVersion
    (now : DateTime) (v : VersionId) (snapshot : Uuid)
    (parentVersionId : Option VersionId) (chunks : List (ChunkHash × Bytes))
    (repo : Repo) : Repo :=
  match (VersionOps.createVersion now v snapshot repoId parentVersionId).run
      repo.versions with
  | .error _ _ => repo
  | .ok _ versions =>
      { GcAccounting.commit layout repoId now v snapshot chunks repo with
        versions := versions }

def transition (v : VersionId) (target : VersionStatus) (repo : Repo) : Repo :=
  { repo with
    versions := stateAfter (VersionOps.transition v target) repo.versions }

def step (repo : Repo) : Op → Repo
  | .createVersion now v snapshot parent chunks =>
      createVersion layout repoId now v snapshot parent chunks repo
  | .transition v target => transition v target repo
  | .deleteVersion now v => GcAccounting.deleteVersion now v repo
  | .executeGc order => GcAccounting.executeGc order repo

def run (repo : Repo) (ops : List Op) : Repo :=
  ops.foldl (step layout repoId) repo

theorem run_append (repo : Repo) (ops ops' : List Op) :
    run layout repoId repo (ops ++ ops') =
      run layout repoId (run layout repoId repo ops) ops' :=
  List.foldl_append

end Runs

section Status

/-- The status under which a version is offered. -/
def statusOf (repo : Repo) (v : VersionId) : Option VersionStatus :=
  (repo.versions.versions.lookup v).map fun version => version.status

/-- The version is offered as deleted, or past that. -/
def IsDeleted (repo : Repo) (v : VersionId) : Prop :=
  ∃ status, statusOf repo v = some status ∧ status.isDeleted = true

/-- The deletion of the version succeeds. -/
def Deletes (repo : Repo) (now : DateTime) (v : VersionId) : Prop :=
  ∃ result, outcome (VersionDeleter.deleteVersion repo.versions now v)
    repo.store.index = .ok result

/-- The version has its chunk list still, and what the index and the disk had
of these chunks. -/
def KeepsChunks (before after : Store) (v : VersionId) : Prop :=
  after.index.getVersionChunks v.uuid = before.index.getVersionChunks v.uuid ∧
    ∀ k ∈ before.index.getVersionChunks v.uuid,
      ∀ e, before.index.lookup k = some e →
        ∃ e', after.index.lookup k = some e' ∧ e'.refCount ≠ 0 ∧
          e'.path = e.path ∧
          after.files.lookup e.path = before.files.lookup e.path

/-- The operations that take chunks away. -/
def Op.Reclaims : Op → Prop
  | .createVersion .. => False
  | .transition .. => False
  | .deleteVersion .. => True
  | .executeGc .. => True

end Status

section Claims

variable (layout : BadouDataLayout) (repoId : RepositoryId)

/-- Once a version has been deleted, it is offered as such ever after. -/
def DeletionsShow (ops : List Op) : Prop :=
  ∀ done now v later, done ++ .deleteVersion now v :: later <+: ops →
    Deletes (run layout repoId .new done) now v →
    IsDeleted
      (run layout repoId .new (done ++ .deleteVersion now v :: later)) v

/-- No deletion and no collection takes a chunk from a sealed version. -/
def SealedKeep (ops : List Op) : Prop :=
  ∀ done op, done ++ [op] <+: ops → op.Reclaims →
    ∀ w, statusOf (run layout repoId .new done) w = some .sealed →
      KeepsChunks (run layout repoId .new done).store
        (run layout repoId .new (done ++ [op])).store w

/-- Which operations are in question: the identifier of a created version is
fresh and its chunks have fewer than `2 ^ 32` references; a version that is
deleted, because it exists and is not locked, is marked as deleted. -/
def Meets (repo : Repo) : Op → Prop
  | .createVersion now v snapshot _ chunks =>
      Permitted repo (.commit now v snapshot chunks)
  | .transition _ _ => True
  | .deleteVersion now v =>
      ∀ version, repo.versions.versions.lookup v = some version →
        VersionDeleter.isImmutable now version = false →
        version.status.isDeleted = true
  | .executeGc _ => True

/-- Every operation of a run meets this in the state it starts from. -/
def MeetsRun (repo : Repo) : List Op → Prop
  | [] => True
  | op :: ops =>
      Meets repo op ∧ MeetsRun (step layout repoId repo op) ops

theorem meetsRun_append (repo : Repo) (ops ops' : List Op) :
    MeetsRun layout repoId repo (ops ++ ops') ↔
      MeetsRun layout repoId repo ops ∧
        MeetsRun layout repoId (run layout repoId repo ops) ops' := by
  induction ops generalizing repo with
  | nil =>
      simp [MeetsRun, run]
  | cons op ops ih =>
      simp only [List.cons_append, MeetsRun, ih, and_assoc, run,
        List.foldl_cons]

theorem meetsRun_of_initial
    {repo : Repo} {ops ops' : List Op} (hinit : ops <+: ops')
    (hops' : MeetsRun layout repoId repo ops') :
    MeetsRun layout repoId repo ops := by
  obtain ⟨rest, rfl⟩ := hinit
  exact ((meetsRun_append layout repoId repo ops rest).mp hops').1

end Claims

section Deletion

variable {layout : BadouDataLayout} {repoId : RepositoryId}
variable {repo : Repo} {ledger : Ledger VersionId ChunkHash}
variable {now : DateTime} {v w : VersionId}

/-- A deletion is refused and changes nothing, or the version exists and is
not locked. -/
theorem deleteVersion_cases (repo : Repo) (now : DateTime) (v : VersionId) :
    (GcAccounting.deleteVersion now v repo = repo ∧ ¬ Deletes repo now v) ∨
      Permitted repo (.deleteVersion now v) := by
  by_cases hmutable : ∃ version,
      repo.versions.versions.lookup v = some version ∧
        VersionDeleter.isImmutable now version = false
  · exact Or.inr hmutable
  · left
    push Not at hmutable
    obtain ⟨e, hrun⟩ : ∃ e,
        (VersionDeleter.deleteVersion repo.versions now v).run
          repo.store.index = .error e repo.store.index :=
      VersionDeleter.run_deleteVersion_refused fun version hversion => by
        simpa using hmutable version hversion
    have hstate : stateAfter (VersionDeleter.deleteVersion repo.versions now v)
        repo.store.index = repo.store.index := by
      simp only [stateAfter, hrun]
    refine ⟨?_, ?_⟩
    · simp only [GcAccounting.deleteVersion, Store.onIndex, hstate]
    · rintro ⟨result, hresult⟩
      simp only [outcome, hrun] at hresult
      cases hresult

/-- In a repository with balanced books a version that exists and is not locked
is deleted: its list is empty then, the other lists are as they were. -/
theorem deletes_of_permitted
    (hb : Balanced layout repoId repo ledger)
    (hp : Permitted repo (.deleteVersion now v)) :
    Deletes repo now v ∧
      (∀ w, (GcAccounting.deleteVersion now v repo).store.index.getVersionChunks w =
        if w = v.uuid then [] else repo.store.index.getVersionChunks w) ∧
      ∀ k e, repo.store.index.lookup k = some e →
        ∃ e', (GcAccounting.deleteVersion now v repo).store.index.lookup k =
          some e' ∧ e'.path = e.path := by
  obtain ⟨version, hversion, hmutable⟩ := hp
  obtain ⟨result, index', hrun, -, hlists, hlookup⟩ :=
    VersionDeleter.returns_deleteVersion hversion hmutable
      fun k hk => hb.isSome_lookup hk
  obtain ⟨hout, hstate⟩ := run_eq_ok_iff.mp hrun
  refine ⟨⟨result, hout⟩, ?_, ?_⟩
  · intro w
    simp only [GcAccounting.deleteVersion, Store.index_onIndex, hstate]
    exact BadouIndex.getVersionChunks_of_insert hlists w
  · intro k e he
    simp only [GcAccounting.deleteVersion, Store.index_onIndex, hstate]
    exact ⟨_, by rw [hlookup, he]; rfl, ChunkIndexEntry.path_dropped _ e⟩

end Deletion

section Steps

variable {layout : BadouDataLayout} {repoId : RepositoryId}
variable {repo : Repo} {ledger : Ledger VersionId ChunkHash}
variable {op : Op} {now : DateTime} {v w : VersionId}

/-- A creation is refused and changes nothing, or it puts the version into the
table and the chunks where a commit puts them. -/
theorem createVersion_cases
    (layout : BadouDataLayout) (repoId : RepositoryId)
    (now : DateTime) (v : VersionId) (snapshot : Uuid)
    (parent : Option VersionId) (chunks : List (ChunkHash × Bytes))
    (repo : Repo) :
    createVersion layout repoId now v snapshot parent chunks repo = repo ∨
      (createVersion layout repoId now v snapshot parent chunks repo).store =
          (GcAccounting.commit layout repoId now v snapshot chunks repo).store ∧
        ∃ version,
          (createVersion layout repoId now v snapshot parent chunks
            repo).versions.versions = repo.versions.versions.insert v version := by
  unfold createVersion
  cases hrun : (VersionOps.createVersion now v snapshot repoId parent).run
      repo.versions with
  | error e versions =>
      exact Or.inl rfl
  | ok version versions =>
      exact Or.inr ⟨rfl, version, VersionOps.versions_of_createVersion_ok hrun⟩

/-- One operation keeps the books balanced. -/
theorem balanced_step
    (hb : Balanced layout repoId repo ledger) (hm : Meets repo op) :
    ∃ ledger', Balanced layout repoId (step layout repoId repo op) ledger' := by
  cases op with
  | createVersion now v snapshot parent chunks =>
      obtain hsame | ⟨hstore, version, hversions⟩ := createVersion_cases
        layout repoId now v snapshot parent chunks repo
      · exact ⟨ledger, by simpa only [step, hsame] using hb⟩
      · refine ⟨_, (GcAccounting.balanced_commit hb hm).of_store hstore ?_⟩
        intro w hw
        have hcommit := (VersionOps.isSome_lookup_createVersion now v w snapshot
          repoId).mp hw
        simp only [step, hversions, HashMap.lookup_insert_of]
        by_cases hwv : w = v
        · simp [hwv]
        · simpa [hwv] using hcommit
  | transition v target =>
      refine ⟨ledger, hb.of_store rfl ?_⟩
      intro w hw
      simp only [step, transition]
      obtain hsame | ⟨version, -, -, hstate⟩ :=
        VersionOps.stateAfter_transition_cases v target repo.versions
      · rwa [hsame]
      · rw [hstate, HashMap.lookup_insert_of]
        by_cases hwv : w = v
        · simp [hwv]
        · simpa [hwv] using hw
  | deleteVersion now v =>
      obtain ⟨hsame, -⟩ | hp := deleteVersion_cases repo now v
      · exact ⟨ledger, by simpa only [step, hsame] using hb⟩
      · exact ⟨_, GcAccounting.balanced_deleteVersion hb hp⟩
  | executeGc order =>
      exact ⟨ledger, GcAccounting.balanced_executeGc hb order⟩

/-- No operation takes a version out of deletion. -/
theorem isDeleted_step (hm : Meets repo op) (hv : IsDeleted repo v) :
    IsDeleted (step layout repoId repo op) v := by
  obtain ⟨status, hstatus, hdeleted⟩ := hv
  obtain ⟨version, hversion, rfl⟩ := Option.map_eq_some_iff.mp hstatus
  cases op with
  | createVersion now w snapshot parent chunks =>
      obtain hsame | ⟨-, created, hversions⟩ := createVersion_cases
        layout repoId now w snapshot parent chunks repo
      · exact ⟨_, by simpa only [step, hsame] using hstatus, hdeleted⟩
      · -- The created version is new, so it is another one.
        have hne : v ≠ w := by
          rintro rfl
          exact absurd (hm.1.symm.trans hversion) (by simp)
        refine ⟨_, ?_, hdeleted⟩
        simp only [step, statusOf, hversions, AList.lookup_insert_ne hne,
          hversion, Option.map_some]
  | transition w target =>
      obtain hsame | ⟨version', hversion', hok, hstate⟩ :=
        VersionOps.stateAfter_transition_cases w target repo.versions
      · exact ⟨_, by simpa only [step, transition, statusOf, hsame] using hstatus,
          hdeleted⟩
      · by_cases hvw : v = w
        · subst hvw
          obtain rfl := Option.some.inj (hversion.symm.trans hversion')
          refine ⟨target, ?_,
            VersionStatus.isDeleted_of_canTransitionTo hok hdeleted⟩
          simp only [step, transition, statusOf, hstate, AList.lookup_insert,
            Option.map_some]
        · refine ⟨_, ?_, hdeleted⟩
          simp only [step, transition, statusOf, hstate,
            AList.lookup_insert_ne hvw, hversion, Option.map_some]
  | deleteVersion now w =>
      exact ⟨_, hstatus, hdeleted⟩
  | executeGc order =>
      exact ⟨_, hstatus, hdeleted⟩

/-- What a version lists has a reference, and has one after an operation that
does not touch the list, the entries' paths and the files. -/
theorem keepsChunks_of_balanced
    {repo' : Repo} {ledger' : Ledger VersionId ChunkHash}
    (hb' : Balanced layout repoId repo' ledger')
    (hlist : repo'.store.index.getVersionChunks w.uuid =
      repo.store.index.getVersionChunks w.uuid)
    (hentries : ∀ k ∈ repo.store.index.getVersionChunks w.uuid,
      ∀ e, repo.store.index.lookup k = some e →
        ∃ e', repo'.store.index.lookup k = some e' ∧ e'.path = e.path ∧
          repo'.store.files.lookup e.path = repo.store.files.lookup e.path) :
    KeepsChunks repo.store repo'.store w := by
  refine ⟨hlist, ?_⟩
  intro k hk e he
  obtain ⟨e', he', hpath, hfile⟩ := hentries k hk e he
  refine ⟨e', he', ?_, hpath, hfile⟩
  rw [← hlist] at hk
  obtain ⟨l, h, hl, hh, rfl⟩ := hb'.exists_of_mem hk
  exact hb'.refCount_ne_zero hl hh he'

/-- A deletion or collection takes nothing from a sealed version. -/
theorem keepsChunks_step
    (hb : Balanced layout repoId repo ledger) (hm : Meets repo op)
    (hop : op.Reclaims) (hw : statusOf repo w = some .sealed) :
    KeepsChunks repo.store (step layout repoId repo op).store w := by
  obtain ⟨ledger', hb'⟩ := balanced_step hb hm
  cases op with
  | createVersion now v snapshot parent chunks =>
      exact hop.elim
  | transition v target =>
      exact hop.elim
  | deleteVersion now v =>
      obtain ⟨hsame, -⟩ | hp := deleteVersion_cases repo now v
      · refine keepsChunks_of_balanced hb' (by simp only [step, hsame]) ?_
        intro k hk e he
        exact ⟨e, by simpa only [step, hsame] using he, rfl, rfl⟩
      · -- The deleted version is marked as such, so it is not the sealed one.
        have hne : w.uuid ≠ v.uuid := by
          obtain ⟨version, hversion, hmutable⟩ := hp
          intro heq
          cases w
          cases v
          obtain rfl := heq
          simp only [statusOf, hversion, Option.map_some,
            Option.some.injEq] at hw
          have hdeleted := hm version hversion hmutable
          simp [hw, VersionStatus.isDeleted] at hdeleted
        obtain ⟨-, hlists, hentries⟩ := deletes_of_permitted hb hp
        refine keepsChunks_of_balanced hb' ((hlists _).trans (if_neg hne)) ?_
        intro k hk e he
        obtain ⟨e', he', hpath⟩ := hentries k e he
        exact ⟨e', he', hpath, rfl⟩
  | executeGc order =>
      obtain ⟨report, st', hrun, -, -, hlookup, hlive, -⟩ :=
        GcAccounting.collectsGarbage_of_balanced hb order
      have hstate := (run_eq_ok_iff.mp hrun).2
      have hlist : (GcAccounting.executeGc order repo).store.index.getVersionChunks
          w.uuid = repo.store.index.getVersionChunks w.uuid :=
        (GcAccounting.balanced_executeGc hb order).lists w |>.trans
          (hb.lists w).symm
      refine keepsChunks_of_balanced hb' hlist ?_
      intro k hk e he
      obtain ⟨l, h, hl, hh, rfl⟩ := hb.exists_of_mem hk
      obtain ⟨hkept, hfile⟩ := hlive w l hl h hh
      simp only [step, GcAccounting.executeGc, hstate]
      exact ⟨e, by rw [hlookup, if_neg hkept, he], rfl, hfile e he⟩

end Steps

section Run

variable {layout : BadouDataLayout} {repoId : RepositoryId}
variable {ops : List Op}

theorem balanced_run (ops : List Op) :
    ∀ {repo : Repo} {ledger : Ledger VersionId ChunkHash},
      Balanced layout repoId repo ledger → MeetsRun layout repoId repo ops →
      ∃ ledger', Balanced layout repoId (run layout repoId repo ops)
        ledger' := by
  induction ops with
  | nil =>
      intro repo ledger hb _
      exact ⟨ledger, hb⟩
  | cons op ops ih =>
      intro repo ledger hb hm
      obtain ⟨ledger', hb'⟩ := balanced_step hb hm.1
      exact ih hb' hm.2

theorem isDeleted_run {v : VersionId} (ops : List Op) :
    ∀ {repo : Repo}, MeetsRun layout repoId repo ops → IsDeleted repo v →
      IsDeleted (run layout repoId repo ops) v := by
  induction ops with
  | nil =>
      intro repo _ hv
      exact hv
  | cons op ops ih =>
      intro repo hm hv
      exact ih hm.2 (isDeleted_step hm.1 hv)

/-- The state before an operation of a run, with the books in balance. -/
theorem exists_balanced_before
    {done later : List Op} {op : Op}
    (hops : MeetsRun layout repoId .new ops)
    (hinit : done ++ op :: later <+: ops) :
    (∃ ledger, Balanced layout repoId (run layout repoId .new done) ledger) ∧
      Meets (run layout repoId .new done) op ∧
      MeetsRun layout repoId (run layout repoId .new done) (op :: later) := by
  have hrun := meetsRun_of_initial layout repoId hinit hops
  rw [meetsRun_append] at hrun
  exact ⟨balanced_run done GcAccounting.balanced_new hrun.1, hrun.2.1, hrun.2⟩

theorem deletionsShow_of_meetsRun
    (hops : MeetsRun layout repoId .new ops) :
    DeletionsShow layout repoId ops := by
  intro done now v later hinit hdeletes
  obtain ⟨-, hm, hlater⟩ := exists_balanced_before hops hinit
  rw [run_append]
  refine isDeleted_run _ hlater ?_
  obtain ⟨-, hrefused⟩ | ⟨version, hversion, hmutable⟩ :=
    deleteVersion_cases (run layout repoId .new done) now v
  · exact absurd hdeletes hrefused
  · exact ⟨version.status, by rw [statusOf, hversion]; rfl,
      hm version hversion hmutable⟩

theorem sealedKeep_of_meetsRun
    (hops : MeetsRun layout repoId .new ops) :
    SealedKeep layout repoId ops := by
  intro done op hinit hop w hw
  obtain ⟨⟨ledger, hb⟩, hm, -⟩ := exists_balanced_before hops hinit
  rw [run_append]
  exact keepsChunks_step hb hm hop hw

/-- A deletion that succeeds and shows was of a version marked as deleted. -/
theorem meetsRun_of_deletionsShow
    (hcreate : ∀ done now v snapshot parent chunks,
      done ++ [.createVersion now v snapshot parent chunks] <+: ops →
        Permitted (run layout repoId .new done)
          (.commit now v snapshot chunks))
    (hshow : DeletionsShow layout repoId ops) :
    MeetsRun layout repoId .new ops := by
  induction ops using List.reverseRecOn with
  | nil =>
      trivial
  | append_singleton ops op ih =>
      have hpart : ∀ {part}, part <+: ops → part <+: ops ++ [op] :=
        fun h => h.trans (List.prefix_append ops [op])
      have hops := ih (fun done now v snapshot parent chunks h =>
        hcreate done now v snapshot parent chunks (hpart h))
        (fun done now v later h => hshow done now v later (hpart h))
      refine (meetsRun_append layout repoId .new ops [op]).mpr
        ⟨hops, ?_, trivial⟩
      cases op with
      | createVersion now v snapshot parent chunks =>
          exact hcreate ops now v snapshot parent chunks List.prefix_rfl
      | transition v target =>
          trivial
      | executeGc order =>
          trivial
      | deleteVersion now v =>
          intro version hversion hmutable
          obtain ⟨ledger, hb⟩ := balanced_run ops GcAccounting.balanced_new hops
          have hdeletes := (deletes_of_permitted hb
            ⟨version, hversion, hmutable⟩).1
          obtain ⟨status, hstatus, hdeleted⟩ :=
            hshow ops now v [] List.prefix_rfl hdeletes
          rw [run_append] at hstatus
          have hsame : statusOf (run layout repoId .new ops) v = some status :=
            hstatus
          rw [statusOf, hversion, Option.map_some, Option.some.injEq] at hsame
          rwa [hsame]

end Run

section Results

variable (layout : BadouDataLayout) (repoId : RepositoryId) (ops : List Op)

/-- If only versions that are marked as deleted are deleted, they are offered
as deleted ever after, and sealed versions keep their chunks. -/
theorem deleted_shown_sealed_kept
    (hops : MeetsRun layout repoId .new ops) :
    DeletionsShow layout repoId ops ∧ SealedKeep layout repoId ops :=
  ⟨deletionsShow_of_meetsRun hops, sealedKeep_of_meetsRun hops⟩

/-- A version with an empty chunk, taken up to the status it is sealed with. -/
def sealedVersion : List Op :=
  [.createVersion 0 ⟨1⟩ 2 none [(.ofEmpty, [])], .transition ⟨1⟩ .writing,
    .transition ⟨1⟩ .verifying, .transition ⟨1⟩ .committing,
    .transition ⟨1⟩ .sealed]

theorem meetsRun_sealedVersion :
    MeetsRun layout repoId .new sealedVersion := by
  refine ⟨⟨rfl, ?_⟩, trivial, trivial, trivial, trivial, trivial⟩
  intro h
  have hcount : ([ChunkHash.ofEmpty] : List ChunkHash).count h ≤ 1 :=
    List.count_le_length
  have hzero : ChunkStore.refCount Repo.new.store h = 0 := rfl
  simp only [hzero, UInt32.toNat_zero, List.map_cons, List.map_nil]
  omega

/-- The BLAKE3 hash of the byte 2. -/
def twoHash : ChunkHash :=
  ⟨⟨[
    0xab, 0x13, 0xbe, 0xdf, 0x42, 0xe8, 0x4b, 0xae,
    0x0f, 0x7c, 0x62, 0xc7, 0xdd, 0x6a, 0x8a, 0xda,
    0x57, 0x1e, 0x88, 0x29, 0xbe, 0xd6, 0xea, 0x55,
    0x82, 0x17, 0xf0, 0x36, 0x1b, 0x5e, 0x25, 0xd0], rfl⟩⟩

/-- Two versions share the empty chunk, and the first has a chunk of its own;
both are sealed. -/
def sealedVersions : List Op :=
  [.createVersion 0 ⟨1⟩ 2 none [(.ofEmpty, []), (twoHash, [2])],
    .createVersion 0 ⟨3⟩ 4 none [(.ofEmpty, [])],
    .transition ⟨1⟩ .writing, .transition ⟨1⟩ .verifying,
    .transition ⟨1⟩ .committing, .transition ⟨1⟩ .sealed,
    .transition ⟨3⟩ .writing, .transition ⟨3⟩ .verifying,
    .transition ⟨3⟩ .committing, .transition ⟨3⟩ .sealed]

theorem meetsRun_sealedVersions :
    MeetsRun layout repoId .new sealedVersions := by
  have hfirst : Permitted .new
      (.commit 0 ⟨1⟩ 2 [(.ofEmpty, []), (twoHash, [2])]) := by
    refine ⟨rfl, fun h => ?_⟩
    have hcount : ([.ofEmpty, twoHash] : List ChunkHash).count h ≤ 2 :=
      List.count_le_length
    have hzero : ChunkStore.refCount Repo.new.store h = 0 := rfl
    simp only [hzero, UInt32.toNat_zero, List.map_cons, List.map_nil]
    omega
  have hb : Balanced layout repoId _ _ :=
    GcAccounting.balanced_commit GcAccounting.balanced_new hfirst
  refine ⟨hfirst, ⟨rfl, ?_⟩, trivial, trivial, trivial, trivial, trivial,
    trivial, trivial, trivial, trivial⟩
  -- The first version has brought every count to two at most.
  intro h
  have hbooks := hb.counts.toNat_refCount h
  rw [Ledger.occurrences_insert rfl] at hbooks
  have hfirstCount : ([.ofEmpty, twoHash] : List ChunkHash).count h ≤ 2 :=
    List.count_le_length
  have hcount : ([.ofEmpty] : List ChunkHash).count h ≤ 1 :=
    List.count_le_length
  refine Nat.lt_of_le_of_lt (Nat.add_le_add (hbooks.le.trans
    (Nat.add_le_add hfirstCount (Nat.le_refl 0))) hcount) ?_
  omega

/-- The first version is marked as deleted, deleted, and collected, while the
other one is sealed. -/
def markedThenDeleted : List Op :=
  sealedVersions ++ [.transition ⟨1⟩ .deleted, .deleteVersion 0 ⟨1⟩,
    .executeGc .asStored]

theorem markedThenDeleted_shown_and_kept :
    MeetsRun ⟨"/data"⟩ ⟨7⟩ .new markedThenDeleted ∧
      statusOf (run ⟨"/data"⟩ ⟨7⟩ .new markedThenDeleted) ⟨3⟩ =
        some .sealed ∧
      DeletionsShow ⟨"/data"⟩ ⟨7⟩ markedThenDeleted ∧
      SealedKeep ⟨"/data"⟩ ⟨7⟩ markedThenDeleted := by
  have hops : MeetsRun ⟨"/data"⟩ ⟨7⟩ .new markedThenDeleted := by
    refine (meetsRun_append _ _ _ _ _).mpr
      ⟨meetsRun_sealedVersions _ _, trivial, ?_, trivial, trivial⟩
    intro version hversion _
    obtain rfl := Option.some.inj hversion
    rfl
  exact ⟨hops, rfl, deleted_shown_sealed_kept _ _ _ hops⟩

/-- Without the mark the version is deleted all the same: it stays sealed and
its chunk is gone. -/
theorem sealedVersion_deleted :
    ¬ DeletionsShow ⟨"/data"⟩ ⟨7⟩
        (sealedVersion ++ [.deleteVersion 0 ⟨1⟩, .executeGc .asStored]) ∧
      ¬ SealedKeep ⟨"/data"⟩ ⟨7⟩
        (sealedVersion ++ [.deleteVersion 0 ⟨1⟩, .executeGc .asStored]) := by
  obtain ⟨ledger, hb⟩ := balanced_run sealedVersion
    GcAccounting.balanced_new (meetsRun_sealedVersion ⟨"/data"⟩ ⟨7⟩)
  have hp : Permitted (run ⟨"/data"⟩ ⟨7⟩ .new sealedVersion)
      (.deleteVersion 0 ⟨1⟩) := ⟨_, rfl, rfl⟩
  have hsealed : statusOf (run ⟨"/data"⟩ ⟨7⟩ .new sealedVersion) ⟨1⟩ =
      some .sealed := rfl
  obtain ⟨hdeletes, hlists, -⟩ := deletes_of_permitted hb hp
  constructor
  · intro hshow
    obtain ⟨status, hstatus, hdeleted⟩ := hshow sealedVersion 0 ⟨1⟩ []
      ⟨[.executeGc .asStored], by simp⟩ hdeletes
    rw [run_append] at hstatus
    obtain rfl := Option.some.inj (hsealed.symm.trans hstatus)
    cases hdeleted
  · intro hkeep
    obtain ⟨hlist, -⟩ := hkeep sealedVersion (.deleteVersion 0 ⟨1⟩)
      ⟨[.executeGc .asStored], by simp⟩ trivial ⟨1⟩ hsealed
    rw [run_append] at hlist
    have hcommit : (run ⟨"/data"⟩ ⟨7⟩ .new sealedVersion).store =
        (GcAccounting.commit ⟨"/data"⟩ ⟨7⟩ 0 ⟨1⟩ 2 [(.ofEmpty, [])] .new).store :=
      rfl
    have hnil := (hlists 1).symm.trans hlist
    rw [hcommit, GcAccounting.getVersionChunks_commit] at hnil
    simp at hnil

end Results

end DeletedVersions
end Badou
end HyperBackup
