import HyperBackup.Executor.TruthfulReport

/-!
# From a backup to its restore

A restore looks for its version in the repository of the task.  A backup by an
administrator has put it into a repository of its own, and a backup without a
token has put it nowhere; behind a hundred older versions it is not listed.  Nor
does a backup notice that the server has a damaged chunk in the place of one
that it uploads.

Where none of this happens and nothing fails, every file comes back.
-/

namespace HyperBackup
namespace Executor
namespace TaskExecutor

open Lib Lib.Program Badou Provider

section Statements

variable (setting : Setting) (spec : TaskSpec)

/-- The name under which a file is restored. -/
def nameOf (f : DirEntry × Bytes) : String :=
  (Path.fileName f.1.path).getD "restored_file"

/-- What is last written to a path. -/
def lastWrite (writes : List FileWrite) (path : String) : Option FileWrite :=
  writes.reverse.find? fun write => write.path = path

/-- The restore does not fail, and it puts every file in place. -/
def Restores (w : World) (files : List (DirEntry × Bytes)) : Prop :=
  ∃ counts w' writes, (executeRestore setting spec).run w = .ok counts w' ∧
    w'.writes = w.writes ++ writes ∧
    ∀ f ∈ files, lastWrite writes (Path.join spec.targetPath (nameOf f)) =
      some { path := Path.join spec.targetPath (nameOf f)
             data := f.2
             error := none }

/-- The version that a backup reports can be restored from the repository of the
task, whatever the target is. -/
def RoundTrips (w : World) (files : List (DirEntry × Bytes)) : Prop :=
  ∀ counts w', (executeBackup setting spec).run w = .ok counts w' →
    ∀ restore : TaskSpec, restore.repoId = spec.repoId →
      restore.sourcePath = counts.versionId → Restores setting restore w' files

/-- The tree can be read and gives its files different names, all calls are
answered, and all directories and files can be written. -/
structure Undisturbed (w : World) (files : List (DirEntry × Bytes)) : Prop where
  tree : ∃ entries, setting.machine.walk spec.sourcePath = some entries ∧
    filesOf entries = .ok files
  names : (files.map nameOf).Nodup
  answered : ∀ c, w.net.fate c = .answered
  directories : ∀ path, setting.machine.createDirAll path = .ok ()
  writes : ∀ k, setting.machine.writeError k = none

/-- The chunks are read from their JSON as they were, and among the data that
are uploaded or on the server no two have one hash. -/
structure Lossless (net : Net) (files : List (DirEntry × Bytes)) : Prop where
  chunks : ∀ data ∈ allPieces files,
    setting.codec.chunkFromSlice (setting.codec.chunkToVec (plainChunk data)) =
      .ok (plainChunk data)
  hashes : Set.InjOn setting.ext.blake3 {d |
    (∃ data ∈ allPieces files, d = (upload setting data).2) ∨
      ∃ r h, ChunkStore.readChunk setting.ext.blake3
        (Server.repoState net.server r).store h = .ok d}

/-- The backup may write, and into the repository of the task, where fewer than
a hundred versions are and no damaged chunk has the hash of an upload. -/
structure Returnable (net : Net) (files : List (DirEntry × Bytes))
    (r : RepositoryId) : Prop where
  token : jwtToken setting ≠ ""
  writes : MayWrite setting spec net r
  found : Convert.parseRepoId setting.ext spec.repoId = .ok r
  listed : (net.server.versionOps.listVersions r).length < 100
  sound : ∀ data ∈ allPieces files,
    ¬ Damaged setting.ext (Server.repoState net.server r).store
      (upload setting data).1

end Statements

section Pieces

theorem flatten_pieces (data : Bytes) : (pieces data).flatten = data := by
  rw [pieces, ← List.flatMap_def]
  exact Agent.FixedChunker.flatMap_data_pieces (by decide) _ _ _ (Nat.le_refl _)

theorem ne_nil_of_mem_pieces {data piece : Bytes} (h : piece ∈ pieces data) :
    piece ≠ [] := by
  obtain ⟨c, hc, rfl⟩ := List.mem_map.mp h
  exact Agent.FixedChunker.data_ne_nil_of_mem_pieces (by decide) _ _ _ c hc

variable {α : Type} {g : List α → List α} {ds : List (List α)}

theorem length_flatMap_le (hg : ∀ d ∈ ds, g d = d ∨ g d = []) :
    (ds.flatMap g).length ≤ ds.flatten.length := by
  induction ds with
  | nil =>
      exact Nat.le_refl 0
  | cons d ds ih =>
      have hrest := ih fun d' hd' => hg d' (List.mem_cons_of_mem _ hd')
      rw [List.flatMap_cons, List.flatten_cons, List.length_append,
        List.length_append]
      rcases hg d List.mem_cons_self with hd | hd
      · rw [hd]
        omega
      · rw [hd, List.length_nil]
        omega

/-- If pieces can get lost only as a whole, what is left of them is all exactly
if none is lost. -/
theorem flatMap_eq_flatten_iff (hg : ∀ d ∈ ds, g d = d ∨ g d = []) :
    ds.flatMap g = ds.flatten ↔ ∀ d ∈ ds, g d = d := by
  induction ds with
  | nil =>
      simp
  | cons d ds ih =>
      have hrest : ∀ d' ∈ ds, g d' = d' ∨ g d' = [] :=
        fun d' hd' => hg d' (List.mem_cons_of_mem _ hd')
      have hle := length_flatMap_le hrest
      rw [List.flatMap_cons, List.flatten_cons, List.forall_mem_cons,
        ← ih hrest]
      constructor
      · intro heq
        rcases hg d List.mem_cons_self with hd | hd
        · rw [hd] at heq
          exact ⟨hd, List.append_cancel_left heq⟩
        · -- What is missing at the front cannot be made up for later.
          rw [hd, List.nil_append] at heq
          have hlengths := congrArg List.length heq
          rw [List.length_append] at hlengths
          have hnil : d = [] := List.length_eq_zero_iff.mp (by omega)
          rw [hnil, List.nil_append] at heq
          exact ⟨hd.trans hnil.symm, heq⟩
      · rintro ⟨hd, heq⟩
        rw [hd, heq]

end Pieces

section Contents

variable (setting : Setting) (s : ServerState) (r : RepositoryId)

/-- What a restore gets of a chunk that was uploaded. -/
def contentOf (data : Bytes) : Bytes :=
  (chunkContent setting s r (upload setting data).1).getD []

/-- What a restore writes for a file whose chunks were uploaded. -/
def writeOf (targetPath : String) (f : DirEntry × Bytes) : FileWrite where
  path := Path.join targetPath (nameOf f)
  data := (pieces f.2).flatMap (contentOf setting s r)
  error := none

variable {setting s r} {spec : TaskSpec} {w : World} {fate fate' : Nat → Delivery}
variable {files : List (DirEntry × Bytes)}

theorem keptHashes_of_answered (hfate : ∀ c, fate c = .answered)
    (ds : List Bytes) :
    ∀ c, keptHashes setting fate c ds =
      ds.map fun data => (upload setting data).1 := by
  induction ds with
  | nil =>
      intro c
      rfl
  | cons d ds ih =>
      intro c
      rw [keptHashes, keptHash, if_pos (hfate c), ih, List.map_cons]

theorem fetched_of_answered (hfate : ∀ c, fate c = .answered)
    (hashes : List ChunkHash) :
    ∀ c, fetched setting s r fate c hashes =
      hashes.flatMap fun h => (chunkContent setting s r h).getD [] := by
  induction hashes with
  | nil =>
      intro c
      rfl
  | cons h hashes ih =>
      intro c
      rw [fetched, fetchedChunk, if_pos (hfate c), ih, List.flatMap_cons]

/-- If nothing fails, every file is written with what its uploads have become. -/
theorem writesOf_fileEntriesOf (hfate : ∀ c, fate c = .answered)
    (hfate' : ∀ c, fate' c = .answered)
    (hwrites : ∀ k, setting.machine.writeError k = none)
    (files : List (DirEntry × Bytes)) :
    ∀ c c' k, writesOf setting s r spec fate' c' k
        (fileEntriesOf setting fate c files) =
      files.map (writeOf setting s r spec.targetPath) := by
  induction files with
  | nil =>
      intro c c' k
      rfl
  | cons f files ih =>
      intro c c' k
      have hchunks : (fileEntryOf setting fate c f).chunks =
          (pieces f.2).map fun data => (upload setting data).1 :=
        keptHashes_of_answered hfate (pieces f.2) c
      rw [fileEntriesOf, writesOf, ih, hchunks, fetched_of_answered hfate',
        List.flatMap_map, hwrites, List.map_cons]
      rfl

theorem isAbsolute_nameOf (f : DirEntry × Bytes) :
    Path.isAbsolute (nameOf f) = false := by
  unfold nameOf
  cases hname : Path.fileName f.1.path with
  | none =>
      rfl
  | some name =>
      exact Path.isAbsolute_fileName hname

/-- Under different names no file is written over another. -/
theorem lastWrite_writeOf (hnames : (files.map nameOf).Nodup)
    {f : DirEntry × Bytes} (hf : f ∈ files) (targetPath : String) :
    lastWrite (files.map (writeOf setting s r targetPath))
        (Path.join targetPath (nameOf f)) =
      some (writeOf setting s r targetPath f) := by
  unfold lastWrite
  cases hfind : (files.map (writeOf setting s r targetPath)).reverse.find?
      fun write => write.path = Path.join targetPath (nameOf f) with
  | none =>
      have hnot := List.find?_eq_none.mp hfind (writeOf setting s r targetPath f)
        (List.mem_reverse.mpr (List.mem_map_of_mem hf))
      exact absurd (decide_eq_true rfl) hnot
  | some write =>
      obtain ⟨f', hf', rfl⟩ := List.mem_map.mp
        (List.mem_reverse.mp (List.mem_of_find?_eq_some hfind))
      have hpath : (writeOf setting s r targetPath f').path =
          Path.join targetPath (nameOf f) := by
        simpa using List.find?_some hfind
      have hname := Path.join_injOn_relative (isAbsolute_nameOf f')
        (isAbsolute_nameOf f) hpath
      rw [List.inj_on_of_nodup_map hnames hf' hf hname]

/-- With its manifest a restore puts the files in place if their uploads have
become what they were. -/
theorem restores_iff_of_manifest {v : VersionId} {m : Agent.Manifest} {c : Nat}
    (hbegins : Begins setting spec v) (hgets : GetsManifest setting spec w.net r v m)
    (hm : m.files = fileEntriesOf setting fate c files)
    (hfate : ∀ c, fate c = .answered) (hanswered : ∀ c, w.net.fate c = .answered)
    (hwrites : ∀ k, setting.machine.writeError k = none)
    (hnames : (files.map nameOf).Nodup) :
    Restores setting spec w files ↔
      ∀ f ∈ files, (pieces f.2).flatMap (contentOf setting w.net.server r) = f.2 := by
  obtain ⟨restored, net', hrun⟩ := run_download_of_manifest hgets
  rw [hm, writesOf_fileEntriesOf hfate hanswered hwrites] at hrun
  have hrestore := run_executeRestore_of_begins hbegins hrun
  have hfile : ∀ f ∈ files, (lastWrite
      (files.map (writeOf setting w.net.server r spec.targetPath))
        (Path.join spec.targetPath (nameOf f)) =
      some { path := Path.join spec.targetPath (nameOf f)
             data := f.2
             error := none } ↔
      (pieces f.2).flatMap (contentOf setting w.net.server r) = f.2) := by
    intro f hf
    rw [lastWrite_writeOf hnames hf]
    simp [writeOf]
  constructor
  · rintro ⟨counts, w', writes, hrun', hwritten, hall⟩ f hf
    obtain ⟨-, rfl⟩ := EStateM.Result.ok.inj (hrestore.symm.trans hrun')
    obtain rfl := List.append_cancel_left hwritten
    exact (hfile f hf).mp (hall f hf)
  · intro hall
    exact ⟨_, _, _, hrestore, rfl, fun f hf => (hfile f hf).mpr (hall f hf)⟩

/-- Without a manifest it puts none in place. -/
theorem restores_iff_of_none {v : VersionId} (hbegins : Begins setting spec v)
    (hnone : ∀ r m, ¬ GetsManifest setting spec w.net r v m) :
    Restores setting spec w files ↔ files = [] := by
  obtain ⟨restored, w', hrun, hunchanged⟩ := run_download_of_none hnone
  have hrestore := run_executeRestore_of_begins hbegins hrun
  constructor
  · rintro ⟨counts, w'', writes, hrun', hwritten, hall⟩
    obtain ⟨-, rfl⟩ := EStateM.Result.ok.inj (hrestore.symm.trans hrun')
    obtain rfl : writes = [] := by
      rw [hunchanged] at hwritten
      exact List.self_eq_append_right.mp hwritten
    refine List.eq_nil_iff_forall_not_mem.mpr fun f hf => ?_
    have hlast := hall f hf
    cases hlast
  · rintro rfl
    exact ⟨_, _, [], hrestore, by rw [hunchanged, List.append_nil],
      fun f hf => absurd hf List.not_mem_nil⟩

end Contents

section Server

variable {setting : Setting} {spec restore : TaskSpec} {w : World} {g : Gathered}
variable {entries : List (Except String DirEntry)}
variable {files : List (DirEntry × Bytes)} {r : RepositoryId} {data : Bytes}

theorem readChunk_written_iff (h : Dependable setting spec w)
    (hwrites : MayWrite setting spec w.net r) (hgathers : Gathers setting spec w g)
    {hash : ChunkHash} :
    ChunkStore.readChunk setting.ext.blake3 (Server.repoState
        (written setting spec r files g w.net) r).store hash = .ok data ↔
      ChunkStore.firstStored setting.ext.blake3
        (Server.repoState w.net.server r).store
          (arrived setting files w.net ++ [BaDouProvider.packedChunk setting.ext
            setting.codec (manifest setting g)]) hash = some data := by
  rw [store_written h hwrites hgathers]
  exact ChunkStore.readChunk_writeChunks_iff (h.addressed r)
    fun c hc => blake3_of_mem_arrived_append hc

/-- A damaged chunk is still there after the upload, and is not fetched. -/
theorem contentOf_written_of_damaged (h : Dependable setting spec w)
    (hwrites : MayWrite setting spec w.net r) (hgathers : Gathers setting spec w g)
    (hdamaged : Damaged setting.ext (Server.repoState w.net.server r).store
      (upload setting data).1) :
    contentOf setting (written setting spec r files g w.net) r data = [] := by
  unfold contentOf chunkContent
  cases hread : ChunkStore.readChunk setting.ext.blake3 (Server.repoState
      (written setting spec r files g w.net) r).store (upload setting data).1 with
  | error e =>
      rfl
  | ok d =>
      have hfirst := (readChunk_written_iff h hwrites hgathers).mp hread
      rw [ChunkStore.firstStored, if_pos hdamaged.1] at hfirst
      cases hold : ChunkStore.readChunk setting.ext.blake3
          (Server.repoState w.net.server r).store (upload setting data).1 with
      | ok d' =>
          exact absurd hold (hdamaged.2 d')
      | error e =>
          rw [hold] at hfirst
          cases hfirst

/-- Whether the server had the chunk or has got it, it keeps the upload under the
hash of the upload. -/
theorem firstStored_upload (h : Dependable setting spec w)
    (hundisturbed : Undisturbed setting spec w files)
    (hlossless : Lossless setting w.net files)
    (hgathers : Gathers setting spec w g) (hdata : data ∈ allPieces files)
    (hsound : ¬ Damaged setting.ext (Server.repoState w.net.server r).store
      (upload setting data).1) :
    ChunkStore.firstStored setting.ext.blake3
        (Server.repoState w.net.server r).store
          (arrived setting files w.net ++ [BaDouProvider.packedChunk setting.ext
            setting.codec (manifest setting g)]) (upload setting data).1 =
      some (upload setting data).2 := by
  unfold ChunkStore.firstStored
  split
  · next hknown =>
      have hread : ∃ d, ChunkStore.readChunk setting.ext.blake3
          (Server.repoState w.net.server r).store (upload setting data).1 =
            .ok d := by
        by_contra hunread
        exact hsound ⟨hknown, not_exists.mp hunread⟩
      obtain ⟨d, hread⟩ := hread
      obtain ⟨-, -, -, hhash⟩ := ChunkStore.readChunk_eq_ok_iff.mp hread
      have hsame := hlossless.hashes (Or.inr ⟨r, _, hread⟩)
        (Or.inl ⟨data, hdata, rfl⟩) hhash
      rw [hread, hsame]
      rfl
  · cases hfind : (arrived setting files w.net ++ [BaDouProvider.packedChunk
        setting.ext setting.codec (manifest setting g)]).find?
          fun c => c.1 = (upload setting data).1 with
    | none =>
        have harrived : upload setting data ∈ arrived setting files w.net :=
          mem_arrived hundisturbed.answered hdata
        have hnot := List.find?_eq_none.mp hfind _
          (List.mem_append_left _ harrived)
        exact absurd (decide_eq_true rfl) hnot
    | some c =>
        have hhash : c.1 = (upload setting data).1 := by
          simpa using List.find?_some hfind
        rcases List.mem_append.mp (List.mem_of_find?_eq_some hfind) with hold | hlast
        · obtain ⟨data', hdata', rfl⟩ := exists_of_mem_arrived hold
          have hsame := hlossless.hashes (Or.inl ⟨data', hdata', rfl⟩)
            (Or.inl ⟨data, hdata, rfl⟩) hhash
          exact congrArg some hsame
        · obtain ⟨entries, hwalk, hfiles⟩ := hundisturbed.tree
          rw [List.mem_singleton.mp hlast] at hhash
          exact absurd hhash.symm
            (h.alone entries files g hwalk hfiles hgathers data hdata).2

theorem contentOf_written_of_sound (h : Dependable setting spec w)
    (hundisturbed : Undisturbed setting spec w files)
    (hlossless : Lossless setting w.net files)
    (hwrites : MayWrite setting spec w.net r) (hgathers : Gathers setting spec w g)
    (hdata : data ∈ allPieces files)
    (hsound : ¬ Damaged setting.ext (Server.repoState w.net.server r).store
      (upload setting data).1) :
    contentOf setting (written setting spec r files g w.net) r data = data := by
  have hread := (readChunk_written_iff h hwrites hgathers).mpr
    (firstStored_upload h hundisturbed hlossless hgathers hdata hsound)
  rw [contentOf, chunkContent_of_upload hread (hlossless.chunks data hdata)]
  rfl

theorem mem_allPieces {f : DirEntry × Bytes} (hf : f ∈ files)
    (hdata : data ∈ pieces f.2) : data ∈ allPieces files :=
  List.mem_flatMap.mpr ⟨f, hf, hdata⟩

/-- The files are made up of their uploads exactly if the server had no damaged
chunk in the place of one. -/
theorem forall_flatMap_contentOf_iff (h : Dependable setting spec w)
    (hundisturbed : Undisturbed setting spec w files)
    (hlossless : Lossless setting w.net files)
    (hwrites : MayWrite setting spec w.net r) (hgathers : Gathers setting spec w g) :
    (∀ f ∈ files, (pieces f.2).flatMap
        (contentOf setting (written setting spec r files g w.net) r) = f.2) ↔
      ∀ data ∈ allPieces files, ¬ Damaged setting.ext
        (Server.repoState w.net.server r).store (upload setting data).1 := by
  have hlost : ∀ data, Damaged setting.ext (Server.repoState w.net.server r).store
      (upload setting data).1 →
        contentOf setting (written setting spec r files g w.net) r data = [] :=
    fun data => contentOf_written_of_damaged h hwrites hgathers
  have hkept : ∀ data ∈ allPieces files, ¬ Damaged setting.ext
      (Server.repoState w.net.server r).store (upload setting data).1 →
        contentOf setting (written setting spec r files g w.net) r data = data :=
    fun data => contentOf_written_of_sound h hundisturbed hlossless hwrites hgathers
  have hfile : ∀ f ∈ files, (pieces f.2).flatMap
      (contentOf setting (written setting spec r files g w.net) r) = f.2 ↔
        ∀ data ∈ pieces f.2,
          contentOf setting (written setting spec r files g w.net) r data = data := by
    intro f hf
    rw [← flatMap_eq_flatten_iff, flatten_pieces]
    intro data hdata
    by_cases hdamaged : Damaged setting.ext (Server.repoState w.net.server r).store
        (upload setting data).1
    · exact Or.inr (hlost data hdamaged)
    · exact Or.inl (hkept data (mem_allPieces hf hdata) hdamaged)
  constructor
  · intro hall data hdata hdamaged
    obtain ⟨f, hf, hpiece⟩ := List.mem_flatMap.mp hdata
    have hwhole := (hfile f hf).mp (hall f hf) data hpiece
    rw [hlost data hdamaged] at hwhole
    exact ne_nil_of_mem_pieces hpiece hwhole.symm
  · intro hsound f hf
    refine (hfile f hf).mpr fun data hdata => ?_
    exact hkept data (mem_allPieces hf hdata) (hsound data (mem_allPieces hf hdata))

/-- A restore from the repository of the task gets the manifest if this is where
the backup was and the version is listed. -/
theorem getsManifest_committed_iff (h : Dependable setting spec w)
    (hundisturbed : Undisturbed setting spec w files)
    (htoken : jwtToken setting ≠ "") (hwrites : MayWrite setting spec w.net r)
    (hgathers : Gathers setting spec w g) (hrepo : restore.repoId = spec.repoId)
    {r' : RepositoryId} {m : Agent.Manifest} :
    GetsManifest setting restore (committed setting spec r files g w.net) r'
        setting.draws.versionId m ↔
      (r' = r ∧ m = manifest setting g) ∧
        Convert.parseRepoId setting.ext spec.repoId = .ok r ∧
        (w.net.server.versionOps.listVersions r).length < 100 := by
  obtain ⟨entries, hwalk, hfiles⟩ := hundisturbed.tree
  obtain ⟨hserver, hfate⟩ := @committed_of_answered setting spec w g files r h hwrites
    hgathers hundisturbed.answered
  have hmanifest := @hasManifest_written_iff setting spec w g entries files r h
    hwalk hfiles hwrites hgathers
  have hlisted := @exists_listed_written_iff setting spec w g files r h hwrites
    hgathers
  constructor
  · intro hgets
    have hhas := hgets.manifest
    have hsees := hgets.listed
    have hparsed := hgets.reads.parsed
    rw [hserver] at hhas hsees
    obtain ⟨rfl, rfl⟩ := hmanifest.mp hhas
    rw [← hrepo]
    exact ⟨⟨rfl, rfl⟩, hparsed, hlisted.mp hsees⟩
  · rintro ⟨⟨rfl, rfl⟩, hparsed, hroom⟩
    have hwrote := BaDouProvider.wrote_of_run (writesTo_sent hwrites)
      (run_writeManifest_of_new setting.layout (writesTo_sent hwrites)
        (@sameVersions_sent setting spec w files r' hwrites)
        (h.version (manifest setting g)) (h.readable r' g hwrites hgathers))
    refine ⟨htoken, ⟨?_, ?_, ?_⟩, ?_, ?_, ?_, ?_⟩
    · exact Token.requireAuth_of_requireRole _ hwrites.authorized
    · exact (congrArg _ hrepo).trans hparsed
    · rw [hserver]
      exact hwrote.writes.known
    · rw [hserver]
      exact hlisted.mpr hroom
    · rw [hserver]
      exact hmanifest.mpr ⟨rfl, rfl⟩
    · rw [hfate]
      exact hundisturbed.answered _
    · rw [hfate]
      exact hundisturbed.answered _

end Server

section RoundTrips

variable {setting : Setting} {spec restore : TaskSpec} {w w' : World}
variable {files : List (DirEntry × Bytes)} {r : RepositoryId}

/-- The identifier that a backup reports is accepted by a restore. -/
theorem begins_of_undisturbed (huuid : Server.ReadsUuids setting.ext)
    (hundisturbed : Undisturbed setting spec w files) {v : VersionId}
    (hsource : restore.sourcePath = uuidText v.uuid) : Begins setting restore v where
  target := hundisturbed.directories _
  source := by
    intro hempty
    have hlength := length_uuidText v.uuid
    rw [← hsource, hempty] at hlength
    exact absurd hlength (by decide)
  parsed := by
    rw [hsource]
    exact huuid v.uuid

/-- A backup has one outcome, so it is enough to restore from that. -/
theorem roundTrips_iff_of_run {counts : TaskCounts} {P : Prop}
    (hrun : (executeBackup setting spec).run w = .ok counts w')
    (hrestore : ∀ restore : TaskSpec, restore.repoId = spec.repoId →
      restore.sourcePath = counts.versionId →
        (Restores setting restore w' files ↔ P)) :
    RoundTrips setting spec w files ↔ P := by
  constructor
  · intro hround
    exact (hrestore { spec with sourcePath := counts.versionId } rfl rfl).mp
      (hround counts w' hrun _ rfl rfl)
  · intro hP counts' w'' hrun' restore hrepo hsource
    obtain ⟨rfl, rfl⟩ := EStateM.Result.ok.inj (hrun.symm.trans hrun')
    exact (hrestore restore hrepo hsource).mpr hP

/-- What was not sent does not come back. -/
theorem roundTrips_iff_of_unsent (h : Dependable setting spec w)
    (hundisturbed : Undisturbed setting spec w files)
    (hunsent : jwtToken setting = "" ∨ ∀ r, ¬ MayWrite setting spec w.net r) :
    RoundTrips setting spec w files ↔ files = [] := by
  obtain ⟨entries, hwalk, hfiles⟩ := hundisturbed.tree
  obtain ⟨counts, w', hrun, hversion, hsame⟩ := returns_executeBackup_of_unsent
    hwalk hfiles (hunsent.imp_right fun hnot r hwrites =>
      hnot r (writesTo_asked_iff.mp hwrites))
  refine roundTrips_iff_of_run hrun fun restore _ hsource => ?_
  rw [hversion] at hsource
  refine restores_iff_of_none
    (begins_of_undisturbed h.uuids hundisturbed hsource) fun r m hgets => ?_
  refine not_hasManifest ?_ hgets.manifest
  rw [hsame.snapshotsOf]
  exact (h.version (manifest setting nothing)).version r

/-- What was sent comes back if it can be found and nothing of it was damaged
before. -/
theorem roundTrips_iff_of_mayWrite (h : Dependable setting spec w)
    (hundisturbed : Undisturbed setting spec w files)
    (hlossless : Lossless setting w.net files) (htoken : jwtToken setting ≠ "")
    (hwrites : MayWrite setting spec w.net r) :
    RoundTrips setting spec w files ↔
      files = [] ∨ Returnable setting spec w.net files r := by
  obtain ⟨entries, hwalk, hfiles⟩ := hundisturbed.tree
  obtain ⟨g, hgathers, hrun, hlists⟩ := run_executeBackup_of_writes hwalk hfiles
    htoken (writesTo_asked_iff.mpr hwrites)
  obtain ⟨hserver, hfate⟩ := @committed_of_answered setting spec w g files r h hwrites
    hgathers hundisturbed.answered
  refine roundTrips_iff_of_run hrun fun restore hrepo hsource => ?_
  have hbegins := begins_of_undisturbed (v := setting.draws.versionId) h.uuids
    hundisturbed hsource
  have hgets := fun r' m => @getsManifest_committed_iff setting spec restore w g
    files r h hundisturbed htoken hwrites hgathers hrepo r' m
  by_cases hfound : Convert.parseRepoId setting.ext spec.repoId = .ok r ∧
      (w.net.server.versionOps.listVersions r).length < 100
  · have hcontent := restores_iff_of_manifest
      (w := w.setNet (committed setting spec r files g w.net)) hbegins
      ((hgets r (manifest setting g)).mpr ⟨⟨rfl, rfl⟩, hfound⟩) hlists.files
      hundisturbed.answered (by rw [net_setNet, hfate]; exact hundisturbed.answered)
      hundisturbed.writes hundisturbed.names
    rw [net_setNet, hserver, forall_flatMap_contentOf_iff h hundisturbed hlossless
      hwrites hgathers] at hcontent
    rw [hcontent]
    constructor
    · intro hsound
      exact Or.inr ⟨htoken, hwrites, hfound.1, hfound.2, hsound⟩
    · rintro (rfl | hreturnable)
      · exact fun data hdata => absurd hdata List.not_mem_nil
      · exact hreturnable.sound
  · rw [restores_iff_of_none hbegins fun r' m hget => hfound ((hgets r' m).mp hget).2]
    refine ⟨Or.inl, ?_⟩
    rintro (hnil | hreturnable)
    · exact hnil
    · exact absurd ⟨hreturnable.found, hreturnable.listed⟩ hfound

/-- A backup can be restored exactly if it has no files or is returnable. -/
theorem roundTrips_iff_returnable (h : Dependable setting spec w)
    (hundisturbed : Undisturbed setting spec w files)
    (hlossless : Lossless setting w.net files) :
    RoundTrips setting spec w files ↔
      files = [] ∨ ∃ r, Returnable setting spec w.net files r := by
  by_cases hsent : jwtToken setting ≠ "" ∧ ∃ r, MayWrite setting spec w.net r
  · obtain ⟨htoken, r, hwrites⟩ := hsent
    rw [roundTrips_iff_of_mayWrite h hundisturbed hlossless htoken hwrites]
    refine or_congr_right ⟨fun hreturnable => ⟨r, hreturnable⟩, ?_⟩
    rintro ⟨r', hreturnable⟩
    obtain rfl : r = r' :=
      Except.ok.inj (hwrites.parsed.symm.trans hreturnable.writes.parsed)
    exact hreturnable
  · have hunsent : jwtToken setting = "" ∨ ∀ r, ¬ MayWrite setting spec w.net r := by
      by_cases htoken : jwtToken setting = ""
      · exact Or.inl htoken
      · exact Or.inr fun r hwrites => hsent ⟨htoken, r, hwrites⟩
    rw [roundTrips_iff_of_unsent h hundisturbed hunsent]
    refine ⟨Or.inl, ?_⟩
    rintro (hnil | ⟨r, hreturnable⟩)
    · exact hnil
    · exact absurd ⟨hreturnable.token, r, hreturnable.writes⟩ hsent

end RoundTrips

section Example

open BaDouProvider

theorem undisturbed_abc (role : Role) :
    Undisturbed (abcSetting role) abcSpec emptyWorld abcFiles where
  tree := ⟨_, rfl, rfl⟩
  names := List.nodup_singleton _
  answered := fun _ => rfl
  directories := fun _ => rfl
  writes := fun _ => rfl

theorem lossless_abc (role : Role) :
    Lossless (abcSetting role) emptyWorld.net abcFiles where
  chunks := by
    intro data hdata
    obtain rfl := eq_abc_of_mem_allPieces hdata
    exact chunkFromSlice_abc role
  hashes := by
    have hupload : ∀ d, ((∃ data ∈ allPieces abcFiles,
        d = (upload (abcSetting role) data).2) ∨
          ∃ r h, ChunkStore.readChunk (abcSetting role).ext.blake3
            (Server.repoState emptyWorld.net.server r).store h = .ok d) →
        d = (upload (abcSetting role) [97, 98, 99]).2 := by
      rintro d (⟨data, hdata, hd⟩ | ⟨r, h, hread⟩)
      · rw [hd, eq_abc_of_mem_allPieces hdata]
      · exact absurd hread (not_readChunk_emptyWorld r h d)
    intro d hd d' hd' _
    exact (hupload d hd).trans (hupload d' hd').symm

/-- What an operator backs up comes back. -/
theorem roundTrips_operator :
    RoundTrips (abcSetting .operator) abcSpec emptyWorld abcFiles := by
  have hwrites := @mayWrite_abc .operator rfl
  refine (roundTrips_iff_returnable (dependable_abc rfl) (undisturbed_abc .operator)
    (lossless_abc .operator)).mpr (Or.inr ⟨abcRepo .operator, ?_⟩)
  constructor
  · decide
  · exact hwrites
  · exact parseRepoId_abc .operator ⟨1#128⟩
  · decide
  · exact fun data _ hdamaged => not_chunkExists_emptyWorld _ _ hdamaged.1

/-- What an administrator backs up is not found in the repository of the task. -/
theorem not_roundTrips_admin :
    Undisturbed (abcSetting .admin) abcSpec emptyWorld abcFiles ∧
      ¬ RoundTrips (abcSetting .admin) abcSpec emptyWorld abcFiles := by
  refine ⟨undisturbed_abc .admin, fun hround => ?_⟩
  have htoken : jwtToken (abcSetting .admin) ≠ "" := by decide
  have hwrites := @mayWrite_abc .admin rfl
  rcases (roundTrips_iff_of_mayWrite (dependable_abc rfl) (undisturbed_abc .admin)
    (lossless_abc .admin) htoken hwrites).mp hround with hnil | hreturnable
  · cases hnil
  · have hfound := parseRepoId_abc .admin ⟨1#128⟩
    have hsame := Except.ok.inj (hfound.symm.trans hreturnable.found)
    exact absurd hsame (by decide)

end Example

end TaskExecutor
end Executor
end HyperBackup
