import HyperBackup.Executor.BackupRun
import HyperBackup.Executor.RestoreRun

/-!
# What a completed task has done

The report of a task says `completed` whenever the task did not fail, and what
goes wrong with the network or with a file that is written does not make it
fail.  So a completed backup may have stored nothing, and a completed restore
may have written nothing.

The report is right exactly where the calls that matter got through: for a
backup the uploads, the manifest and its commit, for a restore the manifest,
the chunks and the writes.
-/

namespace HyperBackup
namespace Executor
namespace TaskExecutor

open Lib Lib.Program Badou Provider

section Statements

variable (setting : Setting) (spec : TaskSpec)

/-- The chunks that a manifest lists. -/
def listedChunks (m : Agent.Manifest) : List ChunkHash :=
  m.files.flatMap Agent.FileEntry.chunks ++
    m.chunkRefs.map Agent.ChunkReference.hash

/-- The manifest of the version is stored, and so are all chunks it lists. -/
def VersionStored (s : ServerState) (versionId : String) : Prop :=
  ∃ v r m, versionId = uuidText v.uuid ∧
    HasManifest setting.ext setting.codec s r v m ∧
    ∀ h ∈ listedChunks m, ChunkStored setting.ext s r h

/-- Every file of the manifest of the version was written with its full
content. -/
def VersionWritten (w w' : World) (versionId : String) : Prop :=
  ∃ v r m written, setting.ext.parseUuid versionId = .ok v.uuid ∧
    Convert.parseRepoId setting.ext spec.repoId = .ok r ∧
    HasManifest setting.ext setting.codec w.net.server r v m ∧
    w'.writes = w.writes ++ written ∧
    List.Forall₂ (fun f write => ∃ content,
      fullContent setting w.net.server r f.chunks = some content ∧
      write = ({ path := targetOf spec.targetPath f, data := content, error := none } :
        FileWrite)) m.files written

/-- A report that says `completed` is right. -/
def Truthful (agentId : String) (w : World) : Prop :=
  ∀ result w', (report setting agentId spec).run w = .ok result w' →
    result.status = "completed" →
      ∃ versionId, result.versionId = some versionId ∧
        (spec.taskType = "backup" → VersionStored setting w'.net.server versionId) ∧
        (spec.taskType = "restore" → VersionWritten setting spec w w' versionId)

/-- The backup may write, its manifest is confirmed and the commit not lost, and
of every chunk there is something under the hash that the manifest lists: if its
upload is confirmed, it has not met a damaged chunk, and else the plaintext
itself is on the server. -/
structure BackupDelivered (net : Net) (files : List (DirEntry × Bytes))
    (r : RepositoryId) : Prop where
  token : jwtToken setting ≠ ""
  writes : MayWrite setting spec net r
  manifest : net.fate (net.calls + 1 + (allPieces files).length) = .answered
  commit : net.fate (net.calls + 1 + (allPieces files).length + 1) ≠ .lost
  chunks : ∀ i data, (allPieces files)[i]? = some data →
    if net.fate (net.calls + 1 + i) = .answered then
      ¬ Damaged setting.ext (Server.repoState net.server r).store
        (upload setting data).1
    else
      Available setting.ext (Server.repoState net.server r).store
        ((delivered net.fate (net.calls + 1)
          ((allPieces files).map (upload setting))).map Prod.fst)
        (setting.ext.blake3 data)

/-- The restore gets the manifest, all chunks that are not empty, and every file
can be written. -/
structure RestoreDelivered (w : World) (r : RepositoryId) (v : VersionId)
    (m : Agent.Manifest) : Prop where
  manifest : GetsManifest setting spec w.net r v m
  chunks : ∀ k h, (m.files.flatMap Agent.FileEntry.chunks)[k]? = some h →
    ChunkArrives setting w.net.server r w.net.fate (w.net.calls + 2 + k) h
  writes : ∀ i < m.files.length, setting.machine.writeError (w.writes.length + i) = none

/-- What a backup relies on: the identifiers drawn for its version are new, its
manifest is read as it was written, and nothing else hashes like the manifest. -/
structure Dependable (w : World) : Prop where
  uuids : Server.ReadsUuids setting.ext
  addressed : ∀ r, (Server.repoState w.net.server r).store.Addressed setting.layout r
  version : ∀ m, NewVersion setting.ext w.net.server
    ⟨setting.draws.manifest, setting.draws.versionId, m⟩
  readable : ∀ r g, MayWrite setting spec w.net r → Gathers setting spec w g →
    NewManifest setting.ext setting.codec (usedProvider setting spec w.net) r
      w.net.server ⟨setting.draws.manifest, setting.draws.versionId,
        manifest setting g⟩
  alone : ∀ entries files g, setting.machine.walk spec.sourcePath = some entries →
    filesOf entries = .ok files → Gathers setting spec w g →
    ∀ data ∈ allPieces files,
      setting.ext.blake3 data ≠
          (BaDouProvider.packedChunk setting.ext setting.codec
            (manifest setting g)).1 ∧
        (upload setting data).1 ≠
          (BaDouProvider.packedChunk setting.ext setting.codec
            (manifest setting g)).1

/-- A task that does not fail gets through. -/
def GetsThrough (w : World) : Prop :=
  (spec.taskType = "backup" → ∀ entries files,
    setting.machine.walk spec.sourcePath = some entries →
    filesOf entries = .ok files →
      ∃ r, BackupDelivered setting spec w.net files r) ∧
  (spec.taskType = "restore" → ∀ v, Begins setting spec v →
    ∃ r m, Convert.parseRepoId setting.ext spec.repoId = .ok r ∧
      HasManifest setting.ext setting.codec w.net.server r v m ∧
      (m.files = [] ∨ RestoreDelivered setting spec w r v m))

end Statements

section Reports

variable {setting : Setting} {spec : TaskSpec} {agentId : String} {w : World}

theorem run_report : (report setting agentId spec).run w =
    .ok (taskResult setting agentId spec (outcome (executeTask setting spec) w))
      (stateAfter (executeTask setting spec) w) := by
  unfold report
  exact (run_bind_of_ok (run_attempt _ w)).trans rfl

/-- A report says `completed` exactly if the task did not fail. -/
theorem truthful_iff_of_run : Truthful setting spec agentId w ↔
    ∀ counts w', (executeTask setting spec).run w = .ok counts w' →
      (spec.taskType = "backup" →
        VersionStored setting w'.net.server counts.versionId) ∧
      (spec.taskType = "restore" →
        VersionWritten setting spec w w' counts.versionId) := by
  unfold Truthful
  rw [run_report]
  constructor
  · intro htruthful counts w' hrun
    obtain ⟨houtcome, rfl⟩ := run_eq_ok_iff.mp hrun
    rw [houtcome] at htruthful
    obtain ⟨versionId, hversion, hkept⟩ := htruthful _ _ rfl rfl
    obtain rfl := Option.some.inj hversion
    exact hkept
  · intro hkept result w' hresult hcompleted
    obtain ⟨rfl, rfl⟩ := EStateM.Result.ok.inj hresult
    cases houtcome : outcome (executeTask setting spec) w with
    | error message =>
        rw [houtcome] at hcompleted
        have hfailed : "failed" ≠ "completed" := by decide
        exact absurd hcompleted hfailed
    | ok counts =>
        exact ⟨counts.versionId, rfl,
          hkept counts _ (run_eq_ok_iff.mpr ⟨houtcome, rfl⟩)⟩

end Reports

section Backups

variable {setting : Setting} {spec : TaskSpec} {w : World} {g : Gathered}
variable {entries : List (Except String DirEntry)}
variable {files : List (DirEntry × Bytes)} {r : RepositoryId}

theorem onlyChunks_sent (hwrites : MayWrite setting spec w.net r) :
    OnlyChunks (asked setting spec w.net).server
      (sent setting spec r files w.net).server :=
  onlyChunks_puts _ _ (writesTo_asked_iff.mpr hwrites).known

theorem writesTo_sent (hwrites : MayWrite setting spec w.net r) :
    BaDouProvider.WritesTo setting.ext (usedProvider setting spec w.net)
      (sent setting spec r files w.net).server r :=
  (onlyChunks_sent hwrites).writesTo_iff.mpr (writesTo_asked_iff.mpr hwrites)

theorem sameVersions_sent (hwrites : MayWrite setting spec w.net r) :
    SameVersions w.net.server (sent setting spec r files w.net).server :=
  sameVersions_repositoryCreate.trans (onlyChunks_sent hwrites).sameVersions

/-- What gets to the server of the chunks. -/
def arrived (setting : Setting) (files : List (DirEntry × Bytes)) (net : Net) :
    List (ChunkHash × Bytes) :=
  delivered net.fate (net.calls + 1) ((allPieces files).map (upload setting))

theorem store_sent :
    (Server.repoState (sent setting spec r files w.net).server r).store =
      stateAfter (ChunkStore.writeChunks setting.layout r
        (arrived setting files w.net)) (Server.repoState w.net.server r).store := by
  have hstore := @store_puts setting.layout r ((allPieces files).map (upload setting))
    (asked setting spec w.net)
  unfold asked at hstore
  rw [repoState_after_repositoryCreate] at hstore
  exact hstore

theorem calls_sent : (sent setting spec r files w.net).calls =
    w.net.calls + 1 + (allPieces files).length := by
  unfold sent
  rw [calls_puts, List.length_map]
  rfl

theorem fate_sent : (sent setting spec r files w.net).fate = w.net.fate := by
  unfold sent
  rw [fate_puts]
  rfl

/-- What arrives has been sent, and under its own hash. -/
theorem exists_of_mem_arrived {c : ChunkHash × Bytes}
    (hc : c ∈ arrived setting files w.net) :
    ∃ data ∈ allPieces files, c = upload setting data := by
  obtain ⟨data, hdata, hupload⟩ := List.mem_map.mp (mem_of_mem_delivered hc)
  exact ⟨data, hdata, hupload.symm⟩

theorem mem_arrived (hanswered : ∀ c, w.net.fate c = .answered) {data : Bytes}
    (hdata : data ∈ allPieces files) :
    upload setting data ∈ arrived setting files w.net := by
  obtain ⟨i, hi⟩ := List.mem_iff_getElem?.mp hdata
  refine mem_delivered (i := i) ?_ (by rw [hanswered]; exact Delivery.noConfusion)
  rw [List.getElem?_map, hi]
  rfl

/-- The manifest lists the hashes that the files have kept. -/
theorem forall_listedChunks_iff {P : ChunkHash → Prop}
    (hlists : Lists nothing g
      (fileEntriesOf setting w.net.fate (w.net.calls + 1) files)
      (keptHashes setting w.net.fate (w.net.calls + 1) (allPieces files))) :
    (∀ h ∈ listedChunks (manifest setting g), P h) ↔
      ∀ i data, (allPieces files)[i]? = some data →
        P (keptHash setting w.net.fate (w.net.calls + 1 + i) data) := by
  have hchunks : (manifest setting g).files.flatMap Agent.FileEntry.chunks =
      keptHashes setting w.net.fate (w.net.calls + 1) (allPieces files) := by
    rw [← flatMap_chunks_fileEntriesOf]
    exact congrArg _ hlists.files
  have hrefs : ∀ h ∈ (manifest setting g).chunkRefs.map Agent.ChunkReference.hash,
      h ∈ keptHashes setting w.net.fate (w.net.calls + 1) (allPieces files) := by
    intro h hh
    obtain ⟨ref, href, rfl⟩ := List.mem_map.mp hh
    exact (hlists.refs ref href).resolve_left List.not_mem_nil
  rw [← forall_keptHashes_iff, listedChunks, hchunks]
  constructor
  · intro hall h hh
    exact hall h (List.mem_append_left _ hh)
  · intro hall h hh
    exact hall h ((List.mem_append.mp hh).elim id (hrefs h))

/-- The version that is written. -/
def versionWrite (setting : Setting) (g : Gathered) : BaDouProvider.ManifestWrite :=
  ⟨setting.draws.manifest, setting.draws.versionId, manifest setting g⟩

/-- The server after a manifest that was confirmed and whose commit got there. -/
def written (setting : Setting) (spec : TaskSpec) (r : RepositoryId)
    (files : List (DirEntry × Bytes)) (g : Gathered) (net : Net) : ServerState :=
  BaDouProvider.writeOne setting.ext setting.layout setting.codec
    (usedProvider setting spec net) (sent setting spec r files net).server
    (versionWrite setting g)

theorem hasManifest_written_iff (h : Dependable setting spec w)
    (hwalk : setting.machine.walk spec.sourcePath = some entries)
    (hfiles : filesOf entries = .ok files) (hwrites : MayWrite setting spec w.net r)
    (hgathers : Gathers setting spec w g) {r' : RepositoryId} {m : Agent.Manifest} :
    HasManifest setting.ext setting.codec (written setting spec r files g w.net) r'
        setting.draws.versionId m ↔
      r' = r ∧ m = manifest setting g := by
  refine hasManifest_writeOne_iff (w := versionWrite setting g) h.uuids
    (h.addressed r) (writesTo_sent hwrites) (sameVersions_sent hwrites)
    (h.version _) (h.readable r g hwrites hgathers) store_sent ?_ ?_
  · intro c hc
    obtain ⟨data, -, rfl⟩ := exists_of_mem_arrived hc
    rfl
  · intro c hc
    obtain ⟨data, hdata, rfl⟩ := exists_of_mem_arrived hc
    exact (h.alone entries files g hwalk hfiles hgathers data hdata).2

theorem run_writeManifest_sent (h : Dependable setting spec w)
    (hwrites : MayWrite setting spec w.net r) (hgathers : Gathers setting spec w g) :
    ((usedProvider setting spec w.net).writeManifest reliable setting.ext
      setting.layout setting.codec setting.draws.manifest setting.draws.versionId
        (manifest setting g)).run (sent setting spec r files w.net).server =
      .ok () (written setting spec r files g w.net) :=
  run_writeManifest_of_new setting.layout (writesTo_sent hwrites)
    (sameVersions_sent hwrites) (h.version _) (h.readable r g hwrites hgathers)

/-- The backup keeps every chunk of the server in its own file. -/
theorem addressed_written (h : Dependable setting spec w)
    (hwrites : MayWrite setting spec w.net r) (hgathers : Gathers setting spec w g)
    (r' : RepositoryId) :
    (Server.repoState (written setting spec r files g w.net) r').store.Addressed
      setting.layout r' := by
  have hasked : ∀ r', (Server.repoState (asked setting spec w.net).server
      r').store.Addressed setting.layout r' := by
    intro r'
    unfold asked
    rw [repoState_after_repositoryCreate]
    exact h.addressed r'
  have hsent : ∀ r', (Server.repoState (sent setting spec r files w.net).server
      r').store.Addressed setting.layout r' :=
    addressed_puts _ _ hasked
  exact addressed_of_run (w := versionWrite setting g)
    (run_writeManifest_sent h hwrites hgathers) hsent r'

/-- Identifiers that the backup has not drawn are as new as they were. -/
theorem newVersion_written (h : Dependable setting spec w)
    (hwrites : MayWrite setting spec w.net r) (hgathers : Gathers setting spec w g)
    {write : BaDouProvider.ManifestWrite}
    (hnew : NewVersion setting.ext w.net.server write)
    (hdiffers : write.versionId ≠ setting.draws.versionId)
    (hcommitted : write.committedVersion ≠ (versionWrite setting g).committedVersion)
    (hsnapshot : write.committedSnapshot ≠ (versionWrite setting g).committedSnapshot) :
    NewVersion setting.ext (written setting spec r files g w.net) write :=
  (hnew.of_sameVersions (sameVersions_sent hwrites)).of_run h.uuids
    (writesTo_sent hwrites) (run_writeManifest_sent h hwrites hgathers)
    ((h.version _).of_sameVersions (sameVersions_sent hwrites))
    (h.readable r g hwrites hgathers) hdiffers hcommitted hsnapshot

/-- The server after a backup whose manifest and commit got through. -/
theorem server_committed (h : Dependable setting spec w)
    (hwrites : MayWrite setting spec w.net r) (hgathers : Gathers setting spec w g)
    (hmanifest : w.net.fate (w.net.calls + 1 + (allPieces files).length) = .answered)
    (hcommit : w.net.fate (w.net.calls + 1 + (allPieces files).length + 1) ≠ .lost) :
    (committed setting spec r files g w.net).server =
      written setting spec r files g w.net := by
  obtain ⟨data, hencode⟩ := (h.readable r g hwrites hgathers).encodes
  refine BaDouProvider.server_writeManifest_faulty hencode (writesTo_sent hwrites)
    ?_ ?_
  · rw [fate_sent, calls_sent]
    exact hmanifest
  · rw [fate_sent, calls_sent]
    exact hcommit

theorem blake3_of_mem_arrived_append {c : ChunkHash × Bytes}
    (hc : c ∈ arrived setting files w.net ++ [BaDouProvider.packedChunk setting.ext
      setting.codec (manifest setting g)]) : setting.ext.blake3 c.2 = c.1 := by
  rcases List.mem_append.mp hc with hold | hlast
  · obtain ⟨data, -, rfl⟩ := exists_of_mem_arrived hold
    rfl
  · rw [List.mem_singleton.mp hlast]
    rfl

/-- The store then has what arrived, and the manifest. -/
theorem store_written (h : Dependable setting spec w)
    (hwrites : MayWrite setting spec w.net r) (hgathers : Gathers setting spec w g) :
    (Server.repoState (written setting spec r files g w.net) r).store =
      stateAfter (ChunkStore.writeChunks setting.layout r
        (arrived setting files w.net ++ [BaDouProvider.packedChunk setting.ext
          setting.codec (manifest setting g)]))
        (Server.repoState w.net.server r).store :=
  store_writeOne_of_new (w := versionWrite setting g) (writesTo_sent hwrites)
    (sameVersions_sent hwrites) (h.version _) (h.readable r g hwrites hgathers)
    store_sent

theorem chunkStored_written_iff (h : Dependable setting spec w)
    (hwrites : MayWrite setting spec w.net r) (hgathers : Gathers setting spec w g)
    {hash : ChunkHash} :
    ChunkStored setting.ext (written setting spec r files g w.net) r hash ↔
      Available setting.ext (Server.repoState w.net.server r).store
        ((arrived setting files w.net).map Prod.fst ++
          [(BaDouProvider.packedChunk setting.ext setting.codec
            (manifest setting g)).1]) hash := by
  unfold ChunkStored
  rw [store_written h hwrites hgathers, exists_readChunk_writeChunks_iff
    (h.addressed r) fun c hc => blake3_of_mem_arrived_append hc, List.map_append]
  rfl

/-- An upload that is new to the server is read under its hash. -/
theorem readChunk_written_of_new (h : Dependable setting spec w)
    (hwalk : setting.machine.walk spec.sourcePath = some entries)
    (hfiles : filesOf entries = .ok files) (hwrites : MayWrite setting spec w.net r)
    (hgathers : Gathers setting spec w g) (hanswered : ∀ c, w.net.fate c = .answered)
    {data : Bytes} (hdata : data ∈ allPieces files)
    (hnew : ¬ ChunkStore.chunkExists (Server.repoState w.net.server r).store
      (upload setting data).1)
    (halone : ∀ data' ∈ allPieces files, (upload setting data').1 =
      (upload setting data).1 → (upload setting data').2 = (upload setting data).2) :
    ChunkStore.readChunk setting.ext.blake3 (Server.repoState
        (written setting spec r files g w.net) r).store (upload setting data).1 =
      .ok (upload setting data).2 := by
  rw [store_written h hwrites hgathers]
  refine readChunk_of_new (h.addressed r) (fun c hc => blake3_of_mem_arrived_append hc)
    (List.mem_append_left _ (mem_arrived hanswered hdata)) hnew fun c hc hhash => ?_
  rcases List.mem_append.mp hc with hold | hlast
  · obtain ⟨data', hdata', rfl⟩ := exists_of_mem_arrived hold
    exact halone data' hdata' hhash
  · rw [List.mem_singleton.mp hlast] at hhash
    exact absurd hhash.symm (h.alone entries files g hwalk hfiles hgathers data hdata).2

/-- An upload that can be read and decoded has the content that was uploaded. -/
theorem chunkContent_of_upload {s : ServerState} {hash : ChunkHash} {data : Bytes}
    (hread : ChunkStore.readChunk setting.ext.blake3 (Server.repoState s r).store hash =
      .ok (upload setting data).2)
    (hdecode : setting.codec.chunkFromSlice
      (setting.codec.chunkToVec (plainChunk data)) = .ok (plainChunk data)) :
    chunkContent setting s r hash = some data := by
  have hupload : setting.codec.chunkFromSlice (upload setting data).2 =
      .ok (plainChunk data) :=
    hdecode
  unfold chunkContent
  rw [hread]
  simp only [hupload]
  rfl

theorem chunkContent_congr {next : Setting} (hext : next.ext = setting.ext)
    (hcodec : next.codec = setting.codec) (s : ServerState) (hash : ChunkHash) :
    chunkContent next s r hash = chunkContent setting s r hash := by
  unfold chunkContent
  rw [hext, hcodec]

/-- After a backup a task can be relied on that backs nothing up, if its
identifiers are new. -/
theorem Dependable.next (h : Dependable setting spec w)
    (hwrites : MayWrite setting spec w.net r) (hgathers : Gathers setting spec w g)
    {next : Setting} {task : TaskSpec} {w' : World}
    (hserver : w'.net.server = written setting spec r files g w.net)
    (hext : next.ext = setting.ext) (hlayout : next.layout = setting.layout)
    (hwalk : next.machine.walk task.sourcePath = none)
    (hnew : ∀ m, NewVersion setting.ext (written setting spec r files g w.net)
      ⟨next.draws.manifest, next.draws.versionId, m⟩) :
    Dependable next task w' where
  uuids := by
    rw [hext]
    exact h.uuids
  addressed := by
    rw [hserver, hlayout]
    exact addressed_written h hwrites hgathers
  version := by
    rw [hserver, hext]
    exact hnew
  readable := by
    rintro r g - ⟨entries, w'', htree, -⟩
    rw [hwalk] at htree
    cases htree
  alone := by
    intro entries files g htree
    rw [hwalk] at htree
    cases htree

/-- The hash that is kept for a chunk leads to it exactly if the chunk is on the
server under that hash. -/
theorem available_keptHash_iff {i : Nat} {data : Bytes} {root : ChunkHash}
    {st : Store} (hi : (allPieces files)[i]? = some data)
    (hroot : setting.ext.blake3 data ≠ root) :
    Available setting.ext st ((arrived setting files w.net).map Prod.fst ++ [root])
        (keptHash setting w.net.fate (w.net.calls + 1 + i) data) ↔
      if w.net.fate (w.net.calls + 1 + i) = .answered then
        ¬ Damaged setting.ext st (upload setting data).1
      else
        Available setting.ext st ((arrived setting files w.net).map Prod.fst)
          (setting.ext.blake3 data) := by
  unfold keptHash
  by_cases hfate : w.net.fate (w.net.calls + 1 + i) = .answered
  · have harrived : upload setting data ∈ arrived setting files w.net := by
      refine mem_delivered (i := i) ?_ (by rw [hfate]; exact Delivery.noConfusion)
      rw [List.getElem?_map, hi]
      rfl
    have huploaded : (upload setting data).1 ∈
        (arrived setting files w.net).map Prod.fst ++ [root] :=
      List.mem_append_left _ (List.mem_map_of_mem harrived)
    rw [if_pos hfate, if_pos hfate]
    exact available_iff_of_mem huploaded
  · rw [if_neg hfate, if_neg hfate]
    unfold Available
    rw [List.mem_append, List.mem_singleton, or_iff_left hroot]

theorem versionId_countsOf :
    (countsOf setting g).versionId = uuidText setting.draws.versionId.uuid :=
  rfl

/-- The identifier that is reported is that of the version. -/
theorem eq_of_uuidText (huuid : Server.ReadsUuids setting.ext) {v v' : VersionId}
    (h : uuidText v.uuid = uuidText v'.uuid) : v = v' := by
  have hv := huuid v.uuid
  rw [h, huuid v'.uuid] at hv
  cases v
  cases v'
  exact congrArg _ (Except.ok.inj hv).symm

/-- A server without new versions has not stored the version. -/
theorem not_versionStored_of_sameVersions (h : Dependable setting spec w)
    {s : ServerState} (hsame : SameVersions w.net.server s) :
    ¬ VersionStored setting s (uuidText setting.draws.versionId.uuid) := by
  rintro ⟨v, r, m, hv, hmanifest, -⟩
  obtain rfl := eq_of_uuidText h.uuids hv
  refine not_hasManifest ?_ hmanifest
  rw [hsame.snapshotsOf]
  exact (h.version m).version r

/-- A backup that may write has stored its version exactly if its calls got
through. -/
theorem versionStored_committed_iff (h : Dependable setting spec w)
    (hwalk : setting.machine.walk spec.sourcePath = some entries)
    (hfiles : filesOf entries = .ok files) (htoken : jwtToken setting ≠ "")
    (hwrites : MayWrite setting spec w.net r) (hgathers : Gathers setting spec w g)
    (hlists : Lists nothing g
      (fileEntriesOf setting w.net.fate (w.net.calls + 1) files)
      (keptHashes setting w.net.fate (w.net.calls + 1) (allPieces files))) :
    VersionStored setting (committed setting spec r files g w.net).server
        (uuidText setting.draws.versionId.uuid) ↔
      BackupDelivered setting spec w.net files r := by
  have halone := h.alone entries files g hwalk hfiles hgathers
  by_cases hsent : w.net.fate (w.net.calls + 1 + (allPieces files).length) =
      .answered ∧
      w.net.fate (w.net.calls + 1 + (allPieces files).length + 1) ≠ .lost
  · have hserver := @server_committed setting spec w g files r h hwrites
      hgathers hsent.1 hsent.2
    have hchunks : (∀ hash ∈ listedChunks (manifest setting g),
        ChunkStored setting.ext (written setting spec r files g w.net) r hash) ↔
          ∀ i data, (allPieces files)[i]? = some data →
            if w.net.fate (w.net.calls + 1 + i) = .answered then
              ¬ Damaged setting.ext (Server.repoState w.net.server r).store
                (upload setting data).1
            else
              Available setting.ext (Server.repoState w.net.server r).store
                ((arrived setting files w.net).map Prod.fst)
                (setting.ext.blake3 data) := by
      simp only [chunkStored_written_iff h hwrites hgathers]
      rw [forall_listedChunks_iff hlists]
      refine forall_congr' fun i => forall_congr' fun data =>
        forall_congr' fun hi => ?_
      exact available_keptHash_iff hi (halone data (List.mem_of_getElem? hi)).1
    rw [hserver]
    constructor
    · rintro ⟨v, r', m, hv, hmanifest, hstored⟩
      obtain rfl := eq_of_uuidText h.uuids hv
      obtain ⟨rfl, rfl⟩ :=
        (hasManifest_written_iff h hwalk hfiles hwrites hgathers).mp hmanifest
      exact ⟨htoken, hwrites, hsent.1, hsent.2, hchunks.mp hstored⟩
    · intro hdelivered
      exact ⟨setting.draws.versionId, r, manifest setting g, rfl,
        (hasManifest_written_iff h hwalk hfiles hwrites hgathers).mpr ⟨rfl, rfl⟩,
        hchunks.mpr hdelivered.chunks⟩
  · have hchunks : OnlyChunks (sent setting spec r files w.net).server
        (committed setting spec r files g w.net).server := by
      refine BaDouProvider.onlyChunks_writeManifest_faulty fun r' _ hfate => ?_
      rw [fate_sent, calls_sent] at hfate ⊢
      by_contra hlost
      exact hsent ⟨hfate, hlost⟩
    refine iff_of_false ?_ fun hdelivered =>
      hsent ⟨hdelivered.manifest, hdelivered.commit⟩
    exact not_versionStored_of_sameVersions h
      ((sameVersions_sent hwrites).trans hchunks.sameVersions)

/-- Behind the listing of before the new version is listed, if there is room. -/
theorem listed_written (h : Dependable setting spec w)
    (hwrites : MayWrite setting spec w.net r) (hgathers : Gathers setting spec w g) :
    BaDouProvider.listed setting.ext (written setting spec r files g w.net) r =
      BaDouProvider.listed setting.ext w.net.server r ++
        ([versionWrite setting g].take
          (100 - (w.net.server.versionOps.listVersions r).length)).map
            (BaDouProvider.sealedFor setting.ext setting.codec
              (usedProvider setting spec w.net) r) := by
  have hnew := h.version (manifest setting g)
  have hreadable := h.readable r g hwrites hgathers
  have hsame := @sameVersions_sent setting spec w files r hwrites
  have hfresh : BaDouProvider.Fresh (sent setting spec r files w.net).server r
      [versionWrite setting g] := by
    refine ⟨List.nodup_singleton _, ?_, List.nodup_singleton _, ?_⟩
    · intro write hwrite
      rw [List.mem_singleton.mp hwrite, hsame.versionOps]
      exact hnew.committed r
    · intro write hwrite
      rw [List.mem_singleton.mp hwrite, hsame.versionOps]
      exact hnew.snapshot r
  have hjson : BaDouProvider.ReadsSealed setting.ext setting.codec
      (usedProvider setting spec w.net) r [versionWrite setting g] := by
    intro write hwrite
    rw [List.mem_singleton.mp hwrite]
    exact hreadable.sealed
  have hrun := run_writeManifest_of_new setting.layout (writesTo_sent hwrites)
    hsame hnew hreadable
  have hafter := BaDouProvider.after_writeAll (writesTo_sent hwrites)
    [versionWrite setting g] hfresh ⟨(run_eq_ok_iff.mp hrun).1, trivial⟩
  have hlisted := BaDouProvider.listed_after hfresh hjson hafter
  rw [hsame.versionOps, hsame.listed] at hlisted
  exact hlisted

/-- The new version is listed if it is among the first hundred. -/
theorem exists_listed_written_iff (h : Dependable setting spec w)
    (hwrites : MayWrite setting spec w.net r) (hgathers : Gathers setting spec w g) :
    (∃ snap ∈ BaDouProvider.listed setting.ext
        (written setting spec r files g w.net) r,
          snap.versionId = setting.draws.versionId) ↔
      (w.net.server.versionOps.listVersions r).length < 100 := by
  have hold : ∀ snap ∈ BaDouProvider.listed setting.ext w.net.server r,
      snap.versionId ≠ setting.draws.versionId := by
    intro snap hsnap
    have hmem := listed_prefix.subset hsnap
    exact (h.version (manifest setting g)).version r snap hmem
  have hsealed : (BaDouProvider.sealedFor setting.ext setting.codec
      (usedProvider setting spec w.net) r (versionWrite setting g)).versionId =
        setting.draws.versionId :=
    BaDouProvider.versionId_sealedFor h.uuids
  rw [listed_written h hwrites hgathers]
  constructor
  · rintro ⟨snap, hsnap, hversion⟩
    rcases List.mem_append.mp hsnap with hmem | hmem
    · exact absurd hversion (hold snap hmem)
    · by_contra hfull
      rw [Nat.sub_eq_zero_of_le (Nat.le_of_not_lt hfull), List.take_zero] at hmem
      cases hmem
  · intro hroom
    refine ⟨_, List.mem_append_right _ ?_, hsealed⟩
    obtain ⟨n, hn⟩ := Nat.exists_eq_succ_of_ne_zero (Nat.sub_ne_zero_of_lt hroom)
    rw [hn]
    exact List.mem_cons_self

/-- What the backup leaves on the server and on the network. -/
theorem committed_of_answered (h : Dependable setting spec w)
    (hwrites : MayWrite setting spec w.net r) (hgathers : Gathers setting spec w g)
    (hanswered : ∀ c, w.net.fate c = .answered) :
    (committed setting spec r files g w.net).server =
        written setting spec r files g w.net ∧
      (committed setting spec r files g w.net).fate = w.net.fate := by
  obtain ⟨data, hencode⟩ := (h.readable r g hwrites hgathers).encodes
  constructor
  · refine server_committed h hwrites hgathers (hanswered _) ?_
    rw [hanswered]
    exact Delivery.noConfusion
  · unfold committed
    rw [BaDouProvider.fate_writeManifest_faulty hencode, fate_sent]

/-- A backup that does not fail has stored its version exactly if its calls got
through. -/
theorem backup_iff (h : Dependable setting spec w) :
    (∀ counts w', (executeBackup setting spec).run w = .ok counts w' →
        VersionStored setting w'.net.server counts.versionId) ↔
      ∀ entries files, setting.machine.walk spec.sourcePath = some entries →
        filesOf entries = .ok files →
          ∃ r, BackupDelivered setting spec w.net files r := by
  constructor
  · intro hstored entries files hwalk hfiles
    by_cases hsent : jwtToken setting ≠ "" ∧ ∃ r, MayWrite setting spec w.net r
    · obtain ⟨htoken, r, hwrites⟩ := hsent
      obtain ⟨g, hgathers, hrun, hlists⟩ := run_executeBackup_of_writes hwalk hfiles
        htoken (writesTo_asked_iff.mpr hwrites)
      have hnow := hstored _ _ hrun
      rw [versionId_countsOf, net_setNet] at hnow
      exact ⟨r, (versionStored_committed_iff h hwalk hfiles htoken hwrites hgathers
        hlists).mp hnow⟩
    · have hunsent : jwtToken setting = "" ∨ ∀ r, ¬ BaDouProvider.WritesTo
          setting.ext (usedProvider setting spec w.net)
            (asked setting spec w.net).server r := by
        by_cases htoken : jwtToken setting = ""
        · exact Or.inl htoken
        · exact Or.inr fun r hwrites =>
            hsent ⟨htoken, r, writesTo_asked_iff.mp hwrites⟩
      obtain ⟨counts, w', hrun, hversion, hsame⟩ :=
        returns_executeBackup_of_unsent hwalk hfiles hunsent
      have hnow := hstored counts w' hrun
      rw [hversion] at hnow
      exact absurd hnow (not_versionStored_of_sameVersions h hsame)
  · intro hdelivered counts w' hrun
    cases hwalk : setting.machine.walk spec.sourcePath with
    | none =>
        unfold executeBackup at hrun
        rw [hwalk] at hrun
        cases hrun
    | some entries =>
        cases hfiles : filesOf entries with
        | error message =>
            have herror := outcome_executeBackup_error (w := w) hwalk hfiles
            rw [(run_eq_ok_iff.mp hrun).1] at herror
            cases herror
        | ok files =>
            obtain ⟨r, hd⟩ := hdelivered entries files hwalk hfiles
            obtain ⟨g, hgathers, hrun', hlists⟩ := run_executeBackup_of_writes hwalk
              hfiles hd.token (writesTo_asked_iff.mpr hd.writes)
            obtain ⟨rfl, rfl⟩ := EStateM.Result.ok.inj (hrun.symm.trans hrun')
            rw [versionId_countsOf, net_setNet]
            exact (versionStored_committed_iff h hwalk hfiles hd.token hd.writes
              hgathers hlists).mpr hd

end Backups

section Restores

variable {setting : Setting} {spec : TaskSpec} {w w' : World}
variable {s : ServerState} {r : RepositoryId} {v : VersionId} {m : Agent.Manifest}

/-- A version has one manifest in a repository. -/
theorem hasManifest_unique {m' : Agent.Manifest}
    (h : HasManifest setting.ext setting.codec s r v m)
    (h' : HasManifest setting.ext setting.codec s r v m') : m = m' := by
  obtain ⟨snap, hfind, hash, data, hparse, hread, hunpack⟩ := h
  obtain ⟨snap', hfind', hash', data', hparse', hread', hunpack'⟩ := h'
  obtain rfl := Option.some.inj (hfind.symm.trans hfind')
  obtain rfl := Except.ok.inj (hparse.symm.trans hparse')
  obtain rfl := Except.ok.inj (hread.symm.trans hread')
  exact Except.ok.inj (hunpack.symm.trans hunpack')

theorem GetsManifest.unique {net : Net} {r' : RepositoryId} {m' : Agent.Manifest}
    (h : GetsManifest setting spec net r v m)
    (hparse : Convert.parseRepoId setting.ext spec.repoId = .ok r')
    (hmanifest : HasManifest setting.ext setting.codec net.server r' v m') :
    r' = r ∧ m' = m := by
  obtain rfl := Except.ok.inj (hparse.symm.trans h.reads.parsed)
  exact ⟨rfl, hasManifest_unique hmanifest h.manifest⟩

/-- What a restore that begins has written by its end. -/
theorem versionWritten_iff (hbegins : Begins setting spec v)
    {restored : Restored} (hrun : (download setting spec v).run w = .ok restored w') :
    VersionWritten setting spec w w' spec.sourcePath ↔
      ∃ r m, Convert.parseRepoId setting.ext spec.repoId = .ok r ∧
        HasManifest setting.ext setting.codec w.net.server r v m ∧
        (m.files = [] ∨ RestoreDelivered setting spec w r v m) := by
  have hversion : ∀ v' : VersionId, setting.ext.parseUuid spec.sourcePath =
      .ok v'.uuid → v' = v := by
    intro v' hparse
    cases v
    cases v'
    exact congrArg _ (Except.ok.inj (hparse.symm.trans hbegins.parsed))
  by_cases hgets : ∃ r m, GetsManifest setting spec w.net r v m
  · obtain ⟨r, m, hgets⟩ := hgets
    obtain ⟨restored', net', hrun'⟩ := run_download_of_manifest hgets
    obtain ⟨rfl, rfl⟩ := EStateM.Result.ok.inj (hrun.symm.trans hrun')
    have hfiles := @forall₂_writesOf_iff setting w.net.server r w.net.fate spec
      m.files (w.net.calls + 2) w.writes.length
    constructor
    · rintro ⟨v', r', m', written, hv, hparse, hmanifest, hwrites, hall⟩
      obtain rfl := hversion v' hv
      obtain ⟨rfl, rfl⟩ := hgets.unique hparse hmanifest
      obtain rfl := List.append_cancel_left hwrites
      obtain ⟨hchunks, herrors⟩ := hfiles.mp hall
      exact ⟨r', m', hparse, hmanifest, Or.inr ⟨hgets, hchunks, herrors⟩⟩
    · rintro ⟨r', m', hparse, hmanifest, hdelivered⟩
      obtain ⟨rfl, rfl⟩ := hgets.unique hparse hmanifest
      refine ⟨v, r', m', _, hbegins.parsed, hparse, hmanifest, rfl, ?_⟩
      rcases hdelivered with hnil | hdelivered
      · rw [hnil]
        exact .nil
      · exact hfiles.mpr ⟨hdelivered.chunks, hdelivered.writes⟩
  · have hnone : ∀ r m, ¬ GetsManifest setting spec w.net r v m :=
      fun r m h => hgets ⟨r, m, h⟩
    obtain ⟨restored', w'', hrun', hwrites'⟩ := run_download_of_none hnone
    obtain ⟨rfl, rfl⟩ := EStateM.Result.ok.inj (hrun.symm.trans hrun')
    constructor
    · rintro ⟨v', r', m', written, hv, hparse, hmanifest, hwrites, hall⟩
      obtain rfl := hversion v' hv
      -- Nothing was written, so there was nothing to write.
      obtain rfl : written = [] := by
        rw [hwrites'] at hwrites
        exact List.self_eq_append_right.mp hwrites
      exact ⟨r', m', hparse, hmanifest,
        Or.inl (List.forall₂_nil_right_iff.mp hall)⟩
    · rintro ⟨r', m', hparse, hmanifest, hnil | hdelivered⟩
      · refine ⟨v, r', m', [], hbegins.parsed, hparse, hmanifest, ?_, ?_⟩
        · rw [hwrites', List.append_nil]
        · rw [hnil]
          exact .nil
      · exact absurd hdelivered.manifest (hnone r' m')

/-- A restore that does not fail has written its files exactly if its calls and
writes got through. -/
theorem restore_iff :
    (∀ counts w', (executeRestore setting spec).run w = .ok counts w' →
        VersionWritten setting spec w w' counts.versionId) ↔
      ∀ v, Begins setting spec v →
        ∃ r m, Convert.parseRepoId setting.ext spec.repoId = .ok r ∧
          HasManifest setting.ext setting.codec w.net.server r v m ∧
          (m.files = [] ∨ RestoreDelivered setting spec w r v m) := by
  have hdownload : ∀ v, ∃ restored w', (download setting spec v).run w =
      .ok restored w' := by
    intro v
    by_cases hgets : ∃ r m, GetsManifest setting spec w.net r v m
    · obtain ⟨r, m, hgets⟩ := hgets
      obtain ⟨restored, net', hrun⟩ := run_download_of_manifest hgets
      exact ⟨restored, _, hrun⟩
    · obtain ⟨restored, w', hrun, -⟩ :=
        run_download_of_none fun r m h => hgets ⟨r, m, h⟩
      exact ⟨restored, w', hrun⟩
  constructor
  · intro hwritten v hbegins
    obtain ⟨restored, w', hrun⟩ := hdownload v
    exact (versionWritten_iff hbegins hrun).mp
      (hwritten _ w' (run_executeRestore_of_begins hbegins hrun))
  · intro hdelivered counts w' hrun
    by_cases hbegins : ∃ v, Begins setting spec v
    · obtain ⟨v, hbegins⟩ := hbegins
      obtain ⟨restored, w'', hrun'⟩ := hdownload v
      have hrun'' := run_executeRestore_of_begins hbegins hrun'
      obtain ⟨rfl, rfl⟩ := EStateM.Result.ok.inj (hrun.symm.trans hrun'')
      exact (versionWritten_iff hbegins hrun').mpr (hdelivered v hbegins)
    · obtain ⟨message, herror⟩ := @outcome_executeRestore_error setting spec w
        fun v h => hbegins ⟨v, h⟩
      rw [(run_eq_ok_iff.mp hrun).1] at herror
      cases herror

end Restores

section Tasks

variable {setting : Setting} {spec : TaskSpec} {agentId : String} {w : World}

theorem executeTask_of_backup (htype : spec.taskType = "backup") :
    executeTask setting spec = executeBackup setting spec := by
  unfold executeTask
  rw [if_pos htype]

theorem executeTask_of_restore (htype : spec.taskType = "restore") :
    executeTask setting spec = executeRestore setting spec := by
  have hbackup : ¬ spec.taskType = "backup" := by
    rw [htype]
    decide
  unfold executeTask
  rw [if_neg hbackup, if_pos htype]

/-- The report of a task is right exactly if the task fails or gets through. -/
theorem truthful_iff_getsThrough (h : Dependable setting spec w) :
    Truthful setting spec agentId w ↔ GetsThrough setting spec w := by
  rw [truthful_iff_of_run]
  unfold GetsThrough
  constructor
  · intro htruthful
    constructor
    · intro htype
      rw [executeTask_of_backup htype] at htruthful
      exact (backup_iff h).mp fun counts w' hrun => (htruthful counts w' hrun).1 htype
    · intro htype
      rw [executeTask_of_restore htype] at htruthful
      exact restore_iff.mp fun counts w' hrun => (htruthful counts w' hrun).2 htype
  · rintro ⟨hbackup, hrestore⟩ counts w' hrun
    constructor
    · intro htype
      rw [executeTask_of_backup htype] at hrun
      exact (backup_iff h).mpr (hbackup htype) counts w' hrun
    · intro htype
      rw [executeTask_of_restore htype] at hrun
      exact restore_iff.mpr (hrestore htype) counts w' hrun

end Tasks

section Example

open BaDouProvider

/-- A machine with an empty directory and, perhaps, an operator's token. -/
def emptyMachine (jwt : Option String) : Machine where
  jwt := jwt
  token := fun _ => operator.token
  walk := fun path => some [.ok {
    path := path, isFile := false, len := some 0, data := .error "is a directory"
    processedAt := 0 }]
  createDirAll := fun _ => .ok ()
  writeError := fun _ => none

def emptySetting (jwt : Option String) : Setting where
  ext := knowingAll emptyBlake3 emptyCodec 1
  layout := ⟨"/data"⟩
  codec := emptyCodec
  machine := emptyMachine jwt
  draws :=
    { startedAt := 0, completedAt := 1, traceId := 0, versionId := ⟨0⟩
      repo := { repoId := ⟨2#128⟩, now := 0 }
      timestamp := 0
      manifest := (nthWrite 0).draws }

/-- A backup into the repository 1. -/
def backupSpec : TaskSpec where
  taskId := "t"
  jobId := "j"
  repoId := operator.repoId
  taskType := "backup"
  sourcePath := "/src"
  targetPath := ""

/-- Nothing was done yet, the server has the repository 1 and all calls are
answered. -/
def emptyWorld : World where
  net := { server := Server.new [⟨1#128⟩], calls := 0, fate := fun _ => .answered }
  writes := []

theorem mayWrite_empty (jwt : Option String) :
    MayWrite (emptySetting jwt) backupSpec emptyWorld.net ⟨1#128⟩ where
  authorized := rfl
  parsed := writesTo_knowingAll.parsed
  known := Or.inl (by decide)

theorem newVersion_emptyWorld {ext : Externals} (write : ManifestWrite) :
    NewVersion ext emptyWorld.net.server write where
  version := fun r snap hsnap => by cases hsnap
  committed := fun r hmem => by cases hmem
  snapshot := fun r hmem => by cases hmem
  staging := fun r => by
    have hstate : Server.repoState emptyWorld.net.server r = .empty :=
      Server.repoState_new _
    rw [hstate]
    rfl

theorem eq_nothing_of_gathers {jwt : Option String} {g : Gathered}
    (h : Gathers (emptySetting jwt) backupSpec emptyWorld g) : g = nothing := by
  obtain ⟨entries, w', hwalk, hrun⟩ := h
  obtain rfl := Option.some.inj hwalk
  exact (EStateM.Result.ok.inj hrun).1.symm

theorem dependable_empty (jwt : Option String) :
    Dependable (emptySetting jwt) backupSpec emptyWorld where
  uuids := readsUuids_knowing _
  addressed := addressed_new ⟨"/data"⟩ [⟨1#128⟩]
  version := fun m => newVersion_emptyWorld _
  readable := by
    intro r g hwrites hgathers
    obtain rfl := eq_nothing_of_gathers hgathers
    obtain rfl : r = ⟨1#128⟩ :=
      Except.ok.inj (hwrites.parsed.symm.trans (mayWrite_empty jwt).parsed)
    have hpacked : packed emptyCodec emptyManifest = emptyPacked :=
      packed_knownCodec _ _ _
    refine ⟨encodeAll_knownCodec _ _ _ _, ?_, ?_, ?_⟩
    · change unpack emptyCodec (packed emptyCodec emptyManifest) = .ok emptyManifest
      rw [hpacked]
      exact unpack_knownCodec _ _ _
    · exact readsSealed_nthWrites (by decide) (nthWrite 0) List.mem_cons_self
    · have hstate : Server.repoState emptyWorld.net.server ⟨1#128⟩ = .empty :=
        Server.repoState_new _
      rw [hstate]
      exact Bool.false_ne_true
  alone := by
    intro entries files g hwalk hfiles _ data hdata
    obtain rfl := Option.some.inj hwalk
    obtain rfl := Except.ok.inj hfiles
    cases hdata

/-- Without a token it completes as well, but nothing is stored. -/
theorem not_truthful_without_token :
    ¬ Truthful (emptySetting none) backupSpec "agent" emptyWorld := by
  intro htruthful
  have hwalk : (emptySetting none).machine.walk backupSpec.sourcePath = some _ := rfl
  obtain ⟨counts, w', hrun, hversion, hsame⟩ :=
    @returns_executeBackup_of_unsent (emptySetting none) backupSpec emptyWorld _ []
      hwalk rfl (Or.inl rfl)
  have hstored := ((truthful_iff_of_run.mp htruthful) counts w' hrun).1 rfl
  rw [hversion] at hstored
  exact not_versionStored_of_sameVersions (dependable_empty none) hsame hstored

/-- The only file of a tree. -/
def abcEntry : DirEntry where
  path := "/src/abc.txt"
  isFile := true
  len := some 3
  data := .ok [97, 98, 99]
  processedAt := 0

def abcFiles : List (DirEntry × Bytes) :=
  [(abcEntry, [97, 98, 99])]

/-- What a backup of that tree gathers. -/
def abcGathered : Gathered where
  fileCount := 1
  bytesProcessed := 3
  chunkCount := 1
  chunkRefs := [{
    hash := wrappedAbcHash
    versionId := ⟨0⟩
    filePath := "/src/abc.txt"
    offset := 0 }]
  fileEntries := [{
    path := "/src/abc.txt"
    size := 3
    modifiedAt := 0
    attributes := {}
    chunks := [wrappedAbcHash]
    fileHash := RecoveryEngine.abcHash.digest }]

def abcManifest : Agent.Manifest :=
  { emptyManifest with
    files := abcGathered.fileEntries
    chunkRefs := abcGathered.chunkRefs }

/-- That manifest, compressed. -/
@[irreducible] def abcPacked : Bytes := [
  0x28, 0xb5, 0x2f, 0xfd, 0x00, 0x58, 0xed, 0x0d, 0x00, 0x46, 0xde, 0x55,
  0x21, 0x50, 0x49, 0xac, 0x03, 0x08, 0x4e, 0xb9, 0xef, 0x27, 0xb0, 0x6f,
  0x60, 0x08, 0xfd, 0x9f, 0x6d, 0x84, 0x9a, 0x51, 0x47, 0xc0, 0xac, 0x2d,
  0xf8, 0x9b, 0x08, 0xc7, 0xac, 0x10, 0x33, 0x33, 0x0b, 0x3e, 0x52, 0x00,
  0x50, 0x00, 0x43, 0x00, 0x35, 0x20, 0x41, 0x40, 0x81, 0x04, 0xa2, 0x02,
  0xeb, 0x36, 0x51, 0xe1, 0xb3, 0x0a, 0x83, 0x5b, 0x1a, 0x19, 0xb9, 0xec,
  0x97, 0x61, 0xa2, 0x81, 0x75, 0x1b, 0x1f, 0x85, 0xfa, 0x9e, 0xc8, 0x20,
  0x81, 0x88, 0x3d, 0xbb, 0x85, 0x22, 0xa2, 0x89, 0xe6, 0x19, 0x26, 0x9a,
  0xaf, 0xce, 0x08, 0xc1, 0x67, 0xbf, 0x05, 0x2e, 0x25, 0x02, 0x4e, 0x00,
  0x9c, 0x00, 0x12, 0x6b, 0xbc, 0x6e, 0x9f, 0x06, 0x56, 0x1a, 0x1b, 0x59,
  0xf7, 0x0b, 0x90, 0xd6, 0xad, 0x22, 0xdf, 0x74, 0x24, 0x85, 0xe2, 0xc1,
  0x2a, 0x02, 0xdd, 0x67, 0xa3, 0xdf, 0x08, 0x9f, 0x0d, 0x36, 0x18, 0xdc,
  0x52, 0x83, 0x19, 0x25, 0x92, 0xfd, 0x82, 0x49, 0xe0, 0xa3, 0x08, 0x8e,
  0x32, 0x25, 0x02, 0x33, 0x9d, 0xa7, 0xc0, 0x08, 0x35, 0xb1, 0x52, 0x05,
  0x3a, 0xa3, 0xa2, 0xc8, 0xc4, 0xa3, 0x72, 0x1f, 0x29, 0x03, 0x17, 0xb7,
  0x0a, 0x90, 0x53, 0x93, 0x08, 0x49, 0xe5, 0x51, 0xb9, 0x0a, 0xb7, 0x34,
  0xd6, 0x08, 0x21, 0xa1, 0x5a, 0x61, 0x85, 0x4f, 0x89, 0x72, 0x91, 0x8a,
  0xd3, 0xec, 0x95, 0xdb, 0xb8, 0x20, 0xe9, 0x7e, 0x6b, 0x42, 0xe7, 0x75,
  0x46, 0x9e, 0xd8, 0x8f, 0xf5, 0x66, 0xfc, 0xc6, 0xf8, 0xcb, 0xe0, 0x36,
  0x41, 0x61, 0xe2, 0x1d, 0x0e, 0x7d, 0x7c, 0x75, 0x3f, 0x19, 0x3f, 0x8c,
  0x3e, 0xf3, 0x13, 0xe3, 0x27, 0xc5, 0x3f, 0x52, 0xa7, 0xaf, 0xb3, 0xee,
  0x23, 0xa9, 0x6f, 0xa8, 0x7e, 0x6b, 0x7c, 0xd6, 0xce, 0xeb, 0x29, 0xf1,
  0x8d, 0xd5, 0xef, 0x43, 0x29, 0x7e, 0x53, 0x4f, 0xfc, 0xc4, 0xde, 0xeb,
  0x46, 0xf3, 0x19, 0xf3, 0x5b, 0x8b, 0x85, 0xc2, 0x2d, 0x9d, 0x8e, 0xac,
  0x30, 0x71, 0x98, 0xe7, 0x3c, 0x11, 0x4a, 0x88, 0xca, 0x94, 0x4f, 0x95,
  0xc6, 0x45, 0x4e, 0xd8, 0xfc, 0xb0, 0x48, 0x6e, 0x6b, 0xa4, 0xcb, 0xe2,
  0x2c, 0x11, 0x7a, 0x87, 0xc5, 0x41, 0x29, 0x3e, 0x5b, 0xfc, 0x86, 0xf0,
  0x15, 0xf7, 0x91, 0xc4, 0x3f, 0x16, 0x5f, 0xad, 0xab, 0xd5, 0x57, 0x6f,
  0xdc, 0xe7, 0xe6, 0xab, 0xf6, 0xc4, 0x8e, 0x20, 0x67, 0x8d, 0xdf, 0xec,
  0x7c, 0x64, 0xbd, 0xa9, 0xb5, 0x56, 0x07, 0x24, 0x20, 0x40, 0x02, 0x44,
  0x64, 0xec, 0xf6, 0x3d, 0x21, 0x40, 0x99, 0x8a, 0x12, 0x63, 0x22, 0xc8,
  0x2c, 0x06, 0xee, 0x12, 0xa9, 0x31, 0xde, 0xa0, 0x28, 0x31, 0xde, 0x08,
  0x57, 0x61, 0x82, 0xb6, 0x57, 0xea, 0x51, 0x41, 0x48, 0x17, 0x34, 0x6e,
  0x06, 0xe6, 0x0c, 0x06, 0xf7, 0x70, 0x02, 0x07, 0x0f, 0x18, 0x0b, 0x93,
  0x1e, 0x38, 0x43, 0x1a, 0x46, 0x69, 0x9e, 0xdb, 0xa7, 0x37, 0x22, 0x5b,
  0x14, 0xa8, 0x31, 0x33, 0xbc, 0x11, 0x9a, 0x62, 0xa3, 0x79, 0x4c, 0xfe,
  0x2d, 0x5e, 0x0e, 0xb2, 0xe2, 0x34, 0x25, 0x81, 0x8d, 0xb3, 0x9a, 0x0e,
  0x9b, 0x7d, 0xb6, 0xb9, 0x7b, 0x01, 0x4a, 0x57, 0x76, 0x97]

/-- The BLAKE3 hash of those data. -/
def abcPackedHash : ChunkHash :=
  ⟨⟨[
    0xc6, 0x65, 0x2b, 0x87, 0xc1, 0x14, 0xbe, 0x04,
    0x80, 0x04, 0xcc, 0xa1, 0xdb, 0xea, 0xd2, 0xf7,
    0xa7, 0x1b, 0x27, 0x7d, 0x49, 0xf7, 0x1a, 0x4d,
    0x68, 0xa5, 0x6c, 0x33, 0x60, 0x1e, 0x6e, 0x18], rfl⟩⟩

def abcBlake3 : Bytes → ChunkHash :=
  knownAt (Agent.Json.encryptedChunkBytes wrappedAbc) wrappedAbcHash
    (knownAt [97, 98, 99] RecoveryEngine.abcHash
      (knownAt abcPacked abcPackedHash fun _ => firstFrameHash))

def abcBackupCodec : Codec :=
  knownCodec Agent.Json.manifestBytes abcManifest abcPacked

/-- The repository a backup works in: an administrator gets a new one. -/
def abcRepo : Role → RepositoryId
  | .admin => ⟨2#128⟩
  | .operator | .viewer => ⟨1#128⟩

def abcProvider (role : Role) : BaDouProvider where
  repoId := uuidText (abcRepo role).uuid
  token := ⟨.ok (some role)⟩

def abcWrite : ManifestWrite where
  draws := (nthWrite 0).draws
  versionId := ⟨0⟩
  manifest := abcManifest

def abcSnapshot (role : Role) : Snapshot :=
  sealedFor (knowing abcBlake3 []) abcBackupCodec (abcProvider role) (abcRepo role)
    abcWrite

/-- A machine with that tree and the token of a user. -/
def abcMachine (role : Role) : Machine :=
  { emptyMachine (some "token") with
    token := fun _ => ⟨.ok (some role)⟩
    walk := fun _ => some [.ok abcEntry] }

def abcSetting (role : Role) : Setting :=
  { emptySetting (some "token") with
    ext := knowing abcBlake3 [abcSnapshot role]
    codec := abcBackupCodec
    machine := abcMachine role }

def abcSpec : TaskSpec :=
  { backupSpec with repoId := uuidText 1#128 }

theorem exists_encryptedChunkBytes_eq_cons (c : Agent.EncryptedChunk) :
    ∃ rest, Agent.Json.encryptedChunkBytes c = 0x7b :: rest := by
  unfold Agent.Json.encryptedChunkBytes Agent.Json.encryptedChunk JsonText.object
  rw [String.append_assoc, Hex.utf8_append]
  exact ⟨_, rfl⟩

theorem abcBlake3_abc : abcBlake3 [97, 98, 99] = RecoveryEngine.abcHash := by
  obtain ⟨rest, hrest⟩ := exists_encryptedChunkBytes_eq_cons wrappedAbc
  unfold abcBlake3
  rw [knownAt, if_neg, knownAt_self]
  rw [hrest]
  exact fun heq => absurd (List.cons.inj heq).1 (by decide)

theorem head?_abcPacked : abcPacked.head? = some 0x28 := by
  rw [abcPacked]
  rfl

theorem abcBlake3_packed : abcBlake3 abcPacked = abcPackedHash := by
  obtain ⟨rest, hrest⟩ := exists_encryptedChunkBytes_eq_cons wrappedAbc
  unfold abcBlake3
  rw [knownAt, if_neg, knownAt, if_neg, knownAt_self]
  · intro heq
    have hhead := head?_abcPacked
    rw [heq] at hhead
    exact absurd hhead (by decide)
  · intro heq
    have hhead := head?_abcPacked
    rw [heq, hrest] at hhead
    exact absurd (Option.some.inj hhead) (by decide)

theorem upload_abc (role : Role) : upload (abcSetting role) [97, 98, 99] =
    (wrappedAbcHash, Agent.Json.encryptedChunkBytes wrappedAbc) := by
  have hplain : plainChunk [97, 98, 99] = wrappedAbc := rfl
  simp only [upload, dataHash, hplain, abcSetting, abcBackupCodec, knownCodec,
    abcCodec, knowing, abcBlake3, knownAt_self]

theorem usedProvider_abc (role : Role) :
    usedProvider (abcSetting role) abcSpec emptyWorld.net = abcProvider role := by
  cases role with
  | admin =>
      rfl
  | operator =>
      rfl
  | viewer =>
      rfl

theorem parseRepoId_abc (role : Role) (r : RepositoryId) :
    Convert.parseRepoId (abcSetting role).ext (uuidText r.uuid) = .ok r := by
  simp only [Convert.parseRepoId, abcSetting, knowing, uuidOfText_uuidText]

theorem mayWrite_abc {role : Role} (hrole : role.canWrite = true) :
    MayWrite (abcSetting role) abcSpec emptyWorld.net (abcRepo role) where
  authorized := by
    cases role with
    | admin =>
        rfl
    | operator =>
        rfl
    | viewer =>
        cases hrole
  parsed := by
    have hrepo : usedRepo (abcSetting role) abcSpec emptyWorld.net =
        uuidText (abcRepo role).uuid :=
      congrArg BaDouProvider.repoId (usedProvider_abc role)
    rw [hrepo]
    exact parseRepoId_abc role (abcRepo role)
  known := by
    cases role with
    | admin =>
        exact Or.inr ⟨Delivery.noConfusion, rfl, rfl⟩
    | operator =>
        exact Or.inl (by decide)
    | viewer =>
        cases hrole

theorem eq_abc_of_mem_allPieces {data : Bytes} (h : data ∈ allPieces abcFiles) :
    data = [97, 98, 99] := by
  have hpieces : allPieces abcFiles = [[97, 98, 99]] := by decide
  rw [hpieces] at h
  exact List.mem_singleton.mp h

theorem eq_abcGathered_of_gathers {role : Role} (hrole : role.canWrite = true)
    {g : Gathered} (h : Gathers (abcSetting role) abcSpec emptyWorld g) :
    g = abcGathered := by
  obtain ⟨entries, w', hwalk, hrun⟩ := h
  obtain rfl := Option.some.inj hwalk
  have hwrites := writesTo_asked_iff.mpr (mayWrite_abc hrole)
  have hchunk := run_backupChunk_of_answered
    (w := emptyWorld.setNet (asked (abcSetting role) abcSpec emptyWorld.net))
    hwrites rfl abcEntry.path { chunkCount := 0, chunkRefs := [], hashes := [] }
    { offset := 0, data := [97, 98, 99] }
  rw [upload_abc] at hchunk
  have hchunks : chunks [97, 98, 99] = [{ offset := 0, data := [97, 98, 99] }] :=
    rfl
  have hblake3 : (abcSetting role).ext.blake3 = abcBlake3 := rfl
  have hfile : ∃ w'', (backupFile (abcSetting role)
      (some (usedProvider (abcSetting role) abcSpec emptyWorld.net)) nothing
        (abcEntry, [97, 98, 99])).run
          (emptyWorld.setNet (asked (abcSetting role) abcSpec emptyWorld.net)) =
            .ok abcGathered w'' := by
    unfold backupFile
    simp only [hchunks, List.foldlM_cons, List.foldlM_nil, bind_pure, hblake3,
      abcBlake3_abc]
    exact ⟨_, (run_bind_of_ok hchunk).trans rfl⟩
  obtain ⟨w'', hfile⟩ := hfile
  rw [foldlM_backupEntry _ abcFiles nothing rfl, abcFiles, List.foldlM_cons,
    run_bind_of_ok hfile] at hrun
  exact (EStateM.Result.ok.inj hrun).1.symm

theorem packedChunk_abc (role : Role) :
    (packedChunk (abcSetting role).ext (abcSetting role).codec
      (manifest (abcSetting role) abcGathered)).1 = abcPackedHash := by
  have hmanifest : manifest (abcSetting role) abcGathered = abcManifest := rfl
  have hcodec : (abcSetting role).codec = abcBackupCodec := rfl
  have hblake3 : (abcSetting role).ext.blake3 = abcBlake3 := rfl
  have hpacked : packed abcBackupCodec abcManifest = abcPacked :=
    packed_knownCodec _ _ _
  unfold packedChunk
  rw [hmanifest, hcodec, hblake3, hpacked, abcBlake3_packed]

theorem chunkFromSlice_abc (role : Role) :
    (abcSetting role).codec.chunkFromSlice
        ((abcSetting role).codec.chunkToVec wrappedAbc) = .ok wrappedAbc := by
  have hcodec : (abcSetting role).codec = abcBackupCodec := rfl
  rw [hcodec]
  simp only [abcBackupCodec, knownCodec]
  exact chunkFromSlice_wrappedAbc

theorem not_chunkExists_emptyWorld (r : RepositoryId) (h : ChunkHash) :
    ¬ ChunkStore.chunkExists (Server.repoState emptyWorld.net.server r).store h := by
  have hstate : Server.repoState emptyWorld.net.server r = .empty :=
    Server.repoState_new _
  rw [hstate]
  exact Bool.false_ne_true

theorem not_readChunk_emptyWorld {blake3 : Bytes → ChunkHash} (r : RepositoryId)
    (h : ChunkHash) (d : Bytes) : ChunkStore.readChunk blake3
      (Server.repoState emptyWorld.net.server r).store h ≠ .ok d := by
  intro hread
  obtain ⟨e, he, -⟩ := ChunkStore.readChunk_eq_ok_iff.mp hread
  exact not_chunkExists_emptyWorld r h (by rw [ChunkStore.chunkExists, he]; rfl)

def firstByte (h : ChunkHash) : Option UInt8 :=
  h.digest.toList.head?

theorem dependable_abc {role : Role} (hrole : role.canWrite = true) :
    Dependable (abcSetting role) abcSpec emptyWorld where
  uuids := readsUuids_knowing _
  addressed := addressed_new ⟨"/data"⟩ [⟨1#128⟩]
  version := fun m => newVersion_emptyWorld _
  readable := by
    intro r g hwrites hgathers
    obtain rfl := eq_abcGathered_of_gathers hrole hgathers
    obtain rfl : r = abcRepo role :=
      Except.ok.inj (hwrites.parsed.symm.trans (mayWrite_abc hrole).parsed)
    have hpacked : packed abcBackupCodec abcManifest = abcPacked :=
      packed_knownCodec _ _ _
    refine ⟨encodeAll_knownCodec _ _ _ _, ?_, ?_, not_chunkExists_emptyWorld _ _⟩
    · change unpack abcBackupCodec (packed abcBackupCodec abcManifest) = .ok abcManifest
      rw [hpacked]
      exact unpack_knownCodec _ _ _
    · rw [usedProvider_abc]
      exact snapshotFromSlice_knowing (w := abcWrite) (List.nodup_singleton _)
        (List.mem_singleton_self _)
  alone := by
    intro entries files g hwalk hfiles hgathers data hdata
    obtain rfl := Option.some.inj hwalk
    obtain rfl := Except.ok.inj hfiles
    obtain rfl := eq_abcGathered_of_gathers hrole hgathers
    obtain rfl := eq_abc_of_mem_allPieces hdata
    rw [upload_abc]
    have hblake3 : (abcSetting role).ext.blake3 = abcBlake3 := rfl
    constructor
    · intro heq
      rw [hblake3, abcBlake3_abc] at heq
      have hhead := congrArg firstByte (heq.trans (packedChunk_abc role))
      exact absurd hhead (by decide)
    · intro heq
      have hhead := congrArg firstByte (heq.trans (packedChunk_abc role))
      exact absurd hhead (by decide)

/-- The restore of that version, on a machine without the tree. -/
def restoreSetting : Setting :=
  { abcSetting .operator with
    machine := { abcMachine .operator with walk := fun _ => none }
    draws :=
      { (abcSetting .operator).draws with
        versionId := ⟨6⟩
        manifest := (nthWrite 1).draws } }

def restoreSpec : TaskSpec :=
  { abcSpec with
    taskType := "restore"
    sourcePath := uuidText (abcSetting .operator).draws.versionId.uuid
    targetPath := "/restored" }

/-- What the backup of the tree leaves behind. -/
def backedUp : World :=
  stateAfter (report (abcSetting .operator) "agent" abcSpec) emptyWorld

theorem mayWrite_operator :
    MayWrite (abcSetting .operator) abcSpec emptyWorld.net ⟨1#128⟩ :=
  @mayWrite_abc .operator rfl

theorem exists_gathers_backedUp :
    Gathers (abcSetting .operator) abcSpec emptyWorld abcGathered ∧
      backedUp = emptyWorld.setNet (committed (abcSetting .operator) abcSpec ⟨1#128⟩
        abcFiles abcGathered emptyWorld.net) := by
  obtain ⟨g, hgathers, hrun, -⟩ := @run_executeBackup_of_writes (abcSetting .operator)
    abcSpec emptyWorld _ abcFiles ⟨1#128⟩ rfl rfl (by decide)
      (writesTo_asked_iff.mpr mayWrite_operator)
  obtain rfl := eq_abcGathered_of_gathers rfl hgathers
  refine ⟨hgathers, ?_⟩
  rw [backedUp, (run_eq_ok_iff.mp run_report).2, executeTask_of_backup rfl]
  exact (run_eq_ok_iff.mp hrun).2

theorem server_backedUp : backedUp.net.server =
      written (abcSetting .operator) abcSpec ⟨1#128⟩ abcFiles abcGathered emptyWorld.net ∧
    backedUp.net.fate = emptyWorld.net.fate := by
  obtain ⟨hgathers, hworld⟩ := exists_gathers_backedUp
  rw [hworld, net_setNet]
  exact committed_of_answered (dependable_abc rfl) mayWrite_operator hgathers
    fun _ => rfl

theorem dependable_restore : Dependable restoreSetting restoreSpec backedUp := by
  have hversion : restoreSetting.draws.versionId ≠
      (abcSetting .operator).draws.versionId := by
    decide
  have hcommitted : (nthWrite 1).committedVersion ≠ (nthWrite 0).committedVersion := by
    decide
  have hsnapshot : (nthWrite 1).committedSnapshot ≠ (nthWrite 0).committedSnapshot := by
    decide
  have hnew := fun m => @newVersion_written (abcSetting .operator) abcSpec emptyWorld
    abcGathered abcFiles ⟨1#128⟩ (dependable_abc rfl) mayWrite_operator
    exists_gathers_backedUp.1
    ⟨restoreSetting.draws.manifest, restoreSetting.draws.versionId, m⟩
    (newVersion_emptyWorld _) hversion hcommitted hsnapshot
  exact (dependable_abc rfl).next mayWrite_operator exists_gathers_backedUp.1
    server_backedUp.1 rfl rfl rfl hnew

/-- The version is found and its manifest is read. -/
theorem getsManifest_backedUp : GetsManifest restoreSetting restoreSpec backedUp.net
    ⟨1#128⟩ (abcSetting .operator).draws.versionId abcManifest where
  token := by decide
  reads := by
    refine ⟨rfl, parseRepoId_abc .operator ⟨1#128⟩, ?_⟩
    rw [server_backedUp.1]
    exact (BaDouProvider.wrote_of_run (w := versionWrite (abcSetting .operator) abcGathered)
      (writesTo_sent mayWrite_operator) (run_writeManifest_sent (dependable_abc rfl)
        mayWrite_operator exists_gathers_backedUp.1)).writes.known
  listed := by
    rw [server_backedUp.1]
    exact (exists_listed_written_iff (dependable_abc rfl) mayWrite_operator
      exists_gathers_backedUp.1).mpr (by decide)
  manifest := by
    rw [server_backedUp.1]
    exact (hasManifest_written_iff (dependable_abc rfl) rfl rfl mayWrite_operator
      exists_gathers_backedUp.1).mpr ⟨rfl, rfl⟩
  answered := by
    rw [server_backedUp.2]
    exact ⟨rfl, rfl⟩

/-- The only chunk is on the server as it was uploaded. -/
theorem chunkContent_backedUp : chunkContent restoreSetting backedUp.net.server ⟨1#128⟩
    wrappedAbcHash = some [97, 98, 99] := by
  have hread := @readChunk_written_of_new (abcSetting .operator) abcSpec emptyWorld
    abcGathered _ abcFiles ⟨1#128⟩ (dependable_abc rfl) rfl rfl mayWrite_operator
    exists_gathers_backedUp.1 (fun _ => rfl) [97, 98, 99] (by decide)
    (not_chunkExists_emptyWorld _ _)
    (fun data hdata _ => by rw [eq_abc_of_mem_allPieces hdata])
  have hhash : (upload (abcSetting .operator) [97, 98, 99]).1 = wrappedAbcHash :=
    congrArg Prod.fst (upload_abc .operator)
  rw [← server_backedUp.1, hhash] at hread
  rw [@chunkContent_congr (abcSetting .operator) _ restoreSetting rfl rfl]
  exact chunkContent_of_upload hread (chunkFromSlice_abc .operator)

theorem begins_restore :
    Begins restoreSetting restoreSpec (abcSetting .operator).draws.versionId where
  target := rfl
  source := by decide
  parsed := readsUuids_knowing _ _

theorem restoreDelivered_backedUp : RestoreDelivered restoreSetting restoreSpec backedUp
    ⟨1#128⟩ (abcSetting .operator).draws.versionId abcManifest where
  manifest := getsManifest_backedUp
  chunks := by
    intro k h hk
    have hlisted : abcManifest.files.flatMap Agent.FileEntry.chunks = [wrappedAbcHash] :=
      rfl
    rw [hlisted] at hk
    obtain rfl := List.mem_singleton.mp (List.mem_of_getElem? hk)
    exact ⟨_, chunkContent_backedUp, Or.inl (by rw [server_backedUp.2]; rfl)⟩
  writes := fun _ _ => rfl

/-- The restore writes the file. -/
theorem writes_restore :
    (stateAfter (report restoreSetting "agent" restoreSpec) backedUp).writes =
      [{ path := "/restored/abc.txt", data := [97, 98, 99], error := none }] := by
  obtain ⟨restored, net', hrun⟩ := run_download_of_manifest getsManifest_backedUp
  have hrestore := run_executeRestore_of_begins begins_restore hrun
  have hfile : fetched restoreSetting backedUp.net.server ⟨1#128⟩ backedUp.net.fate
      (backedUp.net.calls + 2) [wrappedAbcHash] = [97, 98, 99] := by
    simp only [fetched, fetchedChunk, server_backedUp.2, chunkContent_backedUp]
    rfl
  have hwrites : backedUp.writes = [] := by
    rw [exists_gathers_backedUp.2]
    rfl
  rw [(run_eq_ok_iff.mp run_report).2, executeTask_of_restore rfl,
    (run_eq_ok_iff.mp hrestore).2, hwrites]
  have hfiles : abcManifest.files = [{
      path := "/src/abc.txt"
      size := 3
      modifiedAt := 0
      attributes := {}
      chunks := [wrappedAbcHash]
      fileHash := RecoveryEngine.abcHash.digest }] :=
    rfl
  have htarget : Path.join restoreSpec.targetPath
      ((Path.fileName "/src/abc.txt").getD "restored_file") = "/restored/abc.txt" := by
    decide
  simp only [hfiles, writesOf, hfile, targetOf, htarget]
  rfl

/-- An operator backs up a tree with a file and restores it; both reports are
right. -/
theorem truthful_backup_restore :
    Truthful (abcSetting .operator) abcSpec "agent" emptyWorld ∧
      Truthful restoreSetting restoreSpec "agent" backedUp ∧
      (stateAfter (report restoreSetting "agent" restoreSpec) backedUp).writes =
        [{ path := "/restored/abc.txt", data := [97, 98, 99], error := none }] := by
  refine ⟨(truthful_iff_getsThrough (dependable_abc rfl)).mpr ⟨?_, ?_⟩,
    (truthful_iff_getsThrough dependable_restore).mpr ⟨?_, ?_⟩, writes_restore⟩
  · intro _ entries files hwalk hfiles
    obtain rfl := Option.some.inj hwalk
    obtain rfl := Except.ok.inj hfiles
    refine ⟨⟨1#128⟩, by decide, mayWrite_operator, rfl, Delivery.noConfusion, ?_⟩
    intro i data _
    have hanswered : emptyWorld.net.fate (emptyWorld.net.calls + 1 + i) = .answered := rfl
    rw [if_pos hanswered]
    exact fun hdamaged => not_chunkExists_emptyWorld _ _ hdamaged.1
  · intro htype
    exact absurd htype (by decide)
  · intro htype
    exact absurd htype (by decide)
  · intro _ v hbegins
    have hparsed := hbegins.parsed.symm.trans begins_restore.parsed
    obtain rfl : v = (abcSetting .operator).draws.versionId :=
      congrArg VersionId.mk (Except.ok.inj hparsed)
    exact ⟨⟨1#128⟩, abcManifest, parseRepoId_abc .operator ⟨1#128⟩,
      getsManifest_backedUp.manifest, Or.inr restoreDelivered_backedUp⟩

end Example

end TaskExecutor
end Executor
end HyperBackup
