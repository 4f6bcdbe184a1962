import HyperBackup.Executor.TaskExecutor
import HyperBackup.Provider.StoredManifest

/-!
# The run of a backup

A backup calls the server once for a repository, once for every chunk of the
files, and then for its manifest.  What becomes of the calls is given by their
numbers, so what the backup gathers and what it leaves on the server can be
told beforehand: every file keeps, for each of its chunks, the hash of the
upload if that was confirmed, and else the hash of the plaintext.
-/

namespace HyperBackup
namespace Executor
namespace TaskExecutor

open Lib Lib.Program Badou Provider

section Plan

variable (setting : Setting)

/-- The contents of the chunks of a file. -/
def pieces (data : Bytes) : List Bytes :=
  (chunks data).map Agent.RawChunkData.data

/-- What a chunk is uploaded as. -/
def upload (data : Bytes) : ChunkHash × Bytes :=
  (BaDouProvider.dataHash setting.ext setting.codec (plainChunk data),
    setting.codec.chunkToVec (plainChunk data))

/-- The hash that a file keeps for a chunk whose upload has the given number. -/
def keptHash (fate : Nat → Delivery) (c : Nat) (data : Bytes) : ChunkHash :=
  if fate c = .answered then (upload setting data).1 else setting.ext.blake3 data

/-- The hashes that are kept for chunks whose uploads begin at the given
number. -/
def keptHashes (fate : Nat → Delivery) : Nat → List Bytes → List ChunkHash
  | _, [] => []
  | c, data :: rest => keptHash setting fate c data :: keptHashes fate (c + 1) rest

/-- The files of a walk with their data, if all can be read. -/
def filesOf : List (Except String DirEntry) →
    Except String (List (DirEntry × Bytes))
  | [] => .ok []
  | .error _ :: _ => .error "walk dir"
  | .ok entry :: rest =>
      if entry.isFile then
        match entry.data with
        | .error _ => .error "read file"
        | .ok data => (filesOf rest).map fun files => (entry, data) :: files
      else filesOf rest

/-- The contents of the chunks of some files. -/
def allPieces (files : List (DirEntry × Bytes)) : List Bytes :=
  files.flatMap fun f => pieces f.2

def fileEntryOf (fate : Nat → Delivery) (c : Nat) (f : DirEntry × Bytes) :
    Agent.FileEntry where
  path := f.1.path
  size := f.1.len.getD 0
  modifiedAt := f.1.processedAt
  attributes := {}
  chunks := keptHashes setting fate c (pieces f.2)
  fileHash := (setting.ext.blake3 f.2).digest

/-- What the manifest says about some files whose uploads begin at the given
number. -/
def fileEntriesOf (fate : Nat → Delivery) :
    Nat → List (DirEntry × Bytes) → List Agent.FileEntry
  | _, [] => []
  | c, f :: files =>
      fileEntryOf setting fate c f ::
        fileEntriesOf fate (c + (pieces f.2).length) files

end Plan

section Files

variable (setting : Setting) (provider : Option BaDouProvider)

/-- What a backup does with a file that was read. -/
def backupFile (gathered : Gathered) (f : DirEntry × Bytes) : TaskM Gathered := do
  let file ← (chunks f.2).foldlM (backupChunk setting provider f.1.path)
    { chunkCount := gathered.chunkCount
      chunkRefs := gathered.chunkRefs
      hashes := [] }
  let fileEntry : Agent.FileEntry := {
    path := f.1.path
    size := f.1.len.getD 0
    modifiedAt := f.1.processedAt
    attributes := {}
    chunks := file.hashes
    fileHash := (setting.ext.blake3 f.2).digest }
  return {
    fileCount := gathered.fileCount + 1
    bytesProcessed := gathered.bytesProcessed + f.1.len.getD 0
    chunkCount := file.chunkCount
    chunkRefs := file.chunkRefs
    fileEntries := gathered.fileEntries ++ [fileEntry] }

variable {setting provider} {entry : DirEntry} {data : Bytes}

theorem backupEntry_of_file (hfile : entry.isFile = true)
    (hdata : entry.data = .ok data) (g : Gathered) :
    backupEntry setting provider g (.ok entry) =
      backupFile setting provider g (entry, data) := by
  simp only [backupEntry, backupFile, ofResult, pure_bind, hfile, if_true, hdata]

theorem backupEntry_of_not_file (hfile : ¬ entry.isFile = true) (g : Gathered) :
    backupEntry setting provider g (.ok entry) = pure g := by
  simp only [backupEntry, ofResult, pure_bind, if_neg hfile]

/-- If a walk can be read, its files are backed up one after the other. -/
theorem foldlM_backupEntry (entries : List (Except String DirEntry)) :
    ∀ (files : List (DirEntry × Bytes)) (g : Gathered),
      filesOf entries = .ok files →
      entries.foldlM (backupEntry setting provider) g =
        files.foldlM (backupFile setting provider) g := by
  induction entries with
  | nil =>
      intro files g hfiles
      cases hfiles
      rfl
  | cons entry entries ih =>
      intro files g hfiles
      cases entry with
      | error e =>
          cases hfiles
      | ok entry =>
          rw [List.foldlM_cons]
          by_cases hfile : entry.isFile = true
          · cases hdata : entry.data with
            | error e =>
                simp only [filesOf, if_pos hfile, hdata] at hfiles
                cases hfiles
            | ok data =>
                simp only [filesOf, if_pos hfile, hdata] at hfiles
                cases hrest : filesOf entries with
                | error e =>
                    rw [hrest] at hfiles
                    cases hfiles
                | ok rest =>
                    rw [hrest] at hfiles
                    cases hfiles
                    rw [backupEntry_of_file hfile hdata, List.foldlM_cons]
                    exact bind_congr fun g' => ih rest g' hrest
          · simp only [filesOf, if_neg hfile] at hfiles
            rw [backupEntry_of_not_file hfile, pure_bind]
            exact ih files g hfiles

end Files

section Uploads

variable {setting : Setting} {provider : BaDouProvider} {r : RepositoryId}
variable {w : World}

/-- The chunks of a file that were gathered have kept certain hashes. -/
structure Gains (g g' : GatheredChunks) (kept : List ChunkHash) : Prop where
  hashes : g'.hashes = g.hashes ++ kept
  refs : ∀ ref ∈ g'.chunkRefs, ref ∈ g.chunkRefs ∨ ref.hash ∈ kept

theorem Gains.trans {g g' g'' : GatheredChunks} {hs hs' : List ChunkHash}
    (h : Gains g g' hs) (h' : Gains g' g'' hs') : Gains g g'' (hs ++ hs') where
  hashes := by
    rw [h'.hashes, h.hashes, List.append_assoc]
  refs := by
    intro ref href
    rcases h'.refs ref href with hold | hnew
    · exact (h.refs ref hold).imp_right (List.mem_append_left _)
    · exact Or.inr (List.mem_append_right _ hnew)

theorem run_onNet_writeChunk
    (hwrites : BaDouProvider.WritesTo setting.ext provider w.net.server r)
    (data : Bytes) :
    (onNet (provider.writeChunk faulty setting.ext setting.layout setting.codec
        (setting.ext.blake3 data) (plainChunk data))).run w =
      .ok (outcome (provider.writeChunk faulty setting.ext setting.layout
          setting.codec (setting.ext.blake3 data) (plainChunk data)) w.net)
        (w.setNet (w.net.put setting.layout r (upload setting data))) := by
  have hafter : stateAfter (provider.writeChunk faulty setting.ext setting.layout
      setting.codec (setting.ext.blake3 data) (plainChunk data)) w.net =
        w.net.put setting.layout r (upload setting data) := by
    rw [BaDouProvider.stateAfter_writeChunk_faulty]
    exact after_chunkPut hwrites
  rw [run_onNet, hafter]

/-- If the upload is confirmed, the manifest refers to the chunk by the hash of
the upload. -/
theorem run_backupChunk_of_answered
    (hwrites : BaDouProvider.WritesTo setting.ext provider w.net.server r)
    (hfate : w.net.fate w.net.calls = .answered) (path : String)
    (g : GatheredChunks) (chunk : Agent.RawChunkData) :
    (backupChunk setting (some provider) path g chunk).run w =
      .ok { chunkCount := g.chunkCount + 1
            chunkRefs := g.chunkRefs ++ [{
              hash := (upload setting chunk.data).1
              versionId := setting.draws.versionId
              filePath := path
              offset := chunk.offset }]
            hashes := g.hashes ++ [(upload setting chunk.data).1] }
        (w.setNet (w.net.put setting.layout r (upload setting chunk.data))) := by
  have hanswer : outcome (provider.writeChunk faulty setting.ext setting.layout
      setting.codec (setting.ext.blake3 chunk.data) (plainChunk chunk.data))
        w.net = .ok (BaDouProvider.makeLocation (upload setting chunk.data).1.toHex) :=
    BaDouProvider.outcome_writeChunk_faulty_eq_ok_iff.mpr
      ⟨hfate, ⟨r, hwrites⟩, rfl⟩
  have hnet := run_onNet_writeChunk hwrites chunk.data
  rw [hanswer] at hnet
  refine (run_bind_of_ok hnet).trans ?_
  simp only [storedHash_makeLocation]
  rfl

/-- A chunk is uploaded, and the file keeps the hash of the upload if that is
confirmed. -/
theorem run_backupChunk
    (hwrites : BaDouProvider.WritesTo setting.ext provider w.net.server r)
    (path : String) (g : GatheredChunks) (chunk : Agent.RawChunkData) :
    ∃ g', (backupChunk setting (some provider) path g chunk).run w =
        .ok g' (w.setNet (w.net.put setting.layout r
          (upload setting chunk.data))) ∧
      Gains g g' [keptHash setting w.net.fate w.net.calls chunk.data] := by
  by_cases hfate : w.net.fate w.net.calls = .answered
  · refine ⟨_, run_backupChunk_of_answered hwrites hfate path g chunk, ?_, ?_⟩
    · rw [keptHash, if_pos hfate]
    · intro ref href
      rw [keptHash, if_pos hfate]
      rcases List.mem_append.mp href with hold | hnew
      · exact Or.inl hold
      · rw [List.mem_singleton.mp hnew]
        exact Or.inr (List.mem_singleton_self _)
  · have hnet := run_onNet_writeChunk hwrites chunk.data
    cases hout : outcome (provider.writeChunk faulty setting.ext setting.layout
        setting.codec (setting.ext.blake3 chunk.data) (plainChunk chunk.data))
          w.net with
    | ok location =>
        exact absurd
          (BaDouProvider.outcome_writeChunk_faulty_eq_ok_iff.mp hout).1 hfate
    | error e =>
        rw [hout] at hnet
        refine ⟨_, (run_bind_of_ok hnet).trans rfl, ?_, fun ref href => Or.inl href⟩
        rw [keptHash, if_neg hfate]

theorem writesTo_put {net : Net}
    (hwrites : BaDouProvider.WritesTo setting.ext provider net.server r)
    (c : ChunkHash × Bytes) :
    BaDouProvider.WritesTo setting.ext provider
      (net.put setting.layout r c).server r :=
  (server_put hwrites.known c).writesTo_iff.mpr hwrites

theorem writesTo_puts {net : Net}
    (hwrites : BaDouProvider.WritesTo setting.ext provider net.server r)
    (chunks : List (ChunkHash × Bytes)) :
    BaDouProvider.WritesTo setting.ext provider
      (net.puts setting.layout r chunks).server r :=
  (onlyChunks_puts chunks net hwrites.known).writesTo_iff.mpr hwrites

/-- All chunks of a file are uploaded. -/
theorem run_backupChunks (path : String) (cs : List Agent.RawChunkData) :
    ∀ (w : World) (g : GatheredChunks),
      BaDouProvider.WritesTo setting.ext provider w.net.server r →
      ∃ g', (cs.foldlM (backupChunk setting (some provider) path) g).run w =
          .ok g' (w.setNet (w.net.puts setting.layout r
            (cs.map fun c => upload setting c.data))) ∧
        Gains g g' (keptHashes setting w.net.fate w.net.calls
          (cs.map Agent.RawChunkData.data)) := by
  induction cs with
  | nil =>
      intro w g _
      exact ⟨g, rfl, (List.append_nil _).symm, fun ref href => Or.inl href⟩
  | cons c cs ih =>
      intro w g hwrites
      obtain ⟨g₁, hrun, hgains⟩ := run_backupChunk hwrites path g c
      obtain ⟨g₂, hrest, hgains'⟩ := ih
        (w.setNet (w.net.put setting.layout r (upload setting c.data))) g₁
        (writesTo_put hwrites (upload setting c.data))
      refine ⟨g₂, ?_, hgains.trans hgains'⟩
      rw [List.foldlM_cons, run_bind_of_ok hrun, hrest]
      rfl

/-- The files of a backup that were gathered. -/
structure Lists (g g' : Gathered) (files : List Agent.FileEntry)
    (kept : List ChunkHash) : Prop where
  files : g'.fileEntries = g.fileEntries ++ files
  refs : ∀ ref ∈ g'.chunkRefs, ref ∈ g.chunkRefs ∨ ref.hash ∈ kept

theorem Lists.trans {g g' g'' : Gathered} {fs fs' : List Agent.FileEntry}
    {hs hs' : List ChunkHash} (h : Lists g g' fs hs) (h' : Lists g' g'' fs' hs') :
    Lists g g'' (fs ++ fs') (hs ++ hs') where
  files := by
    rw [h'.files, h.files, List.append_assoc]
  refs := by
    intro ref href
    rcases h'.refs ref href with hold | hnew
    · exact (h.refs ref hold).imp_right (List.mem_append_left _)
    · exact Or.inr (List.mem_append_right _ hnew)

theorem keptHashes_append (fate : Nat → Delivery) (ds ds' : List Bytes) :
    ∀ c, keptHashes setting fate c (ds ++ ds') =
      keptHashes setting fate c ds ++
        keptHashes setting fate (c + ds.length) ds' := by
  induction ds with
  | nil =>
      intro c
      rfl
  | cons d ds ih =>
      intro c
      rw [List.cons_append, keptHashes, keptHashes, ih, List.cons_append,
        List.length_cons, Nat.add_right_comm, Nat.add_assoc]

theorem allPieces_cons (f : DirEntry × Bytes) (files : List (DirEntry × Bytes)) :
    allPieces (f :: files) = pieces f.2 ++ allPieces files :=
  List.flatMap_cons

/-- The kept hashes are those of the chunks, one after the other. -/
theorem forall_keptHashes_iff {fate : Nat → Delivery} {P : ChunkHash → Prop}
    (ds : List Bytes) :
    ∀ c, (∀ h ∈ keptHashes setting fate c ds, P h) ↔
      ∀ i d, ds[i]? = some d → P (keptHash setting fate (c + i) d) := by
  induction ds with
  | nil =>
      intro c
      simp [keptHashes]
  | cons d ds ih =>
      intro c
      rw [keptHashes, List.forall_mem_cons, ih (c + 1)]
      constructor
      · rintro ⟨hfirst, hrest⟩ i d' hi
        cases i with
        | zero =>
            obtain rfl := Option.some.inj hi
            exact hfirst
        | succ i =>
            have hlater := hrest i d' (List.getElem?_cons_succ.symm.trans hi)
            rwa [Nat.add_right_comm] at hlater
      · intro hall
        refine ⟨hall 0 d rfl, fun i d' hi => ?_⟩
        have hlater := hall (i + 1) d' (List.getElem?_cons_succ.trans hi)
        rwa [← Nat.add_assoc, Nat.add_right_comm] at hlater

theorem flatMap_chunks_fileEntriesOf (fate : Nat → Delivery)
    (files : List (DirEntry × Bytes)) :
    ∀ c, (fileEntriesOf setting fate c files).flatMap Agent.FileEntry.chunks =
      keptHashes setting fate c (allPieces files) := by
  induction files with
  | nil =>
      intro c
      rfl
  | cons f files ih =>
      intro c
      rw [fileEntriesOf, List.flatMap_cons, ih, allPieces_cons, keptHashes_append]
      rfl

/-- The chunks of a file are uploaded. -/
theorem run_backupFile
    (hwrites : BaDouProvider.WritesTo setting.ext provider w.net.server r)
    (g : Gathered) (f : DirEntry × Bytes) :
    ∃ g', (backupFile setting (some provider) g f).run w =
        .ok g' (w.setNet (w.net.puts setting.layout r
          ((pieces f.2).map (upload setting)))) ∧
      Lists g g' [fileEntryOf setting w.net.fate w.net.calls f]
        (keptHashes setting w.net.fate w.net.calls (pieces f.2)) := by
  obtain ⟨g₁, hrun, hgains⟩ := run_backupChunks f.1.path (chunks f.2) w
    { chunkCount := g.chunkCount, chunkRefs := g.chunkRefs, hashes := [] } hwrites
  have huploads : (chunks f.2).map (fun c => upload setting c.data) =
      (pieces f.2).map (upload setting) := by
    rw [pieces, List.map_map]
    rfl
  rw [huploads] at hrun
  refine ⟨_, (run_bind_of_ok hrun).trans rfl, ?_, hgains.refs⟩
  rw [hgains.hashes]
  rfl

/-- All files are backed up. -/
theorem run_backupFiles (files : List (DirEntry × Bytes)) :
    ∀ (w : World) (g : Gathered),
      BaDouProvider.WritesTo setting.ext provider w.net.server r →
      ∃ g', (files.foldlM (backupFile setting (some provider)) g).run w =
          .ok g' (w.setNet (w.net.puts setting.layout r
            ((allPieces files).map (upload setting)))) ∧
        Lists g g' (fileEntriesOf setting w.net.fate w.net.calls files)
          (keptHashes setting w.net.fate w.net.calls (allPieces files)) := by
  induction files with
  | nil =>
      intro w g _
      exact ⟨g, rfl, (List.append_nil _).symm, fun ref href => Or.inl href⟩
  | cons f files ih =>
      intro w g hwrites
      obtain ⟨g₁, hrun, hlists⟩ := run_backupFile hwrites g f
      obtain ⟨g₂, hrun', hlists'⟩ := ih (w.setNet (w.net.puts setting.layout r
        ((pieces f.2).map (upload setting)))) g₁ (writesTo_puts hwrites _)
      rw [net_setNet, fate_puts, calls_puts, List.length_map] at hlists'
      refine ⟨g₂, ?_, ?_⟩
      · rw [List.foldlM_cons, run_bind_of_ok hrun, hrun', allPieces_cons,
          List.map_append, puts_append]
        rfl
      · rw [allPieces_cons, keptHashes_append]
        exact hlists.trans hlists'

end Uploads

section Endings

variable {setting : Setting} {provider : Option BaDouProvider} {s : ServerState}
variable {w : World}

/-- Whatever becomes of an upload, the backup goes on. -/
theorem returns_backupChunk (path : String) (g : GatheredChunks)
    (chunk : Agent.RawChunkData) (h : OnlyChunks s w.net.server) :
    Returns (backupChunk setting provider path g chunk) w
      (fun _ w' => OnlyChunks s w'.net.server) := by
  unfold backupChunk
  cases provider with
  | none =>
      exact returns_pure h
  | some provider =>
      refine returns_bind_of_run (run_onNet _ w) ?_
      have hsent : OnlyChunks s (stateAfter (provider.writeChunk faulty setting.ext
          setting.layout setting.codec (setting.ext.blake3 chunk.data)
          (plainChunk chunk.data)) w.net).server := by
        rw [BaDouProvider.stateAfter_writeChunk_faulty]
        exact h.trans (onlyChunks_after_chunkPut _)
      split
      · exact returns_pure hsent
      · exact returns_pure hsent

theorem returns_backupFile (g : Gathered) (f : DirEntry × Bytes)
    (h : OnlyChunks s w.net.server) :
    Returns (backupFile setting provider g f) w
      (fun _ w' => OnlyChunks s w'.net.server) := by
  refine returns_bind (returns_foldlM (chunks f.2)
    (fun _ _ (w' : World) => OnlyChunks s w'.net.server) h ?_)
    fun file w' h' => returns_pure h'
  intro done chunk rest file w' _ h'
  exact returns_backupChunk f.1.path file chunk h'

theorem returns_backupFiles (files : List (DirEntry × Bytes)) (g : Gathered)
    (h : OnlyChunks s w.net.server) :
    Returns (files.foldlM (backupFile setting provider) g) w
      (fun _ w' => OnlyChunks s w'.net.server) := by
  refine returns_foldlM files (fun _ _ (w' : World) => OnlyChunks s w'.net.server)
    h ?_
  intro done f rest g' w' _ h'
  exact returns_backupFile g' f h'

/-- A walk that cannot be read makes the backup fail. -/
theorem outcome_backupEntries_error (entries : List (Except String DirEntry)) :
    ∀ (message : String) (g : Gathered) (w : World),
      filesOf entries = .error message →
      outcome (entries.foldlM (backupEntry setting provider) g) w =
        .error message := by
  induction entries with
  | nil =>
      intro message g w hfiles
      cases hfiles
  | cons entry entries ih =>
      intro message g w hfiles
      rw [List.foldlM_cons]
      cases entry with
      | error e =>
          cases hfiles
          rfl
      | ok entry =>
          by_cases hfile : entry.isFile = true
          · cases hdata : entry.data with
            | error e =>
                simp only [filesOf, if_pos hfile, hdata] at hfiles
                cases hfiles
                simp only [backupEntry, ofResult, pure_bind, hfile, if_true, hdata]
                rfl
            | ok data =>
                simp only [filesOf, if_pos hfile, hdata] at hfiles
                cases hrest : filesOf entries with
                | ok rest =>
                    rw [hrest] at hfiles
                    cases hfiles
                | error e =>
                    rw [hrest] at hfiles
                    cases hfiles
                    obtain ⟨g', w', hrun, -⟩ := @returns_backupFile setting provider
                      w.net.server w g (entry, data) (.refl _)
                    rw [backupEntry_of_file hfile hdata, outcome_bind_of_run hrun]
                    exact ih message g' w' hrest
          · simp only [filesOf, if_neg hfile] at hfiles
            rw [backupEntry_of_not_file hfile, pure_bind]
            exact ih message g w hfiles

end Endings

section Repository

variable (setting : Setting) (spec : TaskSpec)

/-- The network after a repository was asked for. -/
def asked (net : Net) : Net :=
  net.after (Server.repositoryCreate setting.draws.repo
    (providerFor setting spec.repoId).createRequest)

/-- The repository a backup works in: the new one, if the backup gets to know
of it, and else the one of the task. -/
def usedRepo (net : Net) : String :=
  if net.fate net.calls = .answered ∧
      (Server.createTarget net.server setting.draws.repo
        (providerFor setting spec.repoId).createRequest).isSome then
    uuidText setting.draws.repo.repoId.uuid
  else spec.repoId

/-- The provider a backup works with. -/
def usedProvider (net : Net) : BaDouProvider :=
  providerFor setting (usedRepo setting spec net)

/-- The backup may write into the repository it works in, which is on the server
or has been created. -/
structure MayWrite (net : Net) (r : RepositoryId) : Prop where
  authorized : (setting.machine.token (jwtToken setting)).requireWrite = .ok ()
  parsed : Convert.parseRepoId setting.ext (usedRepo setting spec net) = .ok r
  known : (net.server.repos.lookup r).isSome ∨
    net.fate net.calls ≠ .lost ∧ r = setting.draws.repo.repoId ∧
      (Server.createTarget net.server setting.draws.repo
        (providerFor setting spec.repoId).createRequest).isSome

variable {setting spec} {w : World}

/-- The repositories that are on the server after one was asked for. -/
theorem known_asked_iff {net : Net} {r : RepositoryId} :
    ((asked setting spec net).server.repos.lookup r).isSome ↔
      (net.server.repos.lookup r).isSome ∨
        net.fate net.calls ≠ .lost ∧ r = setting.draws.repo.repoId ∧
          (Server.createTarget net.server setting.draws.repo
            (providerFor setting spec.repoId).createRequest).isSome := by
  unfold asked Net.after
  by_cases hlost : net.fate net.calls = .lost
  · simp [hlost]
  · rw [if_neg hlost, Server.stateAfter_repositoryCreate]
    cases htarget : Server.createTarget net.server setting.draws.repo
        (providerFor setting spec.repoId).createRequest with
    | none =>
        simp
    | some config =>
        simp only [Server.setRepo, HashMap.lookup_insert_of]
        by_cases hr : r = setting.draws.repo.repoId
        · simp [hr, hlost]
        · simp [hr]

theorem writesTo_asked_iff {net : Net} {r : RepositoryId} :
    BaDouProvider.WritesTo setting.ext (usedProvider setting spec net)
        (asked setting spec net).server r ↔
      MayWrite setting spec net r := by
  constructor
  · intro h
    exact ⟨h.authorized, h.parsed, known_asked_iff.mp h.known⟩
  · intro h
    exact ⟨h.authorized, h.parsed, known_asked_iff.mpr h.known⟩

theorem run_connect_of_token (htoken : jwtToken setting ≠ "") :
    (connect setting spec).run w =
      .ok (some (usedProvider setting spec w.net))
        (w.setNet (asked setting spec w.net)) := by
  have hnet := run_onNet (BaDouProvider.createRepo faulty
    (providerFor setting spec.repoId) setting.draws.repo) w
  rw [BaDouProvider.stateAfter_createRepo] at hnet
  unfold connect
  rw [if_neg htoken]
  refine (run_bind_of_ok hnet).trans ?_
  unfold usedProvider usedRepo
  cases hout : outcome (BaDouProvider.createRepo faulty
      (providerFor setting spec.repoId) setting.draws.repo) w.net with
  | ok repoId =>
      obtain ⟨hfate, hcreated, rfl⟩ :=
        BaDouProvider.outcome_createRepo_eq_ok_iff.mp hout
      rw [if_pos ⟨hfate, hcreated⟩]
      rfl
  | error e =>
      rw [if_neg]
      · rfl
      · rintro ⟨hfate, hcreated⟩
        have hok := BaDouProvider.outcome_createRepo_eq_ok_iff.mpr
          ⟨hfate, hcreated, rfl⟩
        rw [hout] at hok
        cases hok

theorem run_connect_of_none (htoken : jwtToken setting = "") :
    (connect setting spec).run w = .ok none w := by
  unfold connect
  rw [if_pos htoken]
  rfl

/-- The manifest is sent, and the backup goes on whatever becomes of it. -/
theorem run_commit (provider : BaDouProvider) (g : Gathered) :
    (commit setting (some provider) g).run w =
      .ok () (w.setNet (stateAfter (provider.writeManifest faulty setting.ext
        setting.layout setting.codec setting.draws.manifest setting.draws.versionId
        (manifest setting g)) w.net)) := by
  unfold commit
  exact (run_bind_of_ok (run_onNet _ w)).trans rfl

end Repository

section Backup

variable {setting : Setting} {spec : TaskSpec} {w : World}
variable {entries : List (Except String DirEntry)}
variable {files : List (DirEntry × Bytes)} {r : RepositoryId}

/-- Nothing has been gathered yet. -/
def nothing : Gathered where
  fileCount := 0
  bytesProcessed := 0
  chunkCount := 0
  chunkRefs := []
  fileEntries := []

/-- What a backup with a token gathers from its source. -/
def Gathers (setting : Setting) (spec : TaskSpec) (w : World) (g : Gathered) :
    Prop :=
  ∃ entries w', setting.machine.walk spec.sourcePath = some entries ∧
    (entries.foldlM (backupEntry setting (some (usedProvider setting spec w.net)))
      nothing).run (w.setNet (asked setting spec w.net)) = .ok g w'

/-- The network after all chunks were sent. -/
def sent (setting : Setting) (spec : TaskSpec) (r : RepositoryId)
    (files : List (DirEntry × Bytes)) (net : Net) : Net :=
  (asked setting spec net).puts setting.layout r
    ((allPieces files).map (upload setting))

/-- The network after the manifest was sent as well. -/
def committed (setting : Setting) (spec : TaskSpec) (r : RepositoryId)
    (files : List (DirEntry × Bytes)) (g : Gathered) (net : Net) : Net :=
  stateAfter ((usedProvider setting spec net).writeManifest faulty setting.ext
    setting.layout setting.codec setting.draws.manifest setting.draws.versionId
    (manifest setting g)) (sent setting spec r files net)

/-- What a backup reports that has gathered so much. -/
def countsOf (setting : Setting) (g : Gathered) : TaskCounts where
  bytesProcessed := g.bytesProcessed
  bytesStored := g.bytesProcessed
  fileCount := g.fileCount
  chunkCount := g.chunkCount
  versionId := uuidText setting.draws.versionId.uuid

theorem executeBackup_of_walk
    (hwalk : setting.machine.walk spec.sourcePath = some entries) :
    executeBackup setting spec = (do
      let provider ← connect setting spec
      let gathered ← entries.foldlM (backupEntry setting provider) nothing
      commit setting provider gathered
      return countsOf setting gathered) := by
  unfold executeBackup
  rw [hwalk]
  rfl

/-- A backup that cannot read its source fails. -/
theorem outcome_executeBackup_error {message : String}
    (hwalk : setting.machine.walk spec.sourcePath = some entries)
    (hfiles : filesOf entries = .error message) :
    outcome (executeBackup setting spec) w = .error message := by
  have hconnect : ∃ provider w', (connect setting spec).run w = .ok provider w' := by
    by_cases htoken : jwtToken setting = ""
    · exact ⟨_, _, run_connect_of_none htoken⟩
    · exact ⟨_, _, run_connect_of_token htoken⟩
  obtain ⟨provider, w', hrun⟩ := hconnect
  rw [executeBackup_of_walk hwalk, outcome_bind_of_run hrun]
  exact outcome_bind_of_error
    (outcome_backupEntries_error entries message nothing w' hfiles)

/-- A backup that may write sends its chunks and then its manifest. -/
theorem run_executeBackup_of_writes
    (hwalk : setting.machine.walk spec.sourcePath = some entries)
    (hfiles : filesOf entries = .ok files) (htoken : jwtToken setting ≠ "")
    (hwrites : BaDouProvider.WritesTo setting.ext (usedProvider setting spec w.net)
      (asked setting spec w.net).server r) :
    ∃ g, Gathers setting spec w g ∧
      (executeBackup setting spec).run w =
        .ok (countsOf setting g)
          (w.setNet (committed setting spec r files g w.net)) ∧
      Lists nothing g
        (fileEntriesOf setting w.net.fate (w.net.calls + 1) files)
        (keptHashes setting w.net.fate (w.net.calls + 1) (allPieces files)) := by
  obtain ⟨g, hrun, hlists⟩ := run_backupFiles files
    (w.setNet (asked setting spec w.net)) nothing hwrites
  rw [← foldlM_backupEntry entries files nothing hfiles] at hrun
  have hgathers : Gathers setting spec w g := ⟨entries, _, hwalk, hrun⟩
  have hcommit := @run_commit setting (w.setNet (sent setting spec r files w.net))
    (usedProvider setting spec w.net) g
  refine ⟨g, hgathers, ?_, hlists⟩
  rw [executeBackup_of_walk hwalk, run_bind_of_ok (run_connect_of_token htoken),
    run_bind_of_ok hrun]
  exact (run_bind_of_ok hcommit).trans rfl

/-- A backup that has no token or may not write adds no version. -/
theorem returns_executeBackup_of_unsent
    (hwalk : setting.machine.walk spec.sourcePath = some entries)
    (hfiles : filesOf entries = .ok files)
    (hunsent : jwtToken setting = "" ∨
      ∀ r, ¬ BaDouProvider.WritesTo setting.ext (usedProvider setting spec w.net)
        (asked setting spec w.net).server r) :
    Returns (executeBackup setting spec) w
      (fun counts w' => counts.versionId = uuidText setting.draws.versionId.uuid ∧
        SameVersions w.net.server w'.net.server) := by
  rw [executeBackup_of_walk hwalk]
  have hloop : ∀ provider w', Returns
      (entries.foldlM (backupEntry setting provider) nothing) w'
        (fun _ w'' => OnlyChunks w'.net.server w''.net.server) := by
    intro provider w'
    rw [foldlM_backupEntry entries files nothing hfiles]
    exact returns_backupFiles files nothing (.refl _)
  by_cases htoken : jwtToken setting = ""
  · refine returns_bind_of_run (run_connect_of_none htoken) ?_
    refine returns_bind (hloop none w) fun g w₁ hchunks => ?_
    exact returns_bind_of_run (x := commit setting none g) rfl
      (returns_pure ⟨rfl, hchunks.sameVersions⟩)
  · refine returns_bind_of_run (run_connect_of_token htoken) ?_
    refine returns_bind (hloop _ _) fun g w₁ hchunks => ?_
    refine returns_bind_of_run (run_commit _ g) (returns_pure ⟨rfl, ?_⟩)
    have hnot := hunsent.resolve_left htoken
    have hsent := @BaDouProvider.onlyChunks_writeManifest_faulty setting.ext
      setting.layout setting.codec (usedProvider setting spec w.net) w₁.net
      setting.draws.manifest setting.draws.versionId (manifest setting g)
      (fun r hwrites => absurd (hchunks.writesTo_iff.mp hwrites) (hnot r))
    exact (sameVersions_repositoryCreate.trans hchunks.sameVersions).trans
      hsent.sameVersions

end Backup

end TaskExecutor
end Executor
end HyperBackup
