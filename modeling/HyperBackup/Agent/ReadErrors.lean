import HyperBackup.Agent.ChunkReads
import HyperBackup.Agent.Engine

/-!
# Files that cannot be read to their end

The chunkers run in a task of their own and send chunks through a channel.
After a read error that task ends, which closes the channel, and this is how it
ends at the end of a file as well.  So the engine records what it has got as
the whole file.

With the fixed-size chunker all that was delivered before the error has been
sent.  The content-defined one loses what is left in its buffer, and this is
never nothing once something has been delivered.
-/

namespace HyperBackup
namespace Agent

open Lib Lib.Program

/-- The two chunkers.  With a maximal size of 0 the content-defined one would
send empty chunks forever. -/
inductive Chunker
  | fixed
  | cdc (mask : UInt64) (chunker : FastCdcChunker) (hmax : 0 < chunker.maxSize)

/-- What the reads deliver before the end of the file or an error. -/
def delivered : List (Except String Bytes) → Bytes
  | [] => []
  | .ok [] :: _ => []
  | .error _ :: _ => []
  | .ok (byte :: bytes) :: reads => byte :: bytes ++ delivered reads

/-- An error comes before the end of the file. -/
def Fails : List (Except String Bytes) → Prop
  | [] => False
  | .ok [] :: _ => False
  | .error _ :: _ => True
  | .ok (_ :: _) :: reads => Fails reads

namespace FastCdcChunker

section Rest

variable {mask : UInt64} {c : FastCdcChunker}

/-- What was sent and what is left to send. -/
def taken (s : CdcState) : Bytes :=
  s.sent.flatMap RawChunkData.data ++ s.buf

theorem findCdcBoundary_pos (hmax : 0 < c.maxSize) {data : Bytes} (hdata : data ≠ []) :
    0 < findCdcBoundary mask c data := by
  have hlen := List.length_pos_iff.mpr hdata
  by_cases hshort : data.length ≤ c.minSize
  · rw [findCdcBoundary_of_le hshort]
    exact hlen
  · rw [findCdcBoundary_of_lt (Nat.not_le.mp hshort)]
    cases hsearch : searchBoundary mask 0 c.minSize
        ((data.take (min data.length c.maxSize)).drop c.minSize) with
    | none =>
        rw [Option.getD_none]
        omega
    | some k =>
        have hbounds := searchBoundary_bounds hsearch
        rw [Option.getD_some]
        omega

theorem taken_emit (boundary : Nat) (s : CdcState) :
    taken (emit boundary s) = taken s := by
  unfold taken emit
  rw [List.flatMap_append, List.flatMap_singleton, List.append_assoc,
    List.take_append_drop]

/-- Cutting takes nothing away, and leaves something in the buffer. -/
theorem exists_cutLoop (hmax : 0 < c.maxSize) :
    ∀ fuel s, s.buf.length < fuel →
      ∃ s', cutLoop mask c fuel s = some s' ∧
        taken s' = taken s ∧
        s'.buf.length ≤ s.buf.length ∧ (s.buf ≠ [] → s'.buf ≠ []) := by
  intro fuel
  induction fuel with
  | zero =>
      intro s hfuel
      cases hfuel
  | succ fuel ih =>
      intro s hfuel
      by_cases hcut : c.minSize ≤ s.buf.length ∧
          findCdcBoundary mask c s.buf < s.buf.length
      · obtain ⟨hmin, hlt⟩ := hcut
        have hne : s.buf ≠ [] := by
          intro hnil
          rw [hnil] at hlt
          cases hlt
        have hpos := @findCdcBoundary_pos mask c hmax s.buf hne
        have hlen : (emit (findCdcBoundary mask c s.buf) s).buf.length =
            s.buf.length - findCdcBoundary mask c s.buf :=
          List.length_drop
        obtain ⟨s', hloop, htaken, hle, hrest⟩ :=
          ih (emit (findCdcBoundary mask c s.buf) s) (by omega)
        refine ⟨s', ?_, htaken.trans (taken_emit _ s), by omega, fun _ => hrest ?_⟩
        · rw [cutLoop, if_pos hmin]
          exact (if_pos hlt).trans hloop
        · intro hnil
          rw [hnil, List.length_nil] at hlen
          omega
      · refine ⟨s, ?_, rfl, Nat.le_refl _, fun h => h⟩
        rw [cutLoop]
        split
        · next hmin =>
            exact if_neg fun hlt => hcut ⟨hmin, hlt⟩
        · rfl

theorem taken_finish (s : CdcState) : taken (finish s) = taken s := by
  unfold finish
  split
  · rfl
  · simp [taken]

/-- What was delivered is sent or in the buffer; after an error the buffer is
not empty if there was anything to read. -/
theorem exists_chunkLoop (hmax : 0 < c.maxSize) (fuel : Nat) :
    ∀ (reads : List (Except String Bytes)) (s : CdcState),
      s.buf.length + (delivered reads).length < fuel →
      ∃ s', chunkLoop mask c fuel reads s = some s' ∧
        taken s' = taken s ++ delivered reads ∧
        (Fails reads → s.buf ++ delivered reads ≠ [] → s'.buf ≠ []) := by
  intro reads
  induction reads with
  | nil =>
      intro s _
      refine ⟨finish s, rfl, ?_, fun h => h.elim⟩
      rw [taken_finish, delivered, List.append_nil]
  | cons read reads ih =>
      intro s hfuel
      cases read with
      | error e =>
          refine ⟨s, rfl, ?_, fun _ => ?_⟩
          · rw [delivered, List.append_nil]
          · rw [delivered, List.append_nil]
            exact fun h => h
      | ok bytes =>
          cases bytes with
          | nil =>
              refine ⟨finish s, rfl, ?_, fun h => h.elim⟩
              rw [taken_finish, delivered, List.append_nil]
          | cons byte bytes =>
              rw [delivered, List.length_append] at hfuel
              obtain ⟨s₁, hloop, htaken, hle, hrest⟩ := @exists_cutLoop mask c hmax
                fuel { s with buf := s.buf ++ byte :: bytes }
                (by rw [List.length_append]; omega)
              rw [List.length_append] at hle
              obtain ⟨s', hloop', htaken', hrest'⟩ := ih s₁ (by omega)
              refine ⟨s', ?_, ?_, fun hfails _ => hrest' hfails ?_⟩
              · rw [chunkLoop, hloop]
                exact hloop'
                exact List.cons_ne_nil byte bytes
              · rw [htaken', htaken, delivered, ← List.append_assoc]
                unfold taken
                rw [List.append_assoc _ s.buf]
              · have hbuf : s₁.buf ≠ [] := hrest (by simp)
                simp [hbuf]

theorem isSome_chunk (mask : UInt64) (hmax : 0 < c.maxSize)
    (reads : List (Except String Bytes)) :
    (chunk mask c ((delivered reads).length + 1) reads).isSome := by
  obtain ⟨s', hloop, -⟩ := @exists_chunkLoop mask c hmax
    ((delivered reads).length + 1) reads { offset := 0, buf := [], sent := [] }
    (by rw [List.length_nil]; omega)
  rw [chunk, hloop]
  rfl

end Rest

end FastCdcChunker

namespace Chunker

/-- The chunks of a reader. -/
def chunk (strategy : ChunkStrategy) (reads : List (Except String Bytes)) :
    Chunker → Except ChunkError (List RawChunkData)
  | fixed => FixedChunker.chunkReads strategy reads
  | cdc mask chunker hmax =>
      .ok ((chunker.chunk mask ((delivered reads).length + 1) reads).get
        (FastCdcChunker.isSome_chunk mask hmax reads))

section Sent

variable {chunker : Chunker} {strategy : ChunkStrategy}
variable {reads : List (Except String Bytes)} {chunks : List RawChunkData}

theorem flatMap_data_chunkLoop (reads : List (Except String Bytes)) :
    ∀ offset : UInt64, (FixedChunker.chunkLoop offset reads).flatMap
      RawChunkData.data = delivered reads := by
  induction reads with
  | nil =>
      intro offset
      rfl
  | cons read reads ih =>
      intro offset
      cases read with
      | error e =>
          rfl
      | ok bytes =>
          cases bytes with
          | nil =>
              rfl
          | cons byte bytes =>
              rw [FixedChunker.chunkLoop, List.flatMap_cons, ih, delivered]

/-- The chunks make up a beginning of what was delivered. -/
theorem chunk_prefix (h : chunker.chunk strategy reads = .ok chunks) :
    chunks.flatMap RawChunkData.data <+: delivered reads := by
  cases chunker with
  | fixed =>
      rw [chunk, FixedChunker.chunkReads] at h
      split at h
      · cases h
      · cases h
        exact ⟨[], by rw [List.append_nil, flatMap_data_chunkLoop]⟩
  | cdc mask c hmax =>
      obtain ⟨s, hloop, htaken, -⟩ := @FastCdcChunker.exists_chunkLoop mask c hmax
        ((delivered reads).length + 1) reads { offset := 0, buf := [], sent := [] }
        (by rw [List.length_nil]; omega)
      simp only [chunk, FastCdcChunker.chunk, hloop, Option.map_some,
        Option.get_some, Except.ok.injEq] at h
      refine ⟨s.buf, ?_⟩
      rw [← h]
      exact htaken

/-- After an error the content-defined chunker has sent everything only if there
was nothing. -/
theorem chunk_cdc_of_fails {mask : UInt64} {c : FastCdcChunker}
    {hmax : 0 < c.maxSize} (hfails : Fails reads)
    (h : (cdc mask c hmax).chunk strategy reads = .ok chunks)
    (hall : chunks.flatMap RawChunkData.data = delivered reads) :
    delivered reads = [] := by
  obtain ⟨s, hloop, htaken, hrest⟩ := @FastCdcChunker.exists_chunkLoop mask c hmax
    ((delivered reads).length + 1) reads { offset := 0, buf := [], sent := [] }
    (by rw [List.length_nil]; omega)
  simp only [chunk, FastCdcChunker.chunk, hloop, Option.map_some,
    Option.get_some, Except.ok.injEq] at h
  by_contra hne
  refine hrest hfails hne ?_
  have hsplit : s.sent.flatMap RawChunkData.data ++ s.buf = delivered reads :=
    htaken
  rw [h, hall] at hsplit
  exact List.append_right_eq_self.mp hsplit

end Sent

end Chunker

/-- A file that was opened: its content, and what its reads return. -/
structure Reader where
  content : Bytes
  reads : List (Except String Bytes)

/-- The reads return nothing but the content, from its beginning on. -/
def Reader.Sound (reader : Reader) : Prop :=
  delivered reader.reads <+: reader.content

/-- The chunks that are sent before the error are the whole content. -/
def Reader.SentWhole (reader : Reader) : Chunker → Prop
  | .fixed => delivered reader.reads = reader.content
  | .cdc _ _ _ => reader.content = []

theorem Reader.sentWhole_iff {reader : Reader} {chunker : Chunker}
    {strategy : ChunkStrategy} {chunks : List RawChunkData} (hsound : reader.Sound)
    (hfails : Fails reader.reads)
    (h : chunker.chunk strategy reader.reads = .ok chunks) :
    chunks.flatMap RawChunkData.data = reader.content ↔
      reader.SentWhole chunker := by
  have hprefix := Chunker.chunk_prefix h
  cases chunker with
  | fixed =>
      have hall : chunks.flatMap RawChunkData.data = delivered reader.reads := by
        rw [Chunker.chunk, FixedChunker.chunkReads] at h
        split at h
        · cases h
        · cases h
          exact Chunker.flatMap_data_chunkLoop _ _
      rw [hall]
      rfl
  | cdc mask c hmax =>
      constructor
      · intro hwhole
        have hdelivered : delivered reader.reads = reader.content := by
          refine hsound.eq_of_length_le ?_
          rw [← hwhole]
          exact hprefix.length_le
        have hnil := Chunker.chunk_cdc_of_fails hfails h
          (hwhole.trans hdelivered.symm)
        exact hdelivered.symm.trans hnil
      · intro hnil
        have hempty : reader.content = [] := hnil
        rw [hempty]
        exact List.prefix_nil.mp (hempty ▸ hprefix.trans hsound)

namespace BackupEngine

section Operations

variable (engine : BackupEngine) (chunker : Chunker)

/-- The engine as it works on one reader. -/
def reading (reads : List (Except String Bytes)) : BackupEngine :=
  { engine with chunker := fun strategy _ => chunker.chunk strategy reads }

/-- One scanned file with what opening it yields. -/
def backupOpened (run : Execution) (job : BackupJob) (p : Progress)
    (opened : FileEntry × Option Reader) : EngineM Progress :=
  match opened.2 with
  | none => return { p with skippedFiles := p.skippedFiles ++ [opened.1.path] }
  | some reader => do
      let p ← (engine.reading chunker reader.reads).processFile run.versionId job p
        opened.1 reader.content
      engine.journalProcessed job p
      return p

/-- A full backup of the scanned files up to its commit. -/
def collectOpened (opened : List (FileEntry × Option Reader)) (run : Execution)
    (job : BackupJob) : EngineM Progress := do
  engine.appendJournal (.taskStarted job.jobId run.executionId run.startedAt)
  opened.foldlM (engine.backupOpened chunker run job) .start

def runBackupOpened (opened : List (FileEntry × Option Reader)) (run : Execution)
    (job : BackupJob) : EngineM BackupResult := do
  let p ← engine.collectOpened chunker opened run job
  engine.completeBackup run job p

end Operations

/-- The files that could be opened. -/
def readable (opened : List (FileEntry × Option Reader)) :
    List (FileEntry × Reader) :=
  opened.filterMap fun o => o.2.map fun reader => (o.1, reader)

/-- The entry describes a part of the content, and not all of it. -/
def DescribesPart (engine : BackupEngine) (entry : FileEntry) (content : Bytes)
    (completed : FileEntry) : Prop :=
  ∃ chunks : List RawChunkData, chunks.flatMap RawChunkData.data <+: content ∧
    chunks.flatMap RawChunkData.data ≠ content ∧
    completed = engine.completedEntry entry chunks

/-- No file whose reader fails is in the manifest with a part of its content. -/
def NeverShort (engine : BackupEngine) (opened : List (FileEntry × Option Reader))
    (m : Manifest) : Prop :=
  ∀ (i : Nat) (entry : FileEntry) (reader : Reader) (completed : FileEntry),
    (readable opened)[i]? = some (entry, reader) → Fails reader.reads →
    m.files[i]? = some completed →
    ¬ engine.DescribesPart entry reader.content completed

section Runs

variable {engine : BackupEngine} {chunker : Chunker} {s s' : AgentState}
variable {run : Execution} {job : BackupJob} {p : Progress}
variable {opened : List (FileEntry × Option Reader)}

/-- The entry is what the engine makes of the chunks of the reader. -/
def Completes (engine : BackupEngine) (chunker : Chunker) (job : BackupJob)
    (file : FileEntry × Reader) (completed : FileEntry) : Prop :=
  ∃ chunks, chunker.chunk (job.chunkingProfile.toChunkStrategy file.1.size)
      file.2.reads = .ok chunks ∧
    completed = engine.completedEntry file.1 chunks

theorem readable_append_singleton (done : List (FileEntry × Option Reader))
    (entry : FileEntry) (reader : Option Reader) :
    readable (done ++ [(entry, reader)]) =
      readable done ++ (reader.map fun reader => (entry, reader)).toList := by
  unfold readable
  rw [List.filterMap_append]
  cases reader with
  | none =>
      rfl
  | some reader =>
      rfl

theorem ensures_backupOpened (done : List (FileEntry × Option Reader))
    (o : FileEntry × Option Reader)
    (h : List.Forall₂ (Completes engine chunker job) (readable done) p.files) :
    Ensures (engine.backupOpened chunker run job p o) s
      (fun p' _ => List.Forall₂ (Completes engine chunker job)
        (readable (done ++ [o])) p'.files) := by
  obtain ⟨entry, reader⟩ := o
  rw [readable_append_singleton]
  unfold backupOpened
  cases reader with
  | none =>
      refine ensures_pure ?_
      rw [Option.map_none, Option.toList_none, List.append_nil]
      exact h
  | some reader =>
      refine ensures_bind (ensures_processFile run.versionId job p entry
        reader.content) ?_
      rintro p' s₁ ⟨chunks, hchunks, hfiles⟩
      refine ensures_bind (P := fun _ _ => True) (fun _ _ _ => trivial) ?_
      intro _ s₂ _
      refine ensures_pure ?_
      rw [hfiles, Option.map_some, Option.toList_some]
      exact List.rel_append h (.cons ⟨chunks, hchunks, rfl⟩ .nil)

/-- The manifest has an entry for every file that was opened, made of the chunks
that its reader has sent. -/
theorem forall₂_files_of_collectOpened
    (h : (engine.collectOpened chunker opened run job).run s = .ok p s') :
    List.Forall₂ (Completes engine chunker job) (readable opened) p.files := by
  have hcollect : Ensures (engine.collectOpened chunker opened run job) s
      (fun (p : Progress) _ => List.Forall₂ (Completes engine chunker job)
        (readable opened) p.files) := by
    refine ensures_bind (P := fun _ _ => True) (fun _ _ _ => trivial) ?_
    intro _ s₁ _
    refine ensures_foldlM opened (fun done (p : Progress) _ => List.Forall₂
      (Completes engine chunker job) (readable done) p.files) .nil ?_
    intro done o rest p₁ s₂ _ hfiles
    exact ensures_backupOpened done o hfiles
  exact hcollect p s' h

theorem exists_getElem?_of_forall₂ {α β : Type} {R : α → β → Prop} {xs : List α}
    {ys : List β} (h : List.Forall₂ R xs ys) {i : Nat} {x : α}
    (hi : xs[i]? = some x) : ∃ y, ys[i]? = some y ∧ R x y := by
  induction h generalizing i with
  | nil =>
      cases hi
  | cons hxy _ ih =>
      cases i with
      | zero =>
          obtain rfl := Option.some.inj hi
          exact ⟨_, rfl, hxy⟩
      | succ i =>
          exact ih hi

/-- The manifest that a run writes never has a part of a file for the whole
exactly if every reader that fails has sent the whole file before. -/
theorem neverShort_iff
    (hsound : ∀ file ∈ readable opened, file.2.Sound)
    (hhash : ∀ file ∈ readable opened, ∀ part, part <+: file.2.content →
      engine.sha256 part = engine.sha256 file.2.content → part = file.2.content)
    (h : (engine.collectOpened chunker opened run job).run s = .ok p s') :
    Ensures (engine.runBackupOpened chunker opened run job) s
        (fun _ s' => s'.files.lookup
          (LocalRepository.manifestPath engine.root run.versionId) =
            some (engine.json.toVec (engine.fullManifest run p))) ∧
      (engine.NeverShort opened (engine.fullManifest run p) ↔
        ∀ file ∈ readable opened, Fails file.2.reads →
          file.2.SentWhole chunker) := by
  have hfiles := forall₂_files_of_collectOpened h
  have hwritten : Ensures (engine.runBackupOpened chunker opened run job) s
      (fun _ s' => s'.files.lookup
        (LocalRepository.manifestPath engine.root run.versionId) =
          some (engine.json.toVec (engine.fullManifest run p))) := by
    intro result s₁ hrun
    unfold runBackupOpened at hrun
    rw [run_bind_of_ok h] at hrun
    exact ensures_completeBackup run job p result s₁ hrun
  refine ⟨hwritten, ?_⟩
  constructor
  · intro hnever file hfile hfails
    obtain ⟨i, hi⟩ := List.mem_iff_getElem?.mp hfile
    obtain ⟨completed, hcompleted, chunks, hchunks, hentry⟩ :=
      exists_getElem?_of_forall₂ hfiles hi
    by_contra hpart
    refine hnever i file.1 file.2 completed hi hfails hcompleted
      ⟨chunks, (Chunker.chunk_prefix hchunks).trans (hsound file hfile), ?_, hentry⟩
    exact fun hwhole => hpart ((Reader.sentWhole_iff (hsound file hfile) hfails
      hchunks).mp hwhole)
  · intro hwhole i entry reader completed hi hfails hcompleted hpart
    have hfile := List.mem_of_getElem? hi
    obtain ⟨completed', hcompleted', chunks, hchunks, hentry⟩ :=
      exists_getElem?_of_forall₂ hfiles hi
    obtain rfl := Option.some.inj (hcompleted.symm.trans hcompleted')
    obtain ⟨chunks', hprefix, hne, hentry'⟩ := hpart
    have hsent := (Reader.sentWhole_iff (hsound _ hfile) hfails hchunks).mpr
      (hwhole _ hfile hfails)
    have hhashes := congrArg FileEntry.fileHash (hentry'.symm.trans hentry)
    refine hne (hhash _ hfile _ hprefix ?_)
    rw [← hsent]
    exact hhashes

end Runs

section Complete

variable {engine : BackupEngine} {chunker : Chunker} {source : Source}
variable {run : Execution} {job : BackupJob}

/-- The engine gets the chunks that its chunker makes of the content. -/
def ReadsAll (engine : BackupEngine) (chunker : Chunker) (job : BackupJob)
    (source : Source) (o : FileEntry × Option Reader) : Prop :=
  source.content o.1.path = o.2.map Reader.content ∧
    ∀ reader, o.2 = some reader →
      chunker.chunk (job.chunkingProfile.toChunkStrategy o.1.size) reader.reads =
        engine.chunker (job.chunkingProfile.toChunkStrategy o.1.size) reader.content

theorem backupOpened_eq_backupFile {o : FileEntry × Option Reader}
    (h : engine.ReadsAll chunker job source o) (p : Progress) :
    engine.backupOpened chunker run job p o =
      engine.backupFile source run job p o.1 := by
  obtain ⟨entry, reader⟩ := o
  obtain ⟨hcontent, hchunks⟩ := h
  unfold backupOpened backupFile
  rw [hcontent]
  cases reader with
  | none =>
      rfl
  | some reader =>
      have hfile : (engine.reading chunker reader.reads).processFile run.versionId job
          p entry reader.content =
            engine.processFile run.versionId job p entry reader.content := by
        unfold processFile
        rw [← hchunks reader rfl]
        rfl
      simp only [hfile, Option.map_some]

/-- Where the reads make no difference, the run is that of a backup of the
contents. -/
theorem collectOpened_eq_collectFull {opened : List (FileEntry × Option Reader)}
    (hscan : opened.map Prod.fst = scan source none)
    (h : ∀ o ∈ opened, engine.ReadsAll chunker job source o) :
    engine.collectOpened chunker opened run job = engine.collectFull source run job := by
  have hfold : ∀ (opened : List (FileEntry × Option Reader)) (p : Progress),
      (∀ o ∈ opened, engine.ReadsAll chunker job source o) →
      opened.foldlM (engine.backupOpened chunker run job) p =
        (opened.map Prod.fst).foldlM (engine.backupFile source run job) p := by
    intro opened
    induction opened with
    | nil =>
        intro p _
        rfl
    | cons o opened ih =>
        intro p h
        rw [List.foldlM_cons, List.map_cons, List.foldlM_cons,
          backupOpened_eq_backupFile (h o List.mem_cons_self)]
        exact bind_congr fun p' => ih p' fun o ho => h o (List.mem_cons_of_mem _ ho)
  unfold collectOpened collectFull
  rw [hfold opened .start h, hscan]

end Complete

section Example

/-- An engine on an empty repository. -/
def freshEngine : BackupEngine :=
  exampleEngine (examplePlatform {
    versionId := ⟨0⟩
    timestamp := 0
    parentVersionId := none
    versionNumber := 1
    backupType := .full
    files := []
    chunkRefs := []
    hashes := {
      manifestHash := zeroDigest
      fileIndexHash := zeroDigest
      chunkIndexHash := zeroDigest
      repoHash := zeroDigest }
    chunkLocations := ∅ })

def freshRepository : AgentState where
  files := ∅
  index := ∅
  journal := none
  chunkIdsDrawn := 0
  appendsLeft := none

/-- The file `abc`, whose reader fails after the given reads. -/
def abcFails (reads : List Bytes) : FileEntry × Option Reader :=
  (exampleFile "/data/a" 3,
    some { content := abc
           reads := reads.map .ok ++ [.error "Input/output error (os error 5)"] })

theorem exists_collectOpened_of_isOk {opened : List (FileEntry × Option Reader)}
    (h : (outcome (freshEngine.collectOpened .fixed opened (exampleExecution 3)
      exampleJob) freshRepository).isOk = true) :
    ∃ p s, (freshEngine.collectOpened .fixed opened (exampleExecution 3)
      exampleJob).run freshRepository = .ok p s :=
  exists_run_of_isOk h

theorem sha256_abc {part : Bytes} (hpart : part <+: abc)
    (hhash : Sha256.hash part = Sha256.hash abc) : part = abc := by
  have hdistinct : ∀ n < 3, Sha256.hash (abc.take n) ≠ Sha256.hash abc := by
    decide +kernel
  have htake := List.prefix_iff_eq_take.mp hpart
  by_cases hlength : part.length < 3
  · rw [htake] at hhash
    exact absurd hhash (hdistinct _ hlength)
  · refine hpart.eq_of_length_le ?_
    have hthree : abc.length = 3 := rfl
    omega

/-- If all bytes came before the error, the entry describes the whole file. -/
theorem neverShort_abc :
    ∃ p s, (freshEngine.collectOpened .fixed [abcFails [abc]] (exampleExecution 3)
        exampleJob).run freshRepository = .ok p s ∧
      freshEngine.NeverShort [abcFails [abc]]
        (freshEngine.fullManifest (exampleExecution 3) p) := by
  obtain ⟨p, s, hrun⟩ := @exists_collectOpened_of_isOk [abcFails [abc]] (by rfl)
  have hone : ∀ file ∈ readable [abcFails [abc]], file =
      (exampleFile "/data/a" 3,
        { content := abc
          reads := [.ok abc, .error "Input/output error (os error 5)"] }) := by
    intro file hfile
    exact List.mem_singleton.mp hfile
  refine ⟨p, s, hrun, (neverShort_iff ?_ ?_ hrun).2.mpr ?_⟩
  · intro file hfile
    rw [hone file hfile]
    exact List.prefix_rfl
  · intro file hfile part hpart hhash
    rw [hone file hfile] at hpart hhash ⊢
    exact sha256_abc hpart hhash
  · intro file hfile _
    rw [hone file hfile]
    rfl

/-- A file of three bytes whose first read fails is recorded as an empty file. -/
theorem not_neverShort_abc :
    ∃ p s, (freshEngine.collectOpened .fixed [abcFails []] (exampleExecution 3)
        exampleJob).run freshRepository = .ok p s ∧
      ¬ freshEngine.NeverShort [abcFails []]
        (freshEngine.fullManifest (exampleExecution 3) p) := by
  obtain ⟨p, s, hrun⟩ := @exists_collectOpened_of_isOk [abcFails []] (by rfl)
  have hfiles := forall₂_files_of_collectOpened hrun
  obtain ⟨completed, hcompleted, chunks, hchunks, hentry⟩ :=
    exists_getElem?_of_forall₂ hfiles (i := 0) rfl
  refine ⟨p, s, hrun, fun hnever => hnever 0 _ _ completed rfl trivial hcompleted ?_⟩
  cases hchunks
  exact ⟨[], List.nil_prefix, by decide, hentry⟩

end Example

end BackupEngine

end Agent
end HyperBackup
