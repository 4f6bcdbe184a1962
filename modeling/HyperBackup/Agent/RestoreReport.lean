import HyperBackup.Agent.BackupRestore

/-!
# What the report of a restore promises

Files are restored one after the other under the last component of their
path, so several files may have one target.  The data that stays there is
that of the file which decides the target: the last one with this target, or
the first one if existing files are skipped.

The report calls a file restored as soon as it has been written, or skipped.
It is right about all files iff the data of the deciding file has the hash of
every other file with its target that is reported as restored.
-/

namespace HyperBackup
namespace Agent
namespace RestoreReport

open Lib Lib.Program BackupEngine Restore BackupRestore

section Targets

variable (platform : Platform) (job : RestoreJob) (manifest : Manifest)

/-- The path gives the file a target.  Without a last component the target is
the directory itself, which cannot be written. -/
def NamesTarget (f : FileEntry) : Prop :=
  job.restoreMode = .rename ∨ (Path.fileName f.path).isSome

/-- The target exists and existing files are skipped. -/
def Skipped (files : Files) (f : FileEntry) : Prop :=
  job.restoreMode = .skip ∧ (files.lookup (targetOf job f)).isSome

instance (files : Files) (f : FileEntry) : Decidable (Skipped job files f) :=
  inferInstanceAs (Decidable (_ ∧ _))

/-- The files of the machine after a file was restored. -/
def fileRestored (files : Files) (f : FileEntry) : Files :=
  if Skipped job files f then files
  else
    match readFileData platform files manifest f.chunks with
    | .ok data => Files.write files (targetOf job f) data
    | .error _ => files

/-- The files of the machine after several files were restored. -/
def filesRestored (files : Files) (selected : List FileEntry) : Files :=
  selected.foldl (fileRestored platform job manifest) files

/-- At its turn a file of this path is written with data of another hash. -/
def Mismatched (files : Files) (selected : List FileEntry) (path : String) :
    Prop :=
  ∃ before f after data,
    selected = before ++ f :: after ∧ f.path = path ∧
      ¬ Skipped job (filesRestored platform job manifest files before) f ∧
      readFileData platform (filesRestored platform job manifest files before)
        manifest f.chunks = .ok data ∧
      platform.sha256 data ≠ f.fileHash

/-- Between these files, this one decides what stays at its target. -/
def Decides (before : List FileEntry) (g : FileEntry)
    (after : List FileEntry) : Prop :=
  if job.restoreMode = .skip then
    ∀ f ∈ before, targetOf job f ≠ targetOf job g
  else
    ∀ f ∈ after, targetOf job f ≠ targetOf job g

/-- The data of the file that decides a target has the hash of all other files
with this target whose own data does not fail. -/
def TargetsAgree (files : Files) (selected : List FileEntry) : Prop :=
  ∀ before g after data,
    selected = before ++ g :: after → Decides job before g after →
    ¬ Skipped job files g →
    readFileData platform (filesRestored platform job manifest files before)
      manifest g.chunks = .ok data →
    ∀ f ∈ before ++ after, NamesTarget job f →
      targetOf job f = targetOf job g →
      ¬ Mismatched platform job manifest files selected f.path →
      platform.sha256 data = f.fileHash

/-- Every selected file that is not reported as failed, and was not skipped for
what was there before, lies at its target with the right hash. -/
def ReportsTruth (files : Files) (r : RestoreResult) (files' : Files) : Prop :=
  ∀ f ∈ planFiles manifest job.fileSelection, NamesTarget job f →
    f.path ∉ r.failedFiles → ¬ Skipped job files f →
    ∃ data, files'.lookup (targetOf job f) = some data ∧
      platform.sha256 data = f.fileHash

end Targets

section Steps

variable {platform : Platform} {job : RestoreJob} {manifest : Manifest}
variable {r r' : RestoreResult} {files files' : Files} {f : FileEntry}

theorem run_restoreFile_of_skipped (h : Skipped job files f) :
    (restoreFile platform job manifest r f).run files =
      .ok { r with filesRestored := r.filesRestored + 1 } files := by
  unfold restoreFile
  refine (run_bind_of_ok rfl).trans ?_
  change EStateM.run (if Skipped job files f then _ else _) files = _
  rw [if_pos h]
  rfl

/-- What is added to the report when data was written for a file. -/
def reported (platform : Platform) (r : RestoreResult) (f : FileEntry)
    (data : Bytes) : RestoreResult :=
  if platform.sha256 data = f.fileHash then
    { r with
      bytesRestored := r.bytesRestored + data.length
      filesRestored := r.filesRestored + 1 }
  else
    { r with
      bytesRestored := r.bytesRestored + data.length
      allVerified := false
      filesFailed := r.filesFailed + 1
      failedFiles := r.failedFiles ++ [f.path] }

theorem mem_failedFiles_reported {data : Bytes} {path : String} :
    path ∈ (reported platform r f data).failedFiles ↔
      path ∈ r.failedFiles ∨
        (f.path = path ∧ platform.sha256 data ≠ f.fileHash) := by
  unfold reported
  split
  · next h =>
      simp [h]
  · next h =>
      simp [h, eq_comm]

theorem allVerified_reported {data : Bytes} :
    (reported platform r f data).allVerified = true ↔
      r.allVerified = true ∧ platform.sha256 data = f.fileHash := by
  unfold reported
  split
  · next h =>
      simp [h]
  · next h =>
      simp [h]

theorem run_restoreFile_of_data {data : Bytes} (h : ¬ Skipped job files f)
    (hdata : readFileData platform files manifest f.chunks = .ok data) :
    (restoreFile platform job manifest r f).run files =
      .ok (reported platform r f data)
        (Files.write files (targetOf job f) data) := by
  unfold restoreFile
  refine (run_bind_of_ok rfl).trans ?_
  change EStateM.run (if Skipped job files f then _ else _) files = _
  rw [if_neg h, hdata]
  refine (run_bind_of_ok rfl).trans ?_
  unfold writeAndVerify reported
  refine (run_bind_of_ok rfl).trans ?_
  change EStateM.run (if platform.sha256 data = f.fileHash then _ else _) _ = _
  split
  · rfl
  · rfl

theorem run_restoreFile_of_error {e : RestoreError} (h : ¬ Skipped job files f)
    (hdata : readFileData platform files manifest f.chunks = .error e) :
    (restoreFile platform job manifest r f).run files = .error e files := by
  unfold restoreFile
  refine (run_bind_of_ok rfl).trans ?_
  change EStateM.run (if Skipped job files f then _ else _) files = _
  rw [if_neg h, hdata]
  rfl

/-- What restoring one file does: it skips the file or writes its data. -/
theorem restoreFile_cases
    (hrun : (restoreFile platform job manifest r f).run files =
      .ok r' files') :
    (Skipped job files f ∧ files' = files ∧
      r' = { r with filesRestored := r.filesRestored + 1 }) ∨
    (¬ Skipped job files f ∧ ∃ data,
      readFileData platform files manifest f.chunks = .ok data ∧
        files' = Files.write files (targetOf job f) data ∧
        r' = reported platform r f data) := by
  by_cases h : Skipped job files f
  · rw [run_restoreFile_of_skipped h] at hrun
    cases hrun
    exact Or.inl ⟨h, rfl, rfl⟩
  · cases hdata : readFileData platform files manifest f.chunks with
    | error e =>
        rw [run_restoreFile_of_error h hdata] at hrun
        cases hrun
    | ok data =>
        rw [run_restoreFile_of_data h hdata] at hrun
        cases hrun
        exact Or.inr ⟨h, data, rfl, rfl, rfl⟩

theorem eq_fileRestored_of_run
    (hrun : (restoreFile platform job manifest r f).run files =
      .ok r' files') :
    files' = fileRestored platform job manifest files f := by
  unfold fileRestored
  obtain ⟨h, rfl, _⟩ | ⟨h, data, hdata, rfl, _⟩ := restoreFile_cases hrun
  · rw [if_pos h]
  · rw [if_neg h, hdata]

end Steps

section Locations

/-- A chunk whose location is not recorded is looked for under its hash. -/
theorem locateChunk_of_not_recorded {platform : Platform} {files : Files}
    {manifest : Manifest} {hash : ChunkHash}
    (h : manifest.chunkLocations.lookup hash.toHex = none) :
    locateChunk platform files manifest hash =
      chunkLocation hash := by
  unfold locateChunk
  rw [h]
  cases hfound : LocalRepository.findChunk platform.root files hash with
  | ok location =>
      exact (LocalRepository.findChunk_eq_ok hfound).1
  | error e =>
      rfl

end Locations

section Runs

variable {platform : Platform} {job : RestoreJob} {manifest : Manifest}
variable {r r' : RestoreResult} {files files' : Files}
variable {selected : List FileEntry}

/-- A run over the files splits into the run before a file, that file and the
run after it. -/
theorem restoreFiles_split {before after : List FileEntry} {f : FileEntry}
    (hrun : ((before ++ f :: after).foldlM
      (restoreFile platform job manifest) r).run files = .ok r' files') :
    ∃ r₁ s₁ r₂ s₂,
      (before.foldlM (restoreFile platform job manifest) r).run files =
        .ok r₁ s₁ ∧
      (restoreFile platform job manifest r₁ f).run s₁ = .ok r₂ s₂ ∧
      (after.foldlM (restoreFile platform job manifest) r₂).run s₂ =
        .ok r' files' := by
  rw [List.foldlM_append] at hrun
  obtain ⟨r₁, s₁, hbefore, hrest⟩ := run_bind_eq_ok.mp hrun
  rw [List.foldlM_cons] at hrest
  obtain ⟨r₂, s₂, hf, hafter⟩ := run_bind_eq_ok.mp hrest
  exact ⟨r₁, s₁, r₂, s₂, hbefore, hf, hafter⟩

/-- A run leaves the files as they are after all selected files. -/
theorem eq_filesRestored_of_run
    (hrun : (selected.foldlM (restoreFile platform job manifest) r).run files =
      .ok r' files') :
    files' = filesRestored platform job manifest files selected := by
  induction selected generalizing r files with
  | nil =>
      cases hrun
      rfl
  | cons f rest ih =>
      rw [List.foldlM_cons] at hrun
      obtain ⟨r₁, s₁, hf, hrest⟩ := run_bind_eq_ok.mp hrun
      rw [ih hrest, eq_fileRestored_of_run hf]
      rfl

/-- At its turn every file is skipped or has data. -/
theorem restoreFile_cases_of_split {before after : List FileEntry}
    {f : FileEntry}
    (hrun : ((before ++ f :: after).foldlM
      (restoreFile platform job manifest) r).run files = .ok r' files') :
    Skipped job (filesRestored platform job manifest files before) f ∨
      ∃ data, readFileData platform
        (filesRestored platform job manifest files before) manifest f.chunks =
          .ok data := by
  obtain ⟨r₁, s₁, r₂, s₂, hbefore, hf, _⟩ := restoreFiles_split hrun
  obtain rfl := eq_filesRestored_of_run hbefore
  obtain ⟨h, _⟩ | ⟨_, data, hdata, _⟩ := restoreFile_cases hf
  · exact Or.inl h
  · exact Or.inr ⟨data, hdata⟩

theorem mismatched_cons {f : FileEntry} {rest : List FileEntry}
    {path : String} :
    Mismatched platform job manifest files (f :: rest) path ↔
      (f.path = path ∧ ¬ Skipped job files f ∧ ∃ data,
        readFileData platform files manifest f.chunks = .ok data ∧
          platform.sha256 data ≠ f.fileHash) ∨
      Mismatched platform job manifest
        (fileRestored platform job manifest files f) rest path := by
  constructor
  · rintro ⟨before, g, after, data, hsplit, hpath, hwritten, hdata, hhash⟩
    cases before with
    | nil =>
        cases hsplit
        exact Or.inl ⟨hpath, hwritten, data, hdata, hhash⟩
    | cons b before =>
        cases hsplit
        exact Or.inr ⟨before, g, after, data, rfl, hpath, hwritten, hdata, hhash⟩
  · rintro (⟨hpath, hwritten, data, hdata, hhash⟩ |
      ⟨before, g, after, data, rfl, hpath, hwritten, hdata, hhash⟩)
    · exact ⟨[], f, rest, data, rfl, hpath, hwritten, hdata, hhash⟩
    · exact ⟨f :: before, g, after, data, rfl, hpath, hwritten, hdata, hhash⟩

/-- The report names the files that were written with another hash. -/
theorem mem_failedFiles_of_run
    (hrun : (selected.foldlM (restoreFile platform job manifest) r).run files =
      .ok r' files') (path : String) :
    path ∈ r'.failedFiles ↔ path ∈ r.failedFiles ∨
      Mismatched platform job manifest files selected path := by
  induction selected generalizing r files with
  | nil =>
      have hnone : ¬ Mismatched platform job manifest files [] path := by
        rintro ⟨before, f, after, _, hsplit, _⟩
        exact absurd hsplit (by simp)
      cases hrun
      rw [or_iff_left hnone]
  | cons f rest ih =>
      rw [List.foldlM_cons] at hrun
      obtain ⟨r₁, s₁, hf, hrest⟩ := run_bind_eq_ok.mp hrun
      obtain rfl := eq_fileRestored_of_run hf
      rw [ih hrest, mismatched_cons, ← or_assoc]
      refine or_congr ?_ Iff.rfl
      obtain ⟨hskip, _, rfl⟩ | ⟨hwritten, data, hdata, _, rfl⟩ :=
        restoreFile_cases hf
      · simp [hskip]
      · simp [mem_failedFiles_reported, hwritten, hdata]

/-- A path that is no target is left alone. -/
theorem lookup_filesRestored_of_ne {path : String}
    (h : ∀ f ∈ selected, targetOf job f ≠ path) :
    (filesRestored platform job manifest files selected).lookup path =
      files.lookup path := by
  induction selected generalizing files with
  | nil =>
      rfl
  | cons f rest ih =>
      have hrest := @ih (fileRestored platform job manifest files f)
        fun g hg => h g (List.mem_cons_of_mem f hg)
      refine hrest.trans ?_
      unfold fileRestored
      split
      · rfl
      · split
        · rw [Files.lookup_write, if_neg (h f List.mem_cons_self).symm]
        · rfl

/-- Where existing files are skipped, an existing file stays. -/
theorem lookup_filesRestored_of_skip {path : String} {data : Bytes}
    (hskip : job.restoreMode = .skip)
    (hdata : files.lookup path = some data) :
    (filesRestored platform job manifest files selected).lookup path =
      some data := by
  induction selected generalizing files with
  | nil =>
      exact hdata
  | cons f rest ih =>
      refine ih ?_
      unfold fileRestored
      split
      · exact hdata
      · next hwritten =>
          have hne : path ≠ targetOf job f := by
            rintro rfl
            exact hwritten ⟨hskip, by rw [hdata]; rfl⟩
          split
          · rw [Files.lookup_write, if_neg hne]
            exact hdata
          · exact hdata

/-- The data of the file that decides a target is what stays there. -/
theorem lookup_of_decides {before after : List FileEntry} {g : FileEntry}
    (hrun : ((before ++ g :: after).foldlM
      (restoreFile platform job manifest) r).run files = .ok r' files')
    (hdecides : Decides job before g after) (hnew : ¬ Skipped job files g) :
    ∃ data,
      ¬ Skipped job (filesRestored platform job manifest files before) g ∧
      readFileData platform (filesRestored platform job manifest files before)
        manifest g.chunks = .ok data ∧
      files'.lookup (targetOf job g) = some data := by
  -- nothing is at the target when its turn comes, or it is overwritten
  have hwritten : ¬ Skipped job
      (filesRestored platform job manifest files before) g := by
    rintro ⟨hskip, hsome⟩
    rw [Decides, if_pos hskip] at hdecides
    rw [lookup_filesRestored_of_ne hdecides] at hsome
    exact hnew ⟨hskip, hsome⟩
  obtain hskipped | ⟨data, hdata⟩ := restoreFile_cases_of_split hrun
  · exact absurd hskipped hwritten
  refine ⟨data, hwritten, hdata, ?_⟩
  have hg : (fileRestored platform job manifest
      (filesRestored platform job manifest files before) g).lookup
        (targetOf job g) = some data := by
    rw [fileRestored, if_neg hwritten, hdata]
    simp
  have hfiles : files' = filesRestored platform job manifest
      (fileRestored platform job manifest
        (filesRestored platform job manifest files before) g) after := by
    rw [eq_filesRestored_of_run hrun]
    simp [filesRestored]
  rw [hfiles]
  by_cases hskip : job.restoreMode = .skip
  · exact lookup_filesRestored_of_skip hskip hg
  · rw [Decides, if_neg hskip] at hdecides
    rw [lookup_filesRestored_of_ne hdecides, hg]

/-- Every target of a selected file is decided by some file. -/
theorem exists_decides {f : FileEntry} (hf : f ∈ selected) :
    ∃ before g after, selected = before ++ g :: after ∧
      Decides job before g after ∧ targetOf job f = targetOf job g := by
  have hmem : targetOf job f ∈ selected.map (targetOf job) :=
    List.mem_map_of_mem hf
  by_cases hskip : job.restoreMode = .skip
  · simp only [Decides, if_pos hskip]
    obtain ⟨before, after, hsplit, hfirst⟩ := List.eq_append_cons_of_mem hmem
    obtain ⟨bs, gs, rfl, rfl, hgs⟩ := List.map_eq_append_iff.mp hsplit
    obtain ⟨g, rest, rfl, hg, rfl⟩ := List.map_eq_cons_iff.mp hgs
    refine ⟨bs, g, rest, rfl, fun b hb heq => hfirst ?_, hg.symm⟩
    rw [← hg, ← heq]
    exact List.mem_map_of_mem hb
  · simp only [Decides, if_neg hskip]
    obtain ⟨before, after, hsplit, hlast⟩ :=
      List.eq_append_cons_of_mem (List.mem_reverse.mpr hmem)
    have hsplit' : selected.map (targetOf job) =
        after.reverse ++ targetOf job f :: before.reverse := by
      rw [← List.reverse_reverse (selected.map (targetOf job)), hsplit]
      simp
    obtain ⟨bs, gs, rfl, _, hgs⟩ := List.map_eq_append_iff.mp hsplit'
    obtain ⟨g, rest, rfl, hg, hrest⟩ := List.map_eq_cons_iff.mp hgs
    refine ⟨bs, g, rest, rfl, fun b hb heq => hlast ?_, hg.symm⟩
    rw [← List.mem_reverse, ← hrest, ← hg, ← heq]
    exact List.mem_map_of_mem hb

end Runs

section Main

variable {platform : Platform} {job : RestoreJob} {manifest : Manifest}
variable {r : RestoreResult} {files files' : Files}

/-- The report before the first file. -/
def emptyReport (job : RestoreJob) : RestoreResult where
  versionId := job.sourceVersionId
  filesRestored := 0
  filesFailed := 0
  bytesRestored := 0
  allVerified := true
  failedFiles := []

/-- A restore whose manifest can be read goes through the selected files. -/
theorem run_runRestore
    (hread : LocalRepository.readManifest platform.root platform.json files
      job.sourceVersionId = .ok manifest) :
    (runRestore platform job).run files =
      ((planFiles manifest job.fileSelection).foldlM
        (restoreFile platform job manifest) (emptyReport job)).run files := by
  unfold runRestore
  refine (run_bind_of_ok rfl).trans ?_
  exact run_bind_of_ok (run_ofResult_eq_ok.mpr ⟨hread, rfl⟩)

/-- The report of a restore that returns is right about every file iff the
data that decides a target has the hash of every file that claims it. -/
theorem reportsTruth_iff
    (hread : LocalRepository.readManifest platform.root platform.json files
      job.sourceVersionId = .ok manifest)
    (hrun : (runRestore platform job).run files = .ok r files') :
    ReportsTruth platform job manifest files r files' ↔
      TargetsAgree platform job manifest files
        (planFiles manifest job.fileSelection) := by
  have hfiles := hrun
  rw [run_runRestore hread] at hfiles
  have hfailed : ∀ path, path ∈ r.failedFiles ↔
      Mismatched platform job manifest files
        (planFiles manifest job.fileSelection) path := by
    intro path
    rw [mem_failedFiles_of_run hfiles path]
    exact or_iff_right List.not_mem_nil
  constructor
  · intro htruth before g after data hsplit hdecides hnew hdata f hf hnames
      htarget hmatch
    have hmem : f ∈ planFiles manifest job.fileSelection := by
      rw [hsplit]
      rcases List.mem_append.mp hf with hf | hf
      · exact List.mem_append_left _ hf
      · exact List.mem_append_right _ (List.mem_cons_of_mem g hf)
    have hskipped : ¬ Skipped job files f := by
      rwa [Skipped, htarget]
    obtain ⟨data', hdata', hhash⟩ :=
      htruth f hmem hnames ((hfailed f.path).not.mpr hmatch) hskipped
    rw [hsplit] at hfiles
    obtain ⟨data'', _, hread'', hstays⟩ :=
      lookup_of_decides hfiles hdecides hnew
    cases hdata.symm.trans hread''
    rw [htarget, hstays] at hdata'
    cases hdata'
    exact hhash
  · intro hagree f hf hnames hunfailed hskipped
    have hmatch := (hfailed f.path).not.mp hunfailed
    obtain ⟨before, g, after, hsplit, hdecides, htarget⟩ :=
      @exists_decides job _ f hf
    have hnew : ¬ Skipped job files g := by
      rwa [Skipped, ← htarget]
    have hsplitRun := hfiles
    rw [hsplit] at hsplitRun
    obtain ⟨data, hwritten, hdata, hstays⟩ :=
      lookup_of_decides hsplitRun hdecides hnew
    refine ⟨data, htarget ▸ hstays, ?_⟩
    rcases List.mem_append.mp (hsplit ▸ hf) with hbefore | hrest
    · exact hagree before g after data hsplit hdecides hnew hdata f
        (List.mem_append_left _ hbefore) hnames htarget hmatch
    rcases List.mem_cons.mp hrest with rfl | hafter
    · -- the deciding file itself: it is not reported as failed
      by_contra hhash
      exact hmatch
        ⟨before, f, after, data, hsplit, rfl, hwritten, hdata, hhash⟩
    · exact hagree before g after data hsplit hdecides hnew hdata f
        (List.mem_append_right _ hafter) hnames htarget hmatch

/-- Files with different targets never disagree. -/
theorem targetsAgree_of_distinct {selected : List FileEntry}
    (h : (selected.map (targetOf job)).Nodup) :
    TargetsAgree platform job manifest files selected := by
  intro before g after data hsplit _ _ _ f hf _ htarget _
  rw [hsplit, List.map_append, List.map_cons, List.nodup_middle,
    ← List.map_append] at h
  have hother := (List.nodup_cons.mp h).1
  rw [← htarget] at hother
  exact absurd (List.mem_map_of_mem hf) hother

end Main

section Example

/-- A file of the content `abc`. -/
def abcFile (path : String) : FileEntry :=
  { exampleFile path 3 with
    chunks := [abcHash]
    fileHash := Sha256.hash abc }

/-- A file without content. -/
def emptyFile (path : String) : FileEntry :=
  { exampleFile path 0 with fileHash := Sha256.hash [] }

def manifestOf (files : List FileEntry) : Manifest :=
  { blankManifest with files := files }

/-- A machine with one chunk and the manifest of these files. -/
def versionStored (hash : ChunkHash) (encrypted : EncryptedChunk)
    (files : List FileEntry) : Files :=
  Files.write
    (Files.write ∅ (LocalRepository.chunkPath "/repo" hash)
      (encodeEncryptedChunk encrypted))
    (LocalRepository.manifestPath "/repo" (exampleExecution 4).versionId)
    (Json.manifestBytes (manifestOf files))

theorem readManifest_versionStored (hash : ChunkHash)
    (encrypted : EncryptedChunk) (files : List FileEntry) (target : String) :
    LocalRepository.readManifest (examplePlatform (manifestOf files)).root
      (examplePlatform (manifestOf files)).json
      (versionStored hash encrypted files)
      (abcRestore target).sourceVersionId = .ok (manifestOf files) := by
  have hjson : (examplePlatform (manifestOf files)).json.fromSlice
      (Json.manifestBytes (manifestOf files)) = .ok (manifestOf files) := by
    simp only [examplePlatform, exampleJson, if_pos]
  refine LocalRepository.readManifest_eq_ok ?_ hjson
  simp only [versionStored, examplePlatform, abcRestore, Files.lookup_write,
    if_pos]

/-- A stored chunk leads to its data. -/
theorem readFileData_of_stored {entries : List FileEntry} {files : Files}
    {hash : ChunkHash} {encrypted : EncryptedChunk} {compressed data : Bytes}
    (hlookup : files.lookup (LocalRepository.chunkPath "/repo" hash) =
      some (encodeEncryptedChunk encrypted))
    (hdecrypt : (examplePlatform (manifestOf entries)).decryptChunk encrypted =
      .ok compressed)
    (hdecompress : (examplePlatform (manifestOf entries)).decompress compressed =
      .ok data) :
    readFileData (examplePlatform (manifestOf entries)) files
      (manifestOf entries) [hash] = .ok data := by
  have hfetch : fetchChunk (examplePlatform (manifestOf entries)) files
      (chunkLocation hash) = .ok data :=
    fetchChunk_of_written hlookup hdecrypt hdecompress
  have hconcat : readFileData (examplePlatform (manifestOf entries)) files
      (manifestOf entries) ([data].map fun _ => hash) =
        .ok ([data].flatMap id) := by
    refine readFileData_eq_ok _ _ _ fun c hc => ?_
    cases List.mem_singleton.mp hc
    rw [locateChunk_of_not_recorded rfl]
    exact hfetch
  refine hconcat.trans ?_
  rw [List.flatMap_singleton, id]

theorem lookup_chunk_versionStored (hash : ChunkHash)
    (encrypted : EncryptedChunk) (files : List FileEntry) :
    (versionStored hash encrypted files).lookup
        (LocalRepository.chunkPath "/repo" hash) =
      some (encodeEncryptedChunk encrypted) := by
  have hne : LocalRepository.chunkPath "/repo" hash ≠
      LocalRepository.manifestPath "/repo" (exampleExecution 4).versionId :=
    (LocalRepository.manifestPath_ne_chunkPath _ hash).symm
  simp [versionStored, hne]

/-- The chunk of the machine leads to its data. -/
theorem readFileData_versionStored {hash : ChunkHash}
    {encrypted : EncryptedChunk} {compressed data : Bytes}
    (files : List FileEntry)
    (hdecrypt : (examplePlatform (manifestOf files)).decryptChunk encrypted =
      .ok compressed)
    (hdecompress : (examplePlatform (manifestOf files)).decompress compressed =
      .ok data) :
    readFileData (examplePlatform (manifestOf files))
      (versionStored hash encrypted files) (manifestOf files) [hash] =
        .ok data :=
  readFileData_of_stored (lookup_chunk_versionStored _ _ _) hdecrypt hdecompress

theorem decryptChunk_abc (m : Manifest) :
    (examplePlatform m).decryptChunk abcEncrypted = .ok abcFrame := by
  simp only [examplePlatform, if_pos]

theorem decompress_abc (m : Manifest) :
    (examplePlatform m).decompress abcFrame = .ok abc := by
  simp only [examplePlatform, if_pos]

/-- A machine that has the chunk of `abc`. -/
abbrev abcStored : List FileEntry → Files :=
  versionStored abcHash abcEncrypted

/-- Two files, one with the content `abc` and one without content, are
restored and no file is reported as failed. -/
theorem run_exampleRestore (p q : String) :
    ∃ r, (runRestore
      (examplePlatform (manifestOf [abcFile p, emptyFile q]))
      (abcRestore "/restore")).run
        (abcStored [abcFile p, emptyFile q]) = .ok r
      (Files.write (Files.write (abcStored [abcFile p, emptyFile q])
        (targetOf (abcRestore "/restore") (abcFile p)) abc)
        (targetOf (abcRestore "/restore") (emptyFile q)) []) ∧
      r.failedFiles = [] := by
  have hwritten : ∀ files f, ¬ Skipped (abcRestore "/restore") files f := by
    rintro files f ⟨hskip, _⟩
    cases hskip
  have hplan : planFiles (manifestOf [abcFile p, emptyFile q])
      (abcRestore "/restore").fileSelection = [abcFile p, emptyFile q] :=
    rfl
  have hp : readFileData (examplePlatform (manifestOf [abcFile p, emptyFile q]))
      (abcStored [abcFile p, emptyFile q]) (manifestOf [abcFile p, emptyFile q])
      (abcFile p).chunks = .ok abc :=
    readFileData_versionStored _ (decryptChunk_abc _) (decompress_abc _)
  have hq : ∀ files, readFileData
      (examplePlatform (manifestOf [abcFile p, emptyFile q])) files
      (manifestOf [abcFile p, emptyFile q]) (emptyFile q).chunks = .ok [] := by
    intro files
    simp only [emptyFile, exampleFile, readFileData, List.foldlM_nil]
    rfl
  rw [run_runRestore (readManifest_versionStored _ _ _ _), hplan,
    List.foldlM_cons, run_bind_of_ok (run_restoreFile_of_data
      (f := abcFile p) (hwritten _ _) hp),
    List.foldlM_cons, run_bind_of_ok (run_restoreFile_of_data
      (f := emptyFile q) (hwritten _ _) (hq _))]
  refine ⟨_, rfl, List.eq_nil_iff_forall_not_mem.mpr fun path => ?_⟩
  simp [mem_failedFiles_reported, examplePlatform, abcFile, emptyFile,
    emptyReport]

/-- The names `x` and `y` do not share a target. -/
theorem reportsTruth_distinct :
    ∃ r files', (runRestore
      (examplePlatform (manifestOf [abcFile "/a/x", emptyFile "/b/y"]))
      (abcRestore "/restore")).run
        (abcStored [abcFile "/a/x", emptyFile "/b/y"]) = .ok r files' ∧
      ReportsTruth
        (examplePlatform (manifestOf [abcFile "/a/x", emptyFile "/b/y"]))
        (abcRestore "/restore") (manifestOf [abcFile "/a/x", emptyFile "/b/y"])
        (abcStored [abcFile "/a/x", emptyFile "/b/y"]) r files' := by
  obtain ⟨r, hrun, _⟩ := run_exampleRestore "/a/x" "/b/y"
  exact ⟨r, _, hrun, (reportsTruth_iff (readManifest_versionStored _ _ _ _)
    hrun).mpr (targetsAgree_of_distinct (by decide))⟩

/-- Two files of one name: the second replaces the first, and the report does
not say so. -/
theorem not_reportsTruth_sameName :
    ∃ r files', (runRestore
      (examplePlatform (manifestOf [abcFile "/a/x", emptyFile "/b/x"]))
      (abcRestore "/restore")).run
        (abcStored [abcFile "/a/x", emptyFile "/b/x"]) = .ok r files' ∧
      ¬ ReportsTruth
        (examplePlatform (manifestOf [abcFile "/a/x", emptyFile "/b/x"]))
        (abcRestore "/restore") (manifestOf [abcFile "/a/x", emptyFile "/b/x"])
        (abcStored [abcFile "/a/x", emptyFile "/b/x"]) r files' := by
  obtain ⟨r, hrun, hfailed⟩ := run_exampleRestore "/a/x" "/b/x"
  refine ⟨r, _, hrun, fun htruth => ?_⟩
  have hnew : ¬ Skipped (abcRestore "/restore")
      (abcStored [abcFile "/a/x", emptyFile "/b/x"]) (abcFile "/a/x") := by
    rintro ⟨hskip, _⟩
    cases hskip
  obtain ⟨data, hdata, hhash⟩ := htruth (abcFile "/a/x") List.mem_cons_self
    (Or.inr (by decide)) (by rw [hfailed]; exact List.not_mem_nil) hnew
  have htarget : targetOf (abcRestore "/restore") (abcFile "/a/x") =
      targetOf (abcRestore "/restore") (emptyFile "/b/x") := by
    decide
  rw [htarget, Files.lookup_write, if_pos rfl] at hdata
  cases hdata
  exact absurd hhash (by decide +kernel)

end Example

end RestoreReport
end Agent
end HyperBackup
