import HyperBackup.Agent.RestoreReport

/-!
# What a restore does to existing files

A restore writes the data of a file before it compares its hash.  An existing
file is therefore kept in two cases only: existing files are skipped, or the
restore stops before it comes to the file.  Otherwise the data that fails the
check has replaced it, and the report says that the file failed.
-/

namespace HyperBackup
namespace Agent
namespace RestoreExisting

open Lib Lib.Program Restore BackupRestore RestoreReport

section Targets

variable (platform : Platform) (job : RestoreJob) (manifest : Manifest)

/-- Restored one after the other, each of these files is skipped or can be
read. -/
def Readable : Files → List FileEntry → Prop
  | _, [] => True
  | files, f :: rest =>
      (Skipped job files f ∨
        ∃ data, readFileData platform files manifest f.chunks = .ok data) ∧
      Readable (fileRestored platform job manifest files f) rest

/-- The only selected file with its target, put together from its chunks, does
not have the hash of the manifest. -/
structure FailsCheck (files : Files) (before : List FileEntry) (f : FileEntry)
    (after : List FileEntry) (data : Bytes) : Prop where
  selected : planFiles manifest job.fileSelection = before ++ f :: after
  named : NamesTarget job f
  alone : ∀ g ∈ before ++ after, targetOf job g ≠ targetOf job f
  reassembled : readFileData platform
    (filesRestored platform job manifest files before) manifest f.chunks = .ok data
  differs : platform.sha256 data ≠ f.fileHash

/-- What is at the target of a file that fails its check stays there. -/
def KeepsExisting (files : Files) : Prop :=
  ∀ before f after data old,
    FailsCheck platform job manifest files before f after data →
    files.lookup (targetOf job f) = some old →
    (stateAfter (runRestore platform job) files).lookup (targetOf job f) = some old

end Targets

section Runs

variable {platform : Platform} {job : RestoreJob} {manifest : Manifest}
variable {r : RestoreResult} {files : Files}
variable {before after selected : List FileEntry} {f : FileEntry}

/-- However the restore of a file ends, it leaves the same files. -/
theorem stateAfter_restoreFile :
    stateAfter (restoreFile platform job manifest r f) files =
      fileRestored platform job manifest files f := by
  unfold stateAfter fileRestored
  by_cases h : Skipped job files f
  · rw [run_restoreFile_of_skipped h, if_pos h]
  · rw [if_neg h]
    cases hdata : readFileData platform files manifest f.chunks with
    | error e =>
        rw [run_restoreFile_of_error h hdata]
    | ok data =>
        rw [run_restoreFile_of_data h hdata]

/-- A file that is skipped or can be read does not stop the restore. -/
theorem exists_run_restoreFile (r : RestoreResult)
    (h : Skipped job files f ∨
      ∃ data, readFileData platform files manifest f.chunks = .ok data) :
    ∃ r', (restoreFile platform job manifest r f).run files =
      .ok r' (fileRestored platform job manifest files f) := by
  by_cases hskip : Skipped job files f
  · exact ⟨_, by rw [run_restoreFile_of_skipped hskip, fileRestored, if_pos hskip]⟩
  · obtain ⟨data, hdata⟩ := h.resolve_left hskip
    exact ⟨_, by rw [run_restoreFile_of_data hskip hdata, fileRestored,
      if_neg hskip, hdata]⟩

/-- Files that can be read are all restored. -/
theorem exists_run_of_readable
    (h : Readable platform job manifest files selected) :
    ∃ r', (selected.foldlM (restoreFile platform job manifest) r).run files =
      .ok r' (filesRestored platform job manifest files selected) := by
  induction selected generalizing r files with
  | nil =>
      exact ⟨r, rfl⟩
  | cons f rest ih =>
      obtain ⟨hf, hrest⟩ := h
      obtain ⟨r₁, hrun⟩ := exists_run_restoreFile r hf
      obtain ⟨r', hrun'⟩ := @ih r₁ _ hrest
      refine ⟨r', ?_⟩
      rw [List.foldlM_cons, run_bind_of_ok hrun, hrun']
      rfl

/-- Files that are all restored can be read. -/
theorem readable_of_run {r' : RestoreResult} {files' : Files}
    (hrun : (selected.foldlM (restoreFile platform job manifest) r).run files =
      .ok r' files') :
    Readable platform job manifest files selected := by
  induction selected generalizing r files with
  | nil =>
      trivial
  | cons f rest ih =>
      rw [List.foldlM_cons] at hrun
      obtain ⟨r₁, s₁, hf, hrest⟩ := run_bind_eq_ok.mp hrun
      obtain rfl := eq_fileRestored_of_run hf
      refine ⟨?_, ih hrest⟩
      obtain ⟨hskip, _⟩ | ⟨_, data, hdata, _⟩ := restoreFile_cases hf
      · exact Or.inl hskip
      · exact Or.inr ⟨data, hdata⟩

/-- A restore goes as far as some file, and leaves the files as they are there. -/
theorem stateAfter_restoreFiles :
    ∃ done rest, selected = done ++ rest ∧
      stateAfter (selected.foldlM (restoreFile platform job manifest) r) files =
        filesRestored platform job manifest files done := by
  induction selected generalizing r files with
  | nil =>
      exact ⟨[], [], rfl, rfl⟩
  | cons f rest ih =>
      rw [List.foldlM_cons, stateAfter_bind, stateAfter_restoreFile]
      cases houtcome : outcome (restoreFile platform job manifest r f) files with
      | error e =>
          exact ⟨[f], rest, rfl, rfl⟩
      | ok r₁ =>
          obtain ⟨done, rest', rfl, hstate⟩ :=
            @ih r₁ (fileRestored platform job manifest files f)
          exact ⟨f :: done, rest', rfl, hstate⟩

/-- If some file before cannot be read, the restore does not come further. -/
theorem stateAfter_of_not_readable
    (h : ¬ Readable platform job manifest files before) :
    stateAfter ((before ++ after).foldlM (restoreFile platform job manifest) r)
        files =
      stateAfter (before.foldlM (restoreFile platform job manifest) r) files := by
  rw [List.foldlM_append, stateAfter_bind]
  cases houtcome : outcome
      (before.foldlM (restoreFile platform job manifest) r) files with
  | error e =>
      rfl
  | ok r₁ =>
      exact absurd (readable_of_run (run_eq_ok_iff.mpr ⟨houtcome, rfl⟩)) h

end Runs

section Main

variable {platform : Platform} {job : RestoreJob} {manifest : Manifest}
variable {files : Files} {before after : List FileEntry} {f : FileEntry}
variable {data old : Bytes}

/-- A restore whose manifest can be read leaves the files that its loop leaves. -/
theorem stateAfter_runRestore
    (hread : LocalRepository.readManifest platform.root platform.json files
      job.sourceVersionId = .ok manifest) :
    stateAfter (runRestore platform job) files =
      stateAfter ((planFiles manifest job.fileSelection).foldlM
        (restoreFile platform job manifest) (emptyReport job)) files := by
  unfold stateAfter
  rw [run_runRestore hread]

/-- Where existing files are skipped, all of them stay. -/
theorem lookup_of_skip {path : String}
    (hread : LocalRepository.readManifest platform.root platform.json files
      job.sourceVersionId = .ok manifest)
    (hskip : job.restoreMode = .skip) (hold : files.lookup path = some old) :
    (stateAfter (runRestore platform job) files).lookup path = some old := by
  obtain ⟨done, _, _, hstate⟩ := @stateAfter_restoreFiles platform job manifest
    (emptyReport job) files (planFiles manifest job.fileSelection)
  rw [stateAfter_runRestore hread, hstate]
  exact lookup_filesRestored_of_skip hskip hold

/-- A restore that stops before the file leaves its target alone. -/
theorem lookup_of_not_readable
    (hread : LocalRepository.readManifest platform.root platform.json files
      job.sourceVersionId = .ok manifest)
    (hfails : FailsCheck platform job manifest files before f after data)
    (hstops : ¬ Readable platform job manifest files before) :
    (stateAfter (runRestore platform job) files).lookup (targetOf job f) =
      files.lookup (targetOf job f) := by
  rw [stateAfter_runRestore hread, hfails.selected,
    stateAfter_of_not_readable hstops]
  obtain ⟨done, rest, hsplit, hstate⟩ := @stateAfter_restoreFiles platform job
    manifest (emptyReport job) files before
  rw [hstate]
  refine lookup_filesRestored_of_ne fun g hg => hfails.alone g ?_
  rw [hsplit]
  exact List.mem_append_left _ (List.mem_append_left _ hg)

/-- A file that the restore comes to and does not skip is written, whatever its
hash. -/
theorem lookup_of_readable
    (hread : LocalRepository.readManifest platform.root platform.json files
      job.sourceVersionId = .ok manifest)
    (hfails : FailsCheck platform job manifest files before f after data)
    (hmode : job.restoreMode ≠ .skip)
    (hreadable : Readable platform job manifest files before) :
    (stateAfter (runRestore platform job) files).lookup (targetOf job f) =
      some data := by
  obtain ⟨r₁, hbefore⟩ := @exists_run_of_readable platform job manifest
    (emptyReport job) files before hreadable
  have hf := run_restoreFile_of_data (r := r₁) (fun h => hmode h.1)
    hfails.reassembled
  obtain ⟨done, rest, hsplit, hstate⟩ := @stateAfter_restoreFiles platform job
    manifest (reported platform r₁ f data)
    (Files.write (filesRestored platform job manifest files before)
      (targetOf job f) data) after
  rw [stateAfter_runRestore hread, hfails.selected, List.foldlM_append,
    stateAfter_bind_of_run hbefore, List.foldlM_cons, stateAfter_bind_of_run hf,
    hstate, lookup_filesRestored_of_ne, Files.lookup_write, if_pos rfl]
  intro g hg
  refine hfails.alone g (List.mem_append_right _ ?_)
  rw [hsplit]
  exact List.mem_append_left _ hg

/-- A file that is written with data of another hash is reported as failed. -/
theorem mem_failedFiles_of_failsCheck {r : RestoreResult} {files' : Files}
    (hread : LocalRepository.readManifest platform.root platform.json files
      job.sourceVersionId = .ok manifest)
    (hfails : FailsCheck platform job manifest files before f after data)
    (hmode : job.restoreMode ≠ .skip)
    (hrun : (runRestore platform job).run files = .ok r files') :
    f.path ∈ r.failedFiles := by
  rw [run_runRestore hread] at hrun
  exact (mem_failedFiles_of_run hrun f.path).mpr (Or.inr ⟨before, f, after, data,
    hfails.selected, rfl, fun h => hmode h.1, hfails.reassembled, hfails.differs⟩)

/-- What a restore does to the file at the target of a selected file that fails
its check. -/
theorem runRestore_existing
    (platform : Platform) (job : RestoreJob) (manifest : Manifest) (files : Files)
    (hread : LocalRepository.readManifest platform.root platform.json files
      job.sourceVersionId = .ok manifest)
    (before : List FileEntry) (f : FileEntry) (after : List FileEntry)
    (data old : Bytes)
    (hfails : FailsCheck platform job manifest files before f after data)
    (hold : files.lookup (targetOf job f) = some old) :
    (job.restoreMode = .skip →
      (stateAfter (runRestore platform job) files).lookup (targetOf job f) =
        some old) ∧
    (¬ Readable platform job manifest files before →
      (stateAfter (runRestore platform job) files).lookup (targetOf job f) =
        some old) ∧
    (job.restoreMode ≠ .skip → Readable platform job manifest files before →
      (∀ g ∈ before, NamesTarget job g) →
      (stateAfter (runRestore platform job) files).lookup (targetOf job f) =
        some data) ∧
    (job.restoreMode ≠ .skip → ∀ r files',
      (runRestore platform job).run files = .ok r files' →
      f.path ∈ r.failedFiles) := by
  refine ⟨fun hskip => lookup_of_skip hread hskip hold, ?_, ?_, ?_⟩
  · intro hstops
    rw [lookup_of_not_readable hread hfails hstops, hold]
  · intro hmode hreadable _
    exact lookup_of_readable hread hfails hmode hreadable
  · intro hmode r files' hrun
    exact mem_failedFiles_of_failsCheck hread hfails hmode hrun

end Main

section Example

open BackupEngine

/-- A file that changed between its chunks and its hash. -/
def changedFile : FileEntry :=
  { exampleFile "/a/x" 3 with
    chunks := [abcHash]
    fileHash := Sha256.hash abd }

/-- A file whose chunk is lost. -/
def lostFile : FileEntry :=
  { exampleFile "/b/y" 3 with
    chunks := [abdHash]
    fileHash := Sha256.hash abd }

def intoRestore (mode : RestoreMode) : RestoreJob :=
  { abcRestore "/restore" with restoreMode := mode }

/-- The changed file comes after these. -/
def withChanged (earlier : List FileEntry) : List FileEntry :=
  earlier ++ [changedFile]

/-- A machine with other data at the target of the changed file. -/
def occupiedMachine (earlier : List FileEntry) : Files :=
  Files.write (abcStored (withChanged earlier)) "/restore/x" [0x6f, 0x6c, 0x64]

theorem targetOf_intoRestore {mode : RestoreMode} (hmode : mode ≠ .rename)
    (f : FileEntry) :
    targetOf (intoRestore mode) f = Path.join "/restore" (baseName f.path) := by
  cases mode with
  | rename =>
      exact absurd rfl hmode
  | overwrite | skip | newLocation =>
      rfl

theorem targetOf_changedFile {mode : RestoreMode} (hmode : mode ≠ .rename) :
    targetOf (intoRestore mode) changedFile = "/restore/x" := by
  rw [targetOf_intoRestore hmode]
  decide +kernel

theorem lookup_occupiedMachine (earlier : List FileEntry) {mode : RestoreMode}
    (hmode : mode ≠ .rename) :
    (occupiedMachine earlier).lookup
        (targetOf (intoRestore mode) changedFile) =
      some [0x6f, 0x6c, 0x64] := by
  rw [targetOf_changedFile hmode, occupiedMachine, Files.lookup_write, if_pos rfl]

theorem readManifest_occupiedMachine (earlier : List FileEntry)
    (mode : RestoreMode) :
    LocalRepository.readManifest
        (examplePlatform (manifestOf (withChanged earlier))).root
        (examplePlatform (manifestOf (withChanged earlier))).json
        (occupiedMachine earlier) (intoRestore mode).sourceVersionId =
      .ok (manifestOf (withChanged earlier)) := by
  have hne : LocalRepository.manifestPath "/repo" (exampleExecution 4).versionId ≠
      "/restore/x" := by
    decide +kernel
  have hjson : (examplePlatform (manifestOf (withChanged earlier))).json.fromSlice
      (Json.manifestBytes (manifestOf (withChanged earlier))) =
        .ok (manifestOf (withChanged earlier)) := by
    simp only [examplePlatform, exampleJson, if_pos]
  refine LocalRepository.readManifest_eq_ok ?_ hjson
  simp only [occupiedMachine, versionStored, examplePlatform, intoRestore,
    abcRestore, Files.lookup_write, if_neg hne, if_pos]

/-- The chunks of the machine are those of its version. -/
theorem lookup_chunk_occupiedMachine (earlier : List FileEntry)
    {hash : ChunkHash} (hne : LocalRepository.chunkPath "/repo" hash ≠ "/restore/x") :
    (occupiedMachine earlier).lookup (LocalRepository.chunkPath "/repo" hash) =
      (abcStored (withChanged earlier)).lookup
        (LocalRepository.chunkPath "/repo" hash) := by
  rw [occupiedMachine, Files.lookup_write, if_neg hne]

theorem failsCheck_changedFile {mode : RestoreMode} (hmode : mode ≠ .rename)
    {earlier : List FileEntry} (hearlier : ∀ g ∈ earlier, g.path = "/b/y") :
    FailsCheck (examplePlatform (manifestOf (withChanged earlier)))
      (intoRestore mode) (manifestOf (withChanged earlier))
      (occupiedMachine earlier) earlier changedFile [] abc where
  selected := rfl
  named := Or.inr (by decide +kernel)
  alone := by
    intro g hg
    rw [List.append_nil] at hg
    rw [targetOf_changedFile hmode, targetOf_intoRestore hmode, hearlier g hg]
    decide +kernel
  reassembled := by
    have hkept : ∀ g ∈ earlier, targetOf (intoRestore mode) g ≠
        LocalRepository.chunkPath "/repo" abcHash := by
      intro g hg
      rw [targetOf_intoRestore hmode, hearlier g hg]
      decide +kernel
    refine readFileData_of_stored ?_ (decryptChunk_abc _) (decompress_abc _)
    rw [lookup_filesRestored_of_ne hkept,
      lookup_chunk_occupiedMachine _ (by decide +kernel),
      lookup_chunk_versionStored]
  differs := by
    have hne : Sha256.hash abc ≠ Sha256.hash abd := by
      decide +kernel
    exact hne

/-- A restore does not come further than to the lost file. -/
theorem not_readable_lostFile :
    ¬ Readable (examplePlatform (manifestOf (withChanged [lostFile])))
      (intoRestore .overwrite) (manifestOf (withChanged [lostFile]))
      (occupiedMachine [lostFile]) [lostFile] := by
  have hnone : (occupiedMachine [lostFile]).lookup
      (LocalRepository.chunkPath "/repo" abdHash) = none := by
    have hmanifest : LocalRepository.chunkPath "/repo" abdHash ≠
        LocalRepository.manifestPath "/repo" (exampleExecution 4).versionId :=
      (LocalRepository.manifestPath_ne_chunkPath _ _).symm
    have hchunk : LocalRepository.chunkPath "/repo" abdHash ≠
        LocalRepository.chunkPath "/repo" abcHash :=
      LocalRepository.chunkPath_injective.ne (by decide)
    rw [lookup_chunk_occupiedMachine _ (by decide +kernel)]
    simp [versionStored, hmanifest, hchunk]
  rintro ⟨⟨hskip, -⟩ | ⟨data, hdata⟩, -⟩
  · cases hskip
  · cases hfetch : fetchChunk
        (examplePlatform (manifestOf (withChanged [lostFile])))
        (occupiedMachine [lostFile]) (chunkLocation abdHash) with
    | error e =>
        change readFileData _ _ _ [abdHash] = _ at hdata
        rw [readFileData, List.foldlM_cons, locateChunk_of_not_recorded rfl,
          hfetch] at hdata
        cases hdata
    | ok plain =>
        obtain ⟨bytes, hbytes⟩ := lookup_of_fetchChunk hfetch
        cases hnone.symm.trans hbytes

/-- A file that can be read does not stop the restore. -/
theorem readable_abcFile :
    Readable (examplePlatform (manifestOf (withChanged [abcFile "/b/y"])))
      (intoRestore .overwrite) (manifestOf (withChanged [abcFile "/b/y"]))
      (occupiedMachine [abcFile "/b/y"]) [abcFile "/b/y"] := by
  refine ⟨Or.inr ⟨abc, ?_⟩, trivial⟩
  refine readFileData_of_stored ?_ (decryptChunk_abc _) (decompress_abc _)
  rw [lookup_chunk_occupiedMachine _ (by decide +kernel),
    lookup_chunk_versionStored]

/-- The restore of the two files returns. -/
theorem exists_run_overwriting :
    ∃ r files', (runRestore
      (examplePlatform (manifestOf (withChanged [abcFile "/b/y"])))
      (intoRestore .overwrite)).run (occupiedMachine [abcFile "/b/y"]) =
        .ok r files' := by
  have hfails := @failsCheck_changedFile .overwrite (by decide)
    [abcFile "/b/y"] (by simp [abcFile, exampleFile])
  obtain ⟨r, hrun⟩ := exists_run_of_readable readable_abcFile
    (r := emptyReport (intoRestore .overwrite))
  have hwritten : ∀ files f, ¬ Skipped (intoRestore .overwrite) files f := by
    rintro files f ⟨hskip, _⟩
    cases hskip
  have hchanged := run_restoreFile_of_data (r := r) (hwritten _ _)
    hfails.reassembled
  rw [run_runRestore (readManifest_occupiedMachine _ _), hfails.selected,
    List.foldlM_append, run_bind_of_ok hrun, List.foldlM_cons,
    run_bind_of_ok hchanged]
  exact ⟨_, _, rfl⟩

/-- The old data stays where existing files are skipped, and where an earlier
file is lost; else the data of the changed file replaces it, and the report
names the file. -/
theorem runRestore_existing_changedFile :
    (stateAfter (runRestore (examplePlatform (manifestOf (withChanged [])))
      (intoRestore .skip)) (occupiedMachine [])).lookup
        (targetOf (intoRestore .skip) changedFile) = some [0x6f, 0x6c, 0x64] ∧
    (stateAfter (runRestore
      (examplePlatform (manifestOf (withChanged [lostFile])))
      (intoRestore .overwrite)) (occupiedMachine [lostFile])).lookup
        (targetOf (intoRestore .overwrite) changedFile) =
          some [0x6f, 0x6c, 0x64] ∧
    (stateAfter (runRestore
      (examplePlatform (manifestOf (withChanged [abcFile "/b/y"])))
      (intoRestore .overwrite)) (occupiedMachine [abcFile "/b/y"])).lookup
        (targetOf (intoRestore .overwrite) changedFile) = some abc ∧
    ∃ r files', (runRestore
      (examplePlatform (manifestOf (withChanged [abcFile "/b/y"])))
      (intoRestore .overwrite)).run (occupiedMachine [abcFile "/b/y"]) =
        .ok r files' ∧ changedFile.path ∈ r.failedFiles := by
  have hskip := runRestore_existing _ _ _ _
    (readManifest_occupiedMachine [] .skip) [] changedFile [] abc _
    (failsCheck_changedFile (by decide) (by simp))
    (lookup_occupiedMachine [] (by decide))
  have hlost := runRestore_existing _ _ _ _
    (readManifest_occupiedMachine [lostFile] .overwrite) [lostFile] changedFile
    [] abc _ (failsCheck_changedFile (by decide) (by simp [lostFile, exampleFile]))
    (lookup_occupiedMachine [lostFile] (by decide))
  have hread := runRestore_existing _ _ _ _
    (readManifest_occupiedMachine [abcFile "/b/y"] .overwrite) [abcFile "/b/y"]
    changedFile [] abc _
    (failsCheck_changedFile (by decide) (by simp [abcFile, exampleFile]))
    (lookup_occupiedMachine [abcFile "/b/y"] (by decide))
  obtain ⟨r, files', hrun⟩ := exists_run_overwriting
  have hnames : ∀ g ∈ [abcFile "/b/y"], NamesTarget (intoRestore .overwrite) g := by
    intro g hg
    rw [List.mem_singleton.mp hg]
    exact Or.inr (by decide +kernel)
  exact ⟨hskip.1 rfl, hlost.2.1 not_readable_lostFile,
    hread.2.2.1 (by decide) readable_abcFile hnames,
    r, files', hrun, hread.2.2.2 (by decide) r files' hrun⟩

/-- The data that was there is lost. -/
theorem not_keepsExisting_changedFile :
    LocalRepository.readManifest
        (examplePlatform (manifestOf (withChanged []))).root
        (examplePlatform (manifestOf (withChanged []))).json (occupiedMachine [])
        (intoRestore .overwrite).sourceVersionId =
          .ok (manifestOf (withChanged [])) ∧
      ¬ KeepsExisting (examplePlatform (manifestOf (withChanged [])))
        (intoRestore .overwrite) (manifestOf (withChanged []))
        (occupiedMachine []) := by
  have hfails := @failsCheck_changedFile .overwrite (by decide) [] (by simp)
  have hread := readManifest_occupiedMachine [] .overwrite
  refine ⟨hread, fun hkeeps => ?_⟩
  have hold := hkeeps [] changedFile [] abc _ hfails
    (lookup_occupiedMachine [] (by decide))
  rw [lookup_of_readable hread hfails (by decide) trivial] at hold
  exact absurd hold (by decide)

end Example

end RestoreExisting
end Agent
end HyperBackup
