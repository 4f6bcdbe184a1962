import HyperBackup.Agent.BackupRestore
import HyperBackup.Agent.EngineCalls

/-!
# The reference counts of the dedup index

A backup adds its references to the counts of the index, and then writes its
manifest.  The repository may answer every call with an error.  If it does so
when a manifest is to be written, the references stay counted although no
manifest has them.

Every count is the number of references in the manifests that were written and
in those that were lost, whatever the runs were and however they ended.  So the
counts are right exactly if no manifest with references was lost.
-/

namespace HyperBackup
namespace Agent
namespace RefCounts

open Lib CallTree BackupEngine

/-- The methods of a repository that a backup calls.  They answer as they like,
and an error may come with any change. -/
structure CalledRepository (σ : Type) where
  chunkExists : ChunkHash → σ → Except RepoError Bool × σ
  findChunk : ChunkHash → σ → Except RepoError ChunkLocation × σ
  writeChunk : ChunkHash → EncryptedChunk → σ → Except RepoError ChunkLocation × σ
  readManifest : VersionId → σ → Except RepoError Manifest × σ
  writeManifest : VersionId → Manifest → σ → Except RepoError Unit × σ

/-- The objects of an engine. -/
structure Objects (σ : Type) where
  repo : σ
  index : LocalDedupIndex
  journal : Option Journal
  chunkIdsDrawn : Nat

/-- The objects, and all calls so far with their answers. -/
abbrev History (σ : Type) : Type :=
  Objects σ × List ((c : RunCall) × c.Answer)

/-- A call of the engine. -/
inductive BackupCall
  | runBackup (source : Source) (run : Execution) (job : BackupJob)
  | runIncrementalBackup (source : Source) (run : Execution) (job : BackupJob)
      (baselineVersionId : VersionId)

section Definitions

variable {σ : Type} (engine : BackupEngine) (repository : CalledRepository σ)

def serve : (c : RunCall) → Objects σ → c.Answer × Objects σ
  | .chunkExists hash, s =>
      let r := repository.chunkExists hash s.repo
      (r.1, { s with repo := r.2 })
  | .findChunk hash, s =>
      let r := repository.findChunk hash s.repo
      (r.1, { s with repo := r.2 })
  | .writeChunk hash encrypted, s =>
      let r := repository.writeChunk hash encrypted s.repo
      (r.1, { s with repo := r.2 })
  | .readManifest versionId, s =>
      let r := repository.readManifest versionId s.repo
      (r.1, { s with repo := r.2 })
  | .writeManifest versionId manifest, s =>
      let r := repository.writeManifest versionId manifest s.repo
      (r.1, { s with repo := r.2 })
  | .batchLookup hash, s => (s.index.lookup hash, s)
  | .registerNew hash location, s =>
      ((), { s with index := s.index.registerNew hash location })
  | .addReferences references, s =>
      ((), { s with index := s.index.addReferences references })
  | .appendJournal entry, s =>
      ((), { s with
        journal := s.journal.map fun journal =>
          journal.append engine.rotationSize (engine.recordLength entry) entry })
  | .drawChunkId, s =>
      (engine.newChunkId s.chunkIdsDrawn,
        { s with chunkIdsDrawn := s.chunkIdsDrawn + 1 })

def BackupCall.program : BackupCall → RunM BackupResult
  | .runBackup source run job => engine.runBackupCalls source run job
  | .runIncrementalBackup source run job baselineVersionId =>
      engine.runIncrementalBackupCalls source run job baselineVersionId

/-- The history after a backup, however it ended. -/
def afterCall (g : History σ) (backup : BackupCall) : History σ :=
  (exec (logged (serve engine repository)) (backup.program engine) g).2

/-- An engine that has just been made, with an empty index. -/
def start (repo : σ) (journal : Option Journal) : History σ :=
  ({ repo := repo, index := ∅, journal := journal, chunkIdsDrawn := 0 }, [])

def afterCalls (g : History σ) (backups : List BackupCall) : History σ :=
  backups.foldl (afterCall engine repository) g

end Definitions

section Statements

/-- The manifest that a call commits. -/
def commits : (c : RunCall) → c.Answer → List Manifest
  | .writeManifest _ manifest, .ok () => [manifest]
  | _, _ => []

/-- The manifest that a call was to write and did not. -/
def loses : (c : RunCall) → c.Answer → List Manifest
  | .writeManifest _ manifest, .error _ => [manifest]
  | _, _ => []

/-- The manifests committed so far. -/
def committed (log : List ((c : RunCall) × c.Answer)) : List Manifest :=
  log.flatMap fun e => commits e.1 e.2

/-- The manifests whose writing failed. -/
def lost (log : List ((c : RunCall) × c.Answer)) : List Manifest :=
  log.flatMap fun e => loses e.1 e.2

/-- The number of references to a chunk in several manifests. -/
def refCount (manifests : List Manifest) (h : ChunkHash) : Nat :=
  (manifests.flatMap Manifest.chunkRefs).countP fun ref => ref.hash = h

/-- Every baseline that is read was committed before. -/
def BaselinesMade (log : List ((c : RunCall) × c.Answer)) : Prop :=
  ∀ before versionId manifest after,
    log = before ++ ⟨.readManifest versionId, .ok manifest⟩ :: after →
      manifest ∈ committed before

variable {σ : Type}

/-- The count of every registered chunk is the number of references to it in
the committed manifests. -/
def Counted (g : History σ) : Prop :=
  ∀ h entry, g.1.index.lookup h = some entry →
    entry.referenceCount = refCount (committed g.2) h

/-- No write of a manifest with references failed. -/
def NoneLost (g : History σ) : Prop :=
  ∀ manifest ∈ lost g.2, manifest.chunkRefs = []

end Statements

section Counts

theorem refCount_append (ms ms' : List Manifest) (h : ChunkHash) :
    refCount (ms ++ ms') h = refCount ms h + refCount ms' h := by
  rw [refCount, List.flatMap_append, List.countP_append]
  rfl

theorem refCount_singleton (m : Manifest) (h : ChunkHash) :
    refCount [m] h = m.chunkRefs.countP fun ref => ref.hash = h := by
  rw [refCount, List.flatMap_singleton]

theorem refCount_eq_zero_of_forall {ms : List Manifest} {h : ChunkHash}
    (hnone : ∀ m ∈ ms, ∀ ref ∈ m.chunkRefs, ref.hash ≠ h) : refCount ms h = 0 := by
  rw [refCount, List.countP_eq_zero]
  intro ref href
  obtain ⟨m, hm, hmem⟩ := List.mem_flatMap.mp href
  simpa using hnone m hm ref hmem

/-- Counting references adds their number to the count of a chunk. -/
theorem lookup_addReferences (references : List ChunkReference) (h : ChunkHash) :
    ∀ index : LocalDedupIndex,
      (index.addReferences references).lookup h =
        (index.lookup h).map fun entry =>
          { entry with
            referenceCount := entry.referenceCount +
              references.countP fun ref => ref.hash = h } := by
  unfold LocalDedupIndex.addReferences
  induction references with
  | nil =>
      intro index
      simp
  | cons ref references ih =>
      intro index
      rw [List.foldl_cons, ih, HashMap.lookup_modify]
      by_cases hsame : h = ref.hash
      · subst hsame
        rw [if_pos rfl, Option.map_map]
        refine congrArg (fun f => Option.map f _) (funext fun entry => ?_)
        simp [Nat.add_assoc, Nat.add_comm]
      · have hne : ¬ ref.hash = h := fun heq => hsame heq.symm
        simp [hsame, hne]

end Counts

section Invariant

variable {σ : Type} {engine : BackupEngine} {repository : CalledRepository σ}

def Known (g : History σ) (h : ChunkHash) : Prop :=
  (g.1.index.lookup h).isSome

/-- Every count is the number of references in the manifests that were
committed or lost and in those that are still to be written; all their chunks
are known. -/
structure Accounted (pending : List ChunkReference) (g : History σ) : Prop where
  counts : ∀ h entry, g.1.index.lookup h = some entry →
    entry.referenceCount = refCount (committed g.2 ++ lost g.2) h +
      pending.countP fun ref => ref.hash = h
  refs : ∀ m ∈ committed g.2 ++ lost g.2, ∀ ref ∈ m.chunkRefs, Known g ref.hash
  files : ∀ m ∈ committed g.2, ∀ f ∈ m.files, ∀ h ∈ f.chunks, Known g h

/-- The chunks of what was recorded so far. -/
def recorded (p : Progress) : List ChunkHash :=
  p.chunkRefs.map ChunkReference.hash ++ p.files.flatMap FileEntry.chunks

/-- Between two calls of a backup: the counts are in order, and certain chunks
are known, among them those that were recorded. -/
structure Standing (known : List ChunkHash) (p : Progress) (g : History σ) :
    Prop where
  accounted : Accounted [] g
  known : ∀ h ∈ known ++ recorded p, Known g h

/-- How a call is answered, if the baselines are right. -/
def Answers (engine : BackupEngine) (repository : CalledRepository σ)
    (g : History σ) (c : RunCall) (r : c.Answer) (g' : History σ) : Prop :=
  r = (logged (serve engine repository) c g).1 ∧
    g' = (logged (serve engine repository) c g).2 ∧ BaselinesMade g'.2

abbrev Does {α : Type} (engine : BackupEngine) (repository : CalledRepository σ)
    (p : RunM α) (g : History σ) (Q : α → History σ → Prop) : Prop :=
  p.Meets (fun _ _ => True) (Answers engine repository) g Q
    (fun _ g' => Accounted [] g')

/-- A call that leaves the index as it is. -/
def KeepsIndex : RunCall → Prop
  | .registerNew _ _ => False
  | .addReferences _ => False
  | _ => True

/-- A call that writes no manifest. -/
def WritesNone : RunCall → Prop
  | .writeManifest _ _ => False
  | _ => True

theorem committed_concat (log : List ((c : RunCall) × c.Answer)) (c : RunCall)
    (r : c.Answer) : committed (log ++ [⟨c, r⟩]) = committed log ++ commits c r := by
  rw [committed, List.flatMap_append, List.flatMap_singleton]
  rfl

theorem lost_concat (log : List ((c : RunCall) × c.Answer)) (c : RunCall)
    (r : c.Answer) : lost (log ++ [⟨c, r⟩]) = lost log ++ loses c r := by
  rw [lost, List.flatMap_append, List.flatMap_singleton]
  rfl

theorem index_logged (engine : BackupEngine) (repository : CalledRepository σ)
    {c : RunCall} (hc : KeepsIndex c) (g : History σ) :
    (logged (serve engine repository) c g).2.1.index = g.1.index := by
  cases c with
  | registerNew hash location =>
      exact hc.elim
  | addReferences references =>
      exact hc.elim
  | _ =>
      rfl

theorem manifests_logged (engine : BackupEngine)
    (repository : CalledRepository σ) {c : RunCall} (hc : WritesNone c)
    (g : History σ) :
    committed (logged (serve engine repository) c g).2.2 = committed g.2 ∧
      lost (logged (serve engine repository) c g).2.2 = lost g.2 := by
  have hnone : ∀ r : c.Answer, commits c r = [] ∧ loses c r = [] := by
    intro r
    cases c with
    | writeManifest versionId manifest =>
        exact hc.elim
    | _ =>
        exact ⟨rfl, rfl⟩
  have hlog : (logged (serve engine repository) c g).2.2 =
      g.2 ++ [⟨c, (logged (serve engine repository) c g).1⟩] :=
    rfl
  rw [hlog, committed_concat, lost_concat, (hnone _).1, (hnone _).2,
    List.append_nil, List.append_nil]
  exact ⟨rfl, rfl⟩

variable {g g' : History σ} {known : List ChunkHash} {p : Progress}

theorem Accounted.of_eq {pending : List ChunkReference}
    (h : Accounted pending g) (hindex : g'.1.index = g.1.index)
    (hcommitted : committed g'.2 = committed g.2) (hlost : lost g'.2 = lost g.2) :
    Accounted pending g' where
  counts := by
    rw [hindex, hcommitted, hlost]
    exact h.counts
  refs := by
    rw [hcommitted, hlost]
    simp only [Known, hindex]
    exact h.refs
  files := by
    rw [hcommitted]
    simp only [Known, hindex]
    exact h.files

theorem Standing.answered (h : Standing known p g) {c : RunCall} {r : c.Answer}
    (hanswer : Answers engine repository g c r g') (hindex : KeepsIndex c)
    (hnone : WritesNone c) : Standing known p g' := by
  obtain ⟨-, rfl, -⟩ := hanswer
  have hkept : (logged (serve engine repository) c g).2.1.index = g.1.index :=
    index_logged engine repository hindex g
  obtain ⟨hcommitted, hlost⟩ :=
    manifests_logged engine repository hnone g
  refine ⟨h.accounted.of_eq hkept hcommitted hlost, fun hash hhash => ?_⟩
  rw [Known, hkept]
  exact h.known hash hhash

theorem Standing.mono (h : Standing known p g) {known' : List ChunkHash}
    {p' : Progress} (hsub : known' ++ recorded p' ⊆ known ++ recorded p) :
    Standing known' p' g where
  accounted := h.accounted
  known hash hhash := h.known hash (hsub hhash)

/-- A chunk that is not known may be registered: no manifest refers to it. -/
theorem Standing.registerNew (h : Standing known p g) {hash : ChunkHash}
    {location : ChunkLocation} {r : Unit} (hnew : ¬ Known g hash)
    (hanswer : Answers engine repository g (.registerNew hash location) r g') :
    Standing (hash :: known) p g' := by
  obtain ⟨hcommitted, hlost⟩ := manifests_logged engine repository
    (c := .registerNew hash location) trivial g
  have hindex : (logged (serve engine repository) (.registerNew hash location)
      g).2.1.index = g.1.index.registerNew hash location := rfl
  obtain ⟨-, rfl, -⟩ := hanswer
  have hknown : ∀ other, Known (logged (serve engine repository)
      (.registerNew hash location) g).2 other ↔ other = hash ∨ Known g other := by
    intro other
    rw [Known, hindex, LocalDedupIndex.lookup_registerNew]
    split
    · next hsame =>
        simp [hsame]
    · next hsame =>
        simp [hsame, Known]
  refine ⟨⟨fun other entry hentry => ?_, fun m hm ref href => ?_,
    fun m hm f hf other hother => ?_⟩, fun other hother => ?_⟩
  · rw [hindex, LocalDedupIndex.lookup_registerNew] at hentry
    rw [hcommitted, hlost]
    split at hentry
    · next hsame =>
        cases hentry
        rw [refCount_eq_zero_of_forall]
        · rfl
        · rintro m hm ref href rfl
          exact hnew (hsame ▸ h.accounted.refs m hm ref href)
    · exact h.accounted.counts other entry hentry
  · rw [hcommitted, hlost] at hm
    exact (hknown _).mpr (Or.inr (h.accounted.refs m hm ref href))
  · rw [hcommitted] at hm
    exact (hknown _).mpr (Or.inr (h.accounted.files m hm f hf other hother))
  · rcases List.mem_cons.mp hother with rfl | hold
    · exact (hknown _).mpr (Or.inl rfl)
    · exact (hknown _).mpr (Or.inr (h.known other hold))

theorem not_known_of_answered {hash : ChunkHash} {c : RunCall} {r : c.Answer}
    (hanswer : Answers engine repository g c r g') (hindex : KeepsIndex c)
    (h : ¬ Known g hash) : ¬ Known g' hash := by
  obtain ⟨-, rfl, -⟩ := hanswer
  have hkept : (logged (serve engine repository) c g).2.1.index = g.1.index :=
    index_logged engine repository hindex g
  rw [Known, hkept]
  exact h

/-- A list of pending references is counted for chunks that are known. -/
theorem Standing.addReferences (h : Standing known p g)
    {references : List ChunkReference} {r : Unit}
    (hanswer : Answers engine repository g (.addReferences references) r g') :
    Accounted references g' ∧ ∀ other, Known g other → Known g' other := by
  obtain ⟨hcommitted, hlost⟩ := manifests_logged engine repository
    (c := .addReferences references) trivial g
  have hindex : (logged (serve engine repository) (.addReferences references)
      g).2.1.index = g.1.index.addReferences references := rfl
  obtain ⟨-, rfl, -⟩ := hanswer
  have hknown : ∀ other, Known g other → Known (logged (serve engine repository)
      (.addReferences references) g).2 other := by
    intro other hother
    rw [Known, hindex, lookup_addReferences, Option.isSome_map]
    exact hother
  refine ⟨⟨fun other entry hentry => ?_, fun m hm ref href => ?_,
    fun m hm f hf other hother => ?_⟩, hknown⟩
  · rw [hindex, lookup_addReferences] at hentry
    obtain ⟨old, hold, rfl⟩ := Option.map_eq_some_iff.mp hentry
    rw [hcommitted, hlost, h.accounted.counts other old hold]
    rfl
  · rw [hcommitted, hlost] at hm
    exact hknown _ (h.accounted.refs m hm ref href)
  · rw [hcommitted] at hm
    exact hknown _ (h.accounted.files m hm f hf other hother)

/-- The manifest of a call is committed or lost. -/
theorem manifests_writeManifest {v : VersionId} {m : Manifest}
    {r : Except RepoError Unit}
    (hanswer : Answers engine repository g (.writeManifest v m) r g') :
    (committed g'.2 = committed g.2 ++ [m] ∧ lost g'.2 = lost g.2) ∨
      (committed g'.2 = committed g.2 ∧ lost g'.2 = lost g.2 ++ [m]) := by
  obtain ⟨-, rfl, -⟩ := hanswer
  have hlog : (logged (serve engine repository) (.writeManifest v m) g).2.2 =
      g.2 ++ [⟨.writeManifest v m, (repository.writeManifest v m g.1.repo).1⟩] :=
    rfl
  rw [hlog, committed_concat, lost_concat]
  cases (repository.writeManifest v m g.1.repo).1 with
  | ok u =>
      exact Or.inl ⟨rfl, List.append_nil _⟩
  | error e =>
      exact Or.inr ⟨List.append_nil _, rfl⟩

/-- When the manifest is written or lost, its references are no longer
pending. -/
theorem Accounted.writeManifest {v : VersionId} {m : Manifest}
    (h : Accounted m.chunkRefs g) (hrefs : ∀ ref ∈ m.chunkRefs, Known g ref.hash)
    (hfiles : ∀ f ∈ m.files, ∀ hash ∈ f.chunks, Known g hash)
    {r : Except RepoError Unit}
    (hanswer : Answers engine repository g (.writeManifest v m) r g') :
    Accounted [] g' := by
  have hindex : g'.1.index = g.1.index := by
    obtain ⟨-, rfl, -⟩ := hanswer
    rfl
  have hknown : ∀ hash, Known g hash → Known g' hash := by
    intro hash hhash
    rw [Known, hindex]
    exact hhash
  have hcounts : ∀ hash, refCount (committed g'.2 ++ lost g'.2) hash =
      refCount (committed g.2 ++ lost g.2) hash + refCount [m] hash := by
    intro hash
    rcases manifests_writeManifest hanswer with ⟨hc, hl⟩ | ⟨hc, hl⟩
    all_goals
      rw [hc, hl]
      simp only [refCount_append]
      omega
  have hmem : ∀ m' ∈ committed g'.2 ++ lost g'.2,
      m' ∈ committed g.2 ++ lost g.2 ∨ m' = m := by
    intro m' hm'
    rcases manifests_writeManifest hanswer with ⟨hc, hl⟩ | ⟨hc, hl⟩
    all_goals
      rw [hc, hl] at hm'
      simp only [List.mem_append, List.mem_singleton] at hm' ⊢
      tauto
  have hcommitted : ∀ m' ∈ committed g'.2, m' ∈ committed g.2 ∨ m' = m := by
    intro m' hm'
    rcases manifests_writeManifest hanswer with ⟨hc, -⟩ | ⟨hc, -⟩
    · rw [hc, List.mem_append, List.mem_singleton] at hm'
      exact hm'
    · rw [hc] at hm'
      exact Or.inl hm'
  refine ⟨fun hash entry hentry => ?_, fun m' hm' ref href => hknown _ ?_,
    fun m' hm' f hf hash hhash => hknown _ ?_⟩
  · rw [hindex] at hentry
    rw [h.counts hash entry hentry, hcounts, refCount_singleton, List.countP_nil,
      Nat.add_zero]
  · rcases hmem m' hm' with hold | rfl
    · exact h.refs m' hold ref href
    · exact hrefs ref href
  · rcases hcommitted m' hm' with hold | rfl
    · exact h.files m' hold f hf hash hhash
    · exact hfiles f hf hash hhash

end Invariant

section Programs

variable {σ : Type} {engine : BackupEngine} {repository : CalledRepository σ}
variable {g : History σ} {known : List ChunkHash} {p : Progress}

theorem does_writeNewChunkCalls (hash : ChunkHash) (data : Bytes)
    (h : Standing known p g) (hnew : ¬ Known g hash) :
    Does engine repository (engine.writeNewChunkCalls hash data) g
      (fun _ g' => Standing (hash :: known) p g') := by
  refine meets_ofExcept (fun compressed _ => ?_) (fun _ _ => h.accounted)
  refine meets_perform trivial fun chunkId g₁ hdrawn => ?_
  have h₁ := h.answered hdrawn trivial trivial
  have hnew₁ := not_known_of_answered hdrawn trivial hnew
  refine meets_ofExcept (fun encrypted _ => ?_) (fun _ _ => h₁.accounted)
  refine meets_bind (P := fun _ g' => Standing known p g' ∧ ¬ Known g' hash) ?_ ?_
  · unfold acquireMemoryCalls
    split
    · exact ⟨h₁, hnew₁⟩
    · exact h₁.accounted
  · rintro _ g₂ ⟨h₂, hnew₂⟩
    refine meets_perform trivial fun r g₃ hwritten => ?_
    have h₃ := h₂.answered hwritten trivial trivial
    have hnew₃ := not_known_of_answered hwritten trivial hnew₂
    refine meets_ofExcept (fun location _ => ?_) (fun _ _ => h₃.accounted)
    exact meets_perform trivial fun u g₄ hregistered =>
      h₃.registerNew hnew₃ hregistered

theorem does_storeChunkCalls (hash : ChunkHash) (data : Bytes)
    (h : Standing known p g) :
    Does engine repository (engine.storeChunkCalls hash data) g
      (fun _ g' => Standing (hash :: known) p g') := by
  refine meets_perform trivial fun r g₁ hlooked => ?_
  have h₁ := h.answered hlooked trivial trivial
  have hr : r = g.1.index.lookup hash := hlooked.1
  cases r with
  | some entry =>
      refine ⟨h₁.accounted, fun other hother => ?_⟩
      rcases List.mem_cons.mp hother with rfl | hold
      · obtain ⟨-, rfl, -⟩ := hlooked
        change (g.1.index.lookup other).isSome
        rw [← hr]
        rfl
      · exact h₁.known other hold
  | none =>
      have hnew : ¬ Known g hash := by
        rw [Known, ← hr]
        exact Bool.false_ne_true
      have hnew₁ := not_known_of_answered hlooked trivial hnew
      refine meets_perform trivial fun present g₂ hasked => ?_
      have h₂ := h₁.answered hasked trivial trivial
      have hnew₂ := not_known_of_answered hasked trivial hnew₁
      refine meets_ofExcept (fun there _ => ?_) (fun _ _ => h₂.accounted)
      split
      · refine meets_perform trivial fun found g₃ hfound => ?_
        have h₃ := h₂.answered hfound trivial trivial
        have hnew₃ := not_known_of_answered hfound trivial hnew₂
        refine meets_ofExcept (fun location _ => ?_) (fun _ _ => h₃.accounted)
        exact meets_perform trivial fun u g₄ hregistered =>
          h₃.registerNew hnew₃ hregistered
      · exact does_writeNewChunkCalls hash data h₂ hnew₂

/-- Storing a chunk records a reference to it. -/
theorem does_processChunkCalls (versionId : VersionId) (path : String)
    (chunk : RawChunkData) (h : Standing known p g) :
    Does engine repository (engine.processChunkCalls versionId path p chunk) g
      (fun p' g' => Standing (engine.blake3 chunk.data :: known) p' g') := by
  refine meets_bind (does_storeChunkCalls (engine.blake3 chunk.data) chunk.data h) ?_
  rintro ⟨location, stored⟩ g₁ h₁
  refine h₁.mono fun hash hhash => ?_
  simp only [recorded, List.map_append, List.mem_append, List.mem_cons,
    List.map_cons, List.map_nil, List.not_mem_nil, or_false] at hhash ⊢
  tauto

/-- All chunks of a list are stored and known afterwards. -/
theorem does_processChunks (versionId : VersionId) (path : String)
    (chunks : List RawChunkData) (h : Standing known p g) :
    Does engine repository
      (chunks.foldlM (engine.processChunkCalls versionId path) p) g
      (fun p' g' => Standing
        (known ++ chunks.map fun chunk => engine.blake3 chunk.data) p' g') := by
  refine meets_foldlM_prefix (fun (done : List RawChunkData) p' g' => Standing
    (known ++ done.map fun chunk => engine.blake3 chunk.data) p' g') ?_ ?_
  · rw [List.map_nil, List.append_nil]
    exact h
  · intro done p' g' chunk _ h'
    refine meets_mono (does_processChunkCalls versionId path chunk h') ?_
    intro p'' g'' h''
    refine h''.mono fun hash hhash => ?_
    simp only [List.map_append, List.mem_append, List.mem_cons, List.map_cons,
      List.map_nil, List.not_mem_nil, or_false] at hhash ⊢
    tauto

theorem does_processFileCalls (versionId : VersionId) (job : BackupJob)
    (entry : FileEntry) (content : Bytes) (h : Standing known p g) :
    Does engine repository
      (engine.processFileCalls versionId job p entry content) g
      (fun p' g' => Standing known p' g') := by
  refine meets_ofExcept (fun chunks _ => ?_) (fun _ _ => h.accounted)
  refine meets_bind (does_processChunks versionId entry.path chunks h) ?_
  intro p' g' h'
  refine h'.mono fun hash hhash => ?_
  simp only [recorded, completedEntry, List.flatMap_append, List.flatMap_singleton,
    List.mem_append] at hhash ⊢
  tauto

theorem chunkRefs_foldl_reuseChunk (versionId : VersionId) (prevManifest : Manifest)
    (path : String) (diff : ChunkDiff) (refs : List (ChunkHash × Nat)) :
    ∀ p : Progress,
      (refs.foldl (reuseChunk versionId prevManifest path diff) p).chunkRefs.map
          ChunkReference.hash =
        p.chunkRefs.map ChunkReference.hash ++ refs.map Prod.fst := by
  induction refs with
  | nil =>
      intro p
      simp
  | cons ref refs ih =>
      intro p
      rw [List.foldl_cons, ih]
      simp [reuseChunk]

theorem take_alignedLength (hashes baselineChunks : List ChunkHash) :
    hashes.take (ChunkDiff.alignedLength hashes baselineChunks) =
      baselineChunks.take (ChunkDiff.alignedLength hashes baselineChunks) := by
  induction hashes generalizing baselineChunks with
  | nil =>
      rfl
  | cons h hashes ih =>
      cases baselineChunks with
      | nil =>
          rfl
      | cons b baselineChunks =>
          rw [ChunkDiff.alignedLength]
          split
          · next hsame =>
              rw [List.take_succ_cons, List.take_succ_cons, ih, hsame]
          · rfl

/-- Only chunks of the baseline are reused. -/
theorem reusedChunkRefs_subset {content : Bytes} {baselineChunks : List ChunkHash}
    {strategy : ChunkStrategy} {diff : ChunkDiff}
    (h : ChunkDiff.compute engine content baselineChunks strategy = .ok diff) :
    diff.reusedChunkRefs ⊆ baselineChunks := by
  unfold ChunkDiff.compute at h
  cases hchunks : engine.chunker strategy content with
  | error e =>
      rw [hchunks] at h
      cases h
  | ok chunks =>
      rw [hchunks] at h
      cases h
      rw [ChunkDiff.ofChunks_eq]
      simp only
      rw [List.map_take, take_alignedLength]
      exact List.take_subset _ _

theorem does_processModifiedCalls (versionId : VersionId) (job : BackupJob)
    (prevManifest : Manifest) {baselineChunks : List ChunkHash} (entry : FileEntry)
    (content : Bytes) (h : Standing known p g) (hbase : baselineChunks ⊆ known) :
    Does engine repository (engine.processModifiedCalls versionId job prevManifest
        baselineChunks p entry content) g
      (fun p' g' => Standing known p' g') := by
  refine meets_ofExcept (fun diff hdiff => ?_) (fun _ _ => h.accounted)
  refine meets_bind (does_processChunks versionId entry.path diff.newChunks h) ?_
  intro p' g' h'
  have hreused : ∀ hash ∈ diff.reusedChunkRefs, hash ∈ known :=
    fun hash hhash => hbase (reusedChunkRefs_subset hdiff hhash)
  refine h'.mono fun hash hhash => ?_
  simp only [recorded, chunkRefs_foldl_reuseChunk, files_foldl_reuseChunk,
    modifiedEntry, List.flatMap_append, List.flatMap_singleton, List.mem_append,
    List.zipIdx_map_fst] at hhash ⊢
  have := hreused hash
  tauto

theorem does_backupFileCalls (source : Source) (run : Execution) (job : BackupJob)
    (entry : FileEntry) (h : Standing known p g) :
    Does engine repository (engine.backupFileCalls source run job p entry) g
      (fun p' g' => Standing known p' g') := by
  unfold backupFileCalls
  cases source.content entry.path with
  | none =>
      exact h.mono fun hash hhash => hhash
  | some content =>
      refine meets_bind (does_processFileCalls run.versionId job entry content h) ?_
      intro p' g' h'
      refine meets_bind (P := fun _ g'' => Standing known p' g'') ?_
        (fun _ g'' h'' => h'')
      unfold journalProcessedCalls
      cases p'.files.getLast? with
      | none =>
          exact h'
      | some last =>
          exact ⟨trivial, fun r g'' hanswer => h'.answered hanswer trivial trivial⟩

/-- The chunks that a manifest names. -/
def named (m : Manifest) : List ChunkHash :=
  m.chunkRefs.map ChunkReference.hash ++ m.files.flatMap FileEntry.chunks

theorem does_incrementalFileCalls (source : Source) (run : Execution)
    (job : BackupJob) {prevManifest : Manifest} (entry : FileEntry)
    (h : Standing (named prevManifest) p g) :
    Does engine repository
      (engine.incrementalFileCalls source run job prevManifest p entry) g
      (fun p' g' => Standing (named prevManifest) p' g') := by
  unfold incrementalFileCalls
  cases source.content entry.path with
  | none =>
      exact h.mono fun hash hhash => hhash
  | some content =>
      cases hbase : (baselineFileChunks prevManifest).lookup entry.path with
      | none =>
          exact does_processFileCalls run.versionId job entry content h
      | some baselineChunks =>
          refine does_processModifiedCalls run.versionId job prevManifest entry
            content h fun hash hhash => ?_
          obtain ⟨f, hf, heq⟩ := List.mem_map.mp (HashMap.mem_of_lookup_collect hbase)
          obtain rfl : f.chunks = baselineChunks := congrArg Prod.snd heq
          exact List.mem_append_right _ (List.mem_flatMap.mpr ⟨f, hf, hhash⟩)

/-- The references of a manifest are counted once it is written or lost. -/
theorem does_commitCalls {m : Manifest} (h : Standing known p g)
    (hnamed : named m ⊆ known ++ recorded p) :
    Does engine repository (commitCalls m) g (fun _ g' => Accounted [] g') := by
  refine meets_perform trivial fun r g₁ hadded => ?_
  obtain ⟨h₁, hknown⟩ := h.addReferences hadded
  have hall : ∀ hash ∈ named m, Known g₁ hash :=
    fun hash hhash => hknown hash (h.known hash (hnamed hhash))
  refine meets_perform trivial fun r g₂ hwritten => ?_
  have h₂ := h₁.writeManifest
    (fun ref href => hall _ (List.mem_append_left _ (List.mem_map_of_mem href)))
    (fun f hf hash hhash => hall _
      (List.mem_append_right _ (List.mem_flatMap.mpr ⟨f, hf, hhash⟩))) hwritten
  cases r with
  | ok u =>
      exact h₂
  | error e =>
      exact h₂

/-- A full backup leaves the counts in order. -/
theorem does_runBackupCalls (source : Source) (run : Execution) (job : BackupJob)
    (h : Accounted [] g) :
    Does engine repository (engine.runBackupCalls source run job) g
      (fun _ g' => Accounted [] g') := by
  refine meets_perform trivial fun r g₁ hjournaled => ?_
  have h₁ : Standing [] .start g₁ :=
    Standing.answered ⟨h, nofun⟩ hjournaled trivial trivial
  refine meets_bind (meets_foldlM (fun p' g' => Standing [] p' g') h₁ ?_) ?_
  · intro p' g' entry _ h'
    exact does_backupFileCalls source run job entry h'
  · intro p' g' h'
    refine meets_bind (does_commitCalls h' fun hash hhash => ?_) ?_
    · exact hhash
    · intro _ g₂ h₂
      refine meets_perform trivial fun r g₃ hanswer => ?_
      have hstanding : Standing [] .start g₂ := ⟨h₂, nofun⟩
      exact (hstanding.answered hanswer trivial trivial).accounted

theorem named_incrementalManifest (run : Execution) (baselineVersionId : VersionId)
    (prevManifest : Manifest) (changedPaths : List String) (p : Progress) :
    named (engine.incrementalManifest run baselineVersionId prevManifest
      changedPaths p) ⊆ named prevManifest ++ recorded p := by
  intro hash hhash
  rcases List.mem_append.mp hhash with href | hfile
  · obtain ⟨ref, hmem, rfl⟩ := List.mem_map.mp href
    rcases List.mem_append.mp hmem with hold | hnew
    · obtain ⟨f, -, hf⟩ := List.mem_flatMap.mp hold
      obtain ⟨old, hfiltered, rfl⟩ := List.mem_map.mp hf
      have hprev : old ∈ prevManifest.chunkRefs := List.mem_of_mem_filter hfiltered
      exact List.mem_append_left _ (List.mem_append_left _
        (List.mem_map.mpr ⟨old, hprev, rfl⟩))
    · exact List.mem_append_right _ (List.mem_append_left _
        (List.mem_map_of_mem hnew))
  · obtain ⟨f, hmem, hf⟩ := List.mem_flatMap.mp hfile
    rcases List.mem_append.mp hmem with hold | hnew
    · exact List.mem_append_left _ (List.mem_append_right _
        (List.mem_flatMap.mpr ⟨f, List.mem_of_mem_filter hold, hf⟩))
    · exact List.mem_append_right _ (List.mem_append_right _
        (List.mem_flatMap.mpr ⟨f, hnew, hf⟩))

/-- An incremental backup on a baseline of this engine leaves the counts in
order. -/
theorem does_runIncrementalBackupCalls (source : Source) (run : Execution)
    (job : BackupJob) (baselineVersionId : VersionId) (h : Accounted [] g) :
    Does engine repository
      (engine.runIncrementalBackupCalls source run job baselineVersionId) g
      (fun _ g' => Accounted [] g') := by
  refine meets_perform trivial fun r g₁ hread => ?_
  have h₁ : Standing [] .start g₁ :=
    Standing.answered ⟨h, nofun⟩ hread trivial trivial
  refine meets_ofExcept (fun prevManifest hr => ?_) (fun _ _ => h₁.accounted)
  -- The baseline was committed, so all its chunks are known.
  have hmade : prevManifest ∈ committed g₁.2 := by
    obtain ⟨hr', rfl, hbaselines⟩ := hread
    rw [(manifests_logged engine repository (c := .readManifest baselineVersionId)
      trivial g).1]
    refine hbaselines g.2 baselineVersionId prevManifest [] ?_
    rw [← hr, hr']
    rfl
  have hnamed : Standing (named prevManifest) .start g₁ := by
    refine ⟨h₁.accounted, fun hash hhash => ?_⟩
    rw [recorded, List.mem_append, named] at hhash
    rcases hhash with hhash | hnone
    · rcases List.mem_append.mp hhash with href | hfile
      · obtain ⟨ref, hmem, rfl⟩ := List.mem_map.mp href
        exact h₁.accounted.refs prevManifest (List.mem_append_left _ hmade) ref hmem
      · obtain ⟨f, hmem, hf⟩ := List.mem_flatMap.mp hfile
        exact h₁.accounted.files prevManifest hmade f hmem hash hf
    · cases hnone
  refine meets_bind (meets_foldlM
    (fun p' g' => Standing (named prevManifest) p' g') hnamed ?_) ?_
  · intro p' g' entry _ h'
    exact does_incrementalFileCalls source run job entry h'
  · intro p' g' h'
    refine meets_bind (does_commitCalls h' ?_) (fun _ g₂ h₂ => h₂)
    exact named_incrementalManifest run baselineVersionId prevManifest _ p'

end Programs

section Main

variable {σ : Type} {engine : BackupEngine} {repository : CalledRepository σ}
variable {g : History σ}

theorem BaselinesMade.of_concat {log : List ((c : RunCall) × c.Answer)}
    {e : (c : RunCall) × c.Answer} (h : BaselinesMade (log ++ [e])) :
    BaselinesMade log := by
  rintro before versionId manifest after rfl
  refine h before versionId manifest (after ++ [e]) ?_
  rw [List.append_assoc]
  rfl

theorem accounted_afterCall {backup : BackupCall} (h : Accounted [] g)
    (hmade : BaselinesMade (afterCall engine repository g backup).2) :
    Accounted [] (afterCall engine repository g backup) := by
  have hdoes : Does engine repository (backup.program engine) g
      (fun _ g' => Accounted [] g') := by
    cases backup with
    | runBackup source run job =>
        exact does_runBackupCalls source run job h
    | runIncrementalBackup source run job baselineVersionId =>
        exact does_runIncrementalBackupCalls source run job baselineVersionId h
  obtain ⟨hok, herror⟩ := meets_exec_of_admissible
    (fun g : History σ => BaselinesMade g.2)
    (fun g c hmade => BaselinesMade.of_concat hmade)
    (fun g c hmade => ⟨rfl, rfl, hmade⟩) hdoes hmade
  unfold afterCall
  cases hend : (exec (logged (serve engine repository)) (backup.program engine)
      g).1 with
  | ok result =>
      exact hok result hend
  | error e =>
      exact herror e hend

theorem BaselinesMade.of_afterCalls {backups : List BackupCall}
    (h : BaselinesMade (afterCalls engine repository g backups).2) :
    BaselinesMade g.2 := by
  induction backups generalizing g with
  | nil =>
      exact h
  | cons backup backups ih =>
      have hcall : BaselinesMade (afterCall engine repository g backup).2 := ih h
      exact admissible_of_exec (fun g : History σ => BaselinesMade g.2)
        (fun g c hmade => BaselinesMade.of_concat hmade) _ hcall

/-- After every sequence of backups the counts are those of the manifests that
were committed and of those that were lost. -/
theorem accounted_afterCalls {backups : List BackupCall} (h : Accounted [] g)
    (hmade : BaselinesMade (afterCalls engine repository g backups).2) :
    Accounted [] (afterCalls engine repository g backups) := by
  induction backups generalizing g with
  | nil =>
      exact h
  | cons backup backups ih =>
      exact ih (accounted_afterCall h (BaselinesMade.of_afterCalls hmade)) hmade

theorem accounted_start (repo : σ) (journal : Option Journal) :
    Accounted [] (start repo journal) where
  counts := fun h entry hentry => by cases hentry
  refs := fun m hm => by cases hm
  files := fun m hm => by cases hm

theorem Accounted.counted_iff (h : Accounted [] g) : Counted g ↔ NoneLost g := by
  constructor
  · intro hcounted m hm
    by_contra hrefs
    obtain ⟨ref, href⟩ := List.exists_mem_of_ne_nil _ hrefs
    obtain ⟨entry, hentry⟩ := Option.isSome_iff_exists.mp
      (h.refs m (List.mem_append_right _ hm) ref href)
    have hpos : 0 < refCount (lost g.2) ref.hash := by
      rw [refCount, List.countP_pos_iff]
      exact ⟨ref, List.mem_flatMap.mpr ⟨m, hm, href⟩, by simp⟩
    have hall := h.counts ref.hash entry hentry
    rw [hcounted ref.hash entry hentry, refCount_append, List.countP_nil] at hall
    omega
  · intro hlost hash entry hentry
    have hzero : refCount (lost g.2) hash = 0 :=
      refCount_eq_zero_of_forall fun m hm ref href => by
        rw [hlost m hm] at href
        cases href
    rw [h.counts hash entry hentry, refCount_append, hzero, List.countP_nil]
    rfl

/-- The counts are right exactly if no manifest with references was lost. -/
theorem counted_iff_noneLost (engine : BackupEngine)
    (repository : CalledRepository σ) (repo : σ) (journal : Option Journal)
    (backups : List BackupCall)
    (hmade : BaselinesMade
      (afterCalls engine repository (start repo journal) backups).2) :
    Counted (afterCalls engine repository (start repo journal) backups) ↔
      NoneLost (afterCalls engine repository (start repo journal) backups) :=
  (accounted_afterCalls (accounted_start repo journal) hmade).counted_iff

end Main

section Baselines

variable {σ : Type} {engine : BackupEngine} {repository : CalledRepository σ}

theorem BaselinesMade.concat {log : List ((c : RunCall) × c.Answer)}
    (h : BaselinesMade log) {c : RunCall} {r : c.Answer}
    (hread : ∀ v m, (⟨c, r⟩ : (c : RunCall) × c.Answer) =
      ⟨.readManifest v, .ok m⟩ → m ∈ committed log) :
    BaselinesMade (log ++ [⟨c, r⟩]) := by
  intro before v m after hsplit
  rcases List.append_eq_append_iff.mp hsplit with
    ⟨middle, hbefore, hrest⟩ | ⟨middle, hlog, hrest⟩
  · rcases middle with _ | ⟨e, middle⟩
    · cases List.cons.inj hrest with
      | intro he _ =>
          rw [hbefore, List.append_nil]
          exact hread v m he
    · exact absurd (congrArg List.length hrest) (by simp)
  · rcases middle with _ | ⟨e, middle⟩
    · cases List.cons.inj hrest with
      | intro he _ =>
          rw [List.append_nil] at hlog
          rw [← hlog]
          exact hread v m he.symm
    · obtain ⟨rfl, -⟩ := List.cons.inj hrest
      exact h before v m middle hlog

/-- The baselines were made by the engine, and so will be those that can be read
now. -/
structure Made (readable : σ → Manifest → Prop) (g : History σ) : Prop where
  baselines : BaselinesMade g.2
  given : ∀ m, readable g.1.repo m → m ∈ committed g.2

/-- If a repository delivers only manifests that it was given, all baselines
were made by the engine. -/
theorem baselinesMade_afterCalls (readable : σ → Manifest → Prop)
    (hread : ∀ v s m, (repository.readManifest v s).1 = .ok m → readable s m)
    (hgiven : ∀ c s m, readable (serve engine repository c s).2.repo m →
      readable s.repo m ∨ m ∈ commits c (serve engine repository c s).1)
    {repo : σ} (hstart : ∀ m, ¬ readable repo m) (journal : Option Journal)
    (backups : List BackupCall) :
    BaselinesMade (afterCalls engine repository (start repo journal) backups).2 := by
  have hcall : ∀ c g, Made readable g →
      Made readable (logged (serve engine repository) c g).2 := by
    intro c g h
    refine ⟨h.baselines.concat fun v m heq => ?_, fun m hm => ?_⟩
    · obtain ⟨rfl, hanswer⟩ := Sigma.mk.inj_iff.mp heq
      exact h.given m (hread v g.1.repo m (eq_of_heq hanswer))
    · change m ∈ committed (g.2 ++ [⟨c, (serve engine repository c g.1).1⟩])
      rw [committed_concat, List.mem_append]
      exact (hgiven c g.1 m hm).imp_left (h.given m)
  have hrun : ∀ (backups : List BackupCall) (g : History σ), Made readable g →
      Made readable (afterCalls engine repository g backups) := by
    intro backups
    induction backups with
    | nil =>
        intro g h
        exact h
    | cons backup backups ih =>
        intro g h
        exact ih _ (exec_preserves _ hcall _ h)
  refine (hrun backups _ ⟨?_, fun m hm => absurd hm (hstart m)⟩).baselines
  intro before v m after hsplit
  exact absurd (congrArg List.length hsplit) (by simp [start])

end Baselines

section Repositories

/-- The local repository and the number of calls it has answered.  The calls
with certain numbers fail and change nothing. -/
def failingRepository (root : String) (json : ManifestJson)
    (faults : Nat → Option RepoError) : CalledRepository (Files × Nat) where
  chunkExists hash s :=
    match faults s.2 with
    | some e => (.error e, s.1, s.2 + 1)
    | none => (.ok (LocalRepository.chunkExists root s.1 hash), s.1, s.2 + 1)
  findChunk hash s :=
    match faults s.2 with
    | some e => (.error e, s.1, s.2 + 1)
    | none => (LocalRepository.findChunk root s.1 hash, s.1, s.2 + 1)
  writeChunk hash encrypted s :=
    match faults s.2 with
    | some e => (.error e, s.1, s.2 + 1)
    | none =>
        let written := LocalRepository.writeChunk root hash encrypted s.1
        (.ok written.1, written.2, s.2 + 1)
  readManifest versionId s :=
    match faults s.2 with
    | some e => (.error e, s.1, s.2 + 1)
    | none => (LocalRepository.readManifest root json s.1 versionId, s.1, s.2 + 1)
  writeManifest versionId manifest s :=
    match faults s.2 with
    | some e => (.error e, s.1, s.2 + 1)
    | none =>
        (.ok (), LocalRepository.writeManifest root json versionId manifest s.1,
          s.2 + 1)

/-- If JSON reads back what was written, the baselines in a local repository
that was empty at first were made by the engine, whatever calls fail. -/
theorem baselinesMade_failingRepository {root : String} {json : ManifestJson}
    (hjson : ∀ m m', json.fromSlice (json.toVec m) = .ok m' → m' = m)
    (engine : BackupEngine) (faults : Nat → Option RepoError)
    (journal : Option Journal) (backups : List BackupCall) :
    BaselinesMade (afterCalls engine (failingRepository root json faults)
      (start (∅, 0) journal) backups).2 := by
  refine baselinesMade_afterCalls
    (fun s m => ∃ v, LocalRepository.readManifest root json s.1 v = .ok m)
    ?_ ?_ ?_ journal backups
  · intro v s m hread
    refine ⟨v, ?_⟩
    cases hfault : faults s.2 with
    | none =>
        simpa [failingRepository, hfault] using hread
    | some e =>
        simp [failingRepository, hfault] at hread
  · rintro c s m ⟨v, hread⟩
    cases c with
    | writeManifest v' m' =>
        cases hfault : faults s.repo.2 with
        | none =>
            simp only [serve, failingRepository, hfault] at hread ⊢
            rcases LocalRepository.readManifest_writeManifest hread with hnew | hold
            · rw [hjson m' m hnew]
              exact Or.inr (List.mem_singleton_self _)
            · exact Or.inl ⟨v, hold⟩
        | some e =>
            simp only [serve, failingRepository, hfault] at hread
            exact Or.inl ⟨v, hread⟩
    | writeChunk hash encrypted =>
        cases hfault : faults s.repo.2 with
        | none =>
            simp only [serve, failingRepository, hfault,
              LocalRepository.readManifest_writeChunk] at hread
            exact Or.inl ⟨v, hread⟩
        | some e =>
            simp only [serve, failingRepository, hfault] at hread
            exact Or.inl ⟨v, hread⟩
    | _ =>
        refine Or.inl ⟨v, ?_⟩
        cases hfault : faults s.repo.2 with
        | none =>
            simpa only [serve, failingRepository, hfault] using hread
        | some e =>
            simpa only [serve, failingRepository, hfault] using hread
  · rintro m ⟨v, hread⟩
    obtain ⟨data, hdata, -⟩ := LocalRepository.readManifest_eq_ok_iff.mp hread
    cases hdata

/-- A repository in memory. -/
structure Memory where
  manifests : HashMap VersionId Manifest
  chunks : HashMap ChunkHash EncryptedChunk

def memoryRepository : CalledRepository Memory where
  chunkExists hash s := (.ok (s.chunks.lookup hash).isSome, s)
  findChunk hash s :=
    (if (s.chunks.lookup hash).isSome then .ok (chunkLocation hash)
      else .error (.failed "not found"), s)
  writeChunk hash encrypted s :=
    (.ok (chunkLocation hash),
      { s with chunks := s.chunks.insert hash encrypted })
  readManifest versionId s :=
    (match s.manifests.lookup versionId with
      | some manifest => .ok manifest
      | none => .error (.failed "not found"), s)
  writeManifest versionId manifest s :=
    (.ok (), { s with manifests := s.manifests.insert versionId manifest })

theorem baselinesMade_memoryRepository (engine : BackupEngine)
    (journal : Option Journal) (backups : List BackupCall) :
    BaselinesMade (afterCalls engine memoryRepository (start ⟨∅, ∅⟩ journal)
      backups).2 := by
  refine baselinesMade_afterCalls
    (fun s m => ∃ v, s.manifests.lookup v = some m) ?_ ?_ ?_ journal backups
  · intro v s m hread
    refine ⟨v, ?_⟩
    cases hlookup : s.manifests.lookup v with
    | none =>
        simp [memoryRepository, hlookup] at hread
    | some manifest =>
        simpa [memoryRepository, hlookup] using hread
  · rintro c s m ⟨v, hread⟩
    cases c with
    | writeManifest v' m' =>
        have hread' : (s.repo.manifests.insert v' m').lookup v = some m := hread
        rw [HashMap.lookup_insert_of] at hread'
        split at hread'
        · cases hread'
          exact Or.inr (List.mem_singleton_self _)
        · exact Or.inl ⟨v, hread'⟩
    | _ =>
        exact Or.inl ⟨v, hread⟩
  · rintro m ⟨v, hread⟩
    cases hread

end Repositories

section Example

open BackupRestore

/-- A full backup of one file with one chunk. -/
def abcBackup : BackupCall :=
  .runBackup (abcSource ["/data/abc"]) (exampleExecution 4) exampleJob

/-- An incremental backup of the same file on that version. -/
def abcAgain : BackupCall :=
  .runIncrementalBackup (abcSource ["/data/abc"]) (exampleExecution 5) exampleJob
    (exampleExecution 4).versionId

theorem counted_iff_noneLost_abcAgain :
    Counted (afterCalls (exampleEngine (examplePlatform blankManifest))
        memoryRepository (start ⟨∅, ∅⟩ none) [abcBackup, abcAgain]) ↔
      NoneLost (afterCalls (exampleEngine (examplePlatform blankManifest))
        memoryRepository (start ⟨∅, ∅⟩ none) [abcBackup, abcAgain]) :=
  counted_iff_noneLost (exampleEngine (examplePlatform blankManifest))
    memoryRepository ⟨∅, ∅⟩ none [abcBackup, abcAgain]
    (baselinesMade_memoryRepository _ none _)

/-- The disk is full when the manifest is to be written, which is the third call
to the repository. -/
def fullDisk : History (Files × Nat) :=
  afterCalls (exampleEngine (examplePlatform blankManifest))
    (failingRepository "/repo" (exampleJson blankManifest)
      fun n => if n = 2 then some .full else none)
    (start (∅, 0) none) [abcBackup]

/-- The chunk has a reference that no manifest has. -/
theorem not_counted_fullDisk : ¬ Counted fullDisk := by
  intro hcounted
  have hentry : fullDisk.1.index.lookup abcHash =
      some { location := chunkLocation abcHash, referenceCount := 1 } :=
    rfl
  exact absurd (hcounted abcHash _ hentry) (by decide)

end Example

end RefCounts
end Agent
end HyperBackup
