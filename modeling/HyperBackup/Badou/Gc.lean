import HyperBackup.Badou.ChunkStore
import HyperBackup.Badou.Version

/-!
# Deleting versions and collecting garbage

Deleting a version takes its references away, chunk by chunk, and empties its
chunk list.  A collection goes once through the entries that have no
reference left, removes their files and marks them as purged.
-/

namespace HyperBackup
namespace Badou

open Lib Lib.Program

inductive DeleteError
  | immutable (versionId : VersionId)
  | index (e : IndexError)
  | versionOps (e : VersionOpsError)
deriving DecidableEq

structure DeleteResult where
  versionId : VersionId
  removedChunks : List String
  gcCandidates : List String
  keptShared : List String
deriving DecidableEq

namespace VersionDeleter

/-- Run an update of the index inside a deletion. -/
def liftIndex {α : Type}
    (f : BadouIndex → Except IndexError (α × BadouIndex)) :
    EStateM DeleteError BadouIndex α := do
  let index ← get
  match f index with
  | .error e => throw (.index e)
  | .ok (a, index) =>
      set index
      return a

/-- Take one reference away and record what became of the chunk. -/
def removeReference (result : DeleteResult) (chunkHashHex : String) :
    EStateM DeleteError BadouIndex DeleteResult := do
  let count ← liftIndex fun index => index.decrementRefCount chunkHashHex
  let result :=
    { result with removedChunks := result.removedChunks ++ [chunkHashHex] }
  if count = 0 then
    liftIndex fun index => index.updateStatus chunkHashHex .gcPending
    return { result with gcCandidates := result.gcCandidates ++ [chunkHashHex] }
  else
    return { result with keptShared := result.keptShared ++ [chunkHashHex] }

/-- The retention lock of a version has not run out. -/
def isImmutable (now : DateTime) (version : Version) : Bool :=
  version.immutableUntil.any fun t => t > now

def deleteVersion
    (ops : VersionOps) (now : DateTime) (versionId : VersionId) :
    EStateM DeleteError BadouIndex DeleteResult := do
  let version ← ofResult .versionOps (ops.getVersion versionId)
  if isImmutable now version then
    throw (.immutable versionId)
  let chunkHashes := (← get).getVersionChunks versionId.uuid
  let result ← chunkHashes.foldlM removeReference {
    versionId := versionId
    removedChunks := []
    gcCandidates := []
    keptShared := [] }
  modify fun index => index.registerVersionChunks versionId.uuid []
  return result

section Specs

variable {index : BadouIndex} {k : String} {e : ChunkIndexEntry}

theorem run_liftIndex {α : Type}
    {f : BadouIndex → Except IndexError (α × BadouIndex)}
    {i j : BadouIndex} {a : α} (h : f i = .ok (a, j)) :
    (liftIndex f).run i = .ok a j := by
  simp only [liftIndex, EStateM.run_bind, EStateM.run_get, h,
    EStateM.run_set, EStateM.run_pure]

/-- Taking one reference changes the entry of that chunk and nothing else. -/
theorem returns_removeReference
    (result : DeleteResult) (he : index.lookup k = some e) :
    Returns (removeReference result k) index fun result' index' =>
      result'.removedChunks = result.removedChunks ++ [k] ∧
      index'.versionChunks = index.versionChunks ∧
      ∀ k', index'.lookup k' =
        if k' = k then some e.decremented else index.lookup k' := by
  have hdec : (index.register k e.decremented).lookup k =
      some e.decremented := by
    simp
  unfold removeReference
  refine returns_bind_of_run (run_liftIndex
    (f := fun index => index.decrementRefCount k)
    (BadouIndex.decrementRefCount_of_lookup he)) ?_
  by_cases h0 : e.decremented.refCount = 0
  · -- The status set here is the one the decrement has set already.
    have hsame : e.decremented.withStatus .gcPending = e.decremented := by
      simp only [ChunkIndexEntry.decremented] at h0 ⊢
      simp [ChunkIndexEntry.withStatus, h0]
    simp only [h0, if_true]
    refine returns_bind_of_run (run_liftIndex
      (f := fun index => index.updateStatus k .gcPending)
      (BadouIndex.updateStatus_of_lookup hdec .gcPending)) ?_
    refine returns_pure ⟨rfl, rfl, ?_⟩
    intro k'
    by_cases hk : k' = k
    · simp [hk, hsame]
    · simp [hk]
  · simp only [h0, if_false]
    exact returns_pure ⟨rfl, rfl, fun k' => by simp⟩

/-- From every chunk as many references have been taken as the list has occurrences
of it. -/
structure ReferencesTaken (index : BadouIndex) (result : DeleteResult)
    (hashes : List String) (result' : DeleteResult) (index' : BadouIndex) : Prop where
  removedChunks : result'.removedChunks = result.removedChunks ++ hashes
  versionChunks : index'.versionChunks = index.versionChunks
  lookup : ∀ k, index'.lookup k =
    (index.lookup k).map (.dropped (hashes.count k))

theorem ReferencesTaken.removeReference {index' : BadouIndex}
    {result result' : DeleteResult} {done : List String}
    (h : ReferencesTaken index result done result' index')
    (hknown : (index.lookup k).isSome) :
    Returns (removeReference result' k) index'
      (ReferencesTaken index result (done ++ [k])) := by
  obtain ⟨e, he⟩ := Option.isSome_iff_exists.mp hknown
  have he' : index'.lookup k = some (e.dropped (done.count k)) := by
    simp [h.lookup, he]
  refine returns_mono (returns_removeReference result' he') ?_
  rintro result'' index'' ⟨hremoved, hversions, hlookup⟩
  refine ⟨by simp [hremoved, h.removedChunks], hversions.trans h.versionChunks,
    fun k' => ?_⟩
  rw [hlookup]
  by_cases hk : k' = k
  · subst hk
    simp [he, List.count_append, ChunkIndexEntry.dropped_succ]
  · have hcount : [k].count k' = 0 := by
      simp [List.count_eq_zero, hk]
    simp [hk, h.lookup, List.count_append, hcount]

/-- The references of a list are taken one after the other. -/
theorem returns_removeReferences
    (hashes : List String) (result : DeleteResult)
    (hknown : ∀ k ∈ hashes, (index.lookup k).isSome) :
    Returns (hashes.foldlM removeReference result) index
      (ReferencesTaken index result hashes) := by
  refine returns_foldlM hashes (ReferencesTaken index result) ?_ ?_
  · exact ⟨by simp, rfl, fun k => by simp⟩
  · intro done x rest result' index' hlist htaken
    exact htaken.removeReference (hknown x (by simp [hlist]))

/-- Deleting a version takes all its references and empties its list. -/
theorem returns_deleteVersion
    {ops : VersionOps} {now : DateTime} {v : VersionId} {version : Version}
    (hv : ops.versions.lookup v = some version)
    (hmutable : isImmutable now version = false)
    (hknown : ∀ k ∈ index.getVersionChunks v.uuid, (index.lookup k).isSome) :
    Returns (deleteVersion ops now v) index fun result index' =>
      result.removedChunks = index.getVersionChunks v.uuid ∧
      index'.versionChunks = index.versionChunks.insert v.uuid [] ∧
      ∀ k, index'.lookup k = (index.lookup k).map
        (.dropped ((index.getVersionChunks v.uuid).count k)) := by
  have hget : ops.getVersion v = .ok version := by
    simp [VersionOps.getVersion, hv]
  unfold deleteVersion
  refine returns_bind_of_run
    (run_ofResult_eq_ok.mpr ⟨hget, rfl⟩) ?_
  simp only [hmutable, Bool.false_eq_true, if_false]
  refine returns_bind_of_run (EStateM.run_get _) ?_
  refine returns_bind (returns_removeReferences _ _ hknown) ?_
  rintro result index' ⟨hremoved, hversions, hlookup⟩
  refine returns_bind_of_run (EStateM.run_modify _ _) ?_
  refine returns_pure ⟨by simpa using hremoved, ?_, hlookup⟩
  simp [BadouIndex.registerVersionChunks, hversions]

/-- A version that is unknown or still locked is not deleted. -/
theorem run_deleteVersion_refused
    {ops : VersionOps} {now : DateTime} {v : VersionId}
    (hrefused : ∀ version, ops.versions.lookup v = some version →
      isImmutable now version = true) :
    ∃ e, (deleteVersion ops now v).run index = .error e index := by
  cases hv : ops.versions.lookup v with
  | none =>
      have hget : ops.getVersion v = .error (.notFound v) := by
        simp [VersionOps.getVersion, hv]
      refine ⟨.versionOps (.notFound v), ?_⟩
      unfold deleteVersion
      rw [hget]
      rfl
  | some version =>
      have hget : ops.getVersion v = .ok version := by
        simp [VersionOps.getVersion, hv]
      refine ⟨.immutable v, ?_⟩
      unfold deleteVersion
      rw [run_bind_of_ok (run_ofResult_eq_ok.mpr ⟨hget, rfl⟩)]
      simp only [hrefused version hv, if_true]
      rfl

/-- Deleting a version with an empty list registers that list again. -/
theorem returns_deleteVersion_of_nil
    {ops : VersionOps} {now : DateTime} {v : VersionId} {version : Version}
    (hv : ops.versions.lookup v = some version)
    (hmutable : isImmutable now version = false)
    (hnil : index.getVersionChunks v.uuid = []) :
    Returns (deleteVersion ops now v) index fun result index' =>
      result.removedChunks = [] ∧
      index' = index.registerVersionChunks v.uuid [] := by
  have hget : ops.getVersion v = .ok version := by
    simp [VersionOps.getVersion, hv]
  unfold deleteVersion
  refine returns_bind_of_run
    (run_ofResult_eq_ok.mpr ⟨hget, rfl⟩) ?_
  simp only [hmutable, Bool.false_eq_true, if_false]
  refine returns_bind_of_run (EStateM.run_get _) ?_
  rw [hnil]
  exact ⟨_, _, rfl, rfl, rfl⟩

/-- Whether or not a version can be deleted, an empty list of chunks is at most
registered again. -/
theorem stateAfter_deleteVersion_of_nil
    {v : VersionId} (ops : VersionOps) (now : DateTime)
    (hnil : index.getVersionChunks v.uuid = []) :
    stateAfter (deleteVersion ops now v) index = index ∨
      stateAfter (deleteVersion ops now v) index =
        index.registerVersionChunks v.uuid [] := by
  unfold deleteVersion
  cases hget : ops.getVersion v with
  | error e =>
      exact Or.inl rfl
  | ok version =>
      rw [stateAfter_bind_of_run (run_ofResult_eq_ok.mpr ⟨rfl, rfl⟩)]
      cases himm : isImmutable now version with
      | true =>
          exact Or.inl rfl
      | false =>
          refine Or.inr ?_
          simp only [Bool.false_eq_true, if_false]
          rw [stateAfter_bind_of_run (EStateM.run_get _), hnil]
          rfl

end Specs

end VersionDeleter

inductive GcExecutorError
  | index (e : IndexError)
deriving DecidableEq

structure GcReport where
  purgedChunks : List String
  freedBytes : Nat
  skippedChunks : List String
  errors : List String
deriving DecidableEq

namespace GcExecutor

def newReport : GcReport :=
  { purgedChunks := [], freedBytes := 0, skippedChunks := [], errors := [] }

/-- The hash written in a text; anything but 64 digits or more gives zero. -/
def parseHash (hashHex : String) : ChunkHash :=
  match Hex.decode hashHex with
  | .error _ => .zero
  | .ok bytes =>
      if h : 32 ≤ bytes.length then
        ⟨⟨bytes.take 32, by simp [h]⟩⟩
      else .zero

def purgeCandidate (report : GcReport) (candidate : String × ChunkIndexEntry) :
    EStateM GcExecutorError Store GcReport := do
  let (hashHex, entry) := candidate
  if entry.status ≠ .gcPending then
    return { report with skippedChunks := report.skippedChunks ++ [hashHex] }
  else
    let freed := entry.storedSize
    match ← attempt (ChunkStore.deleteChunkPhysical (parseHash hashHex)) with
    | .ok () =>
        return { report with
          purgedChunks := report.purgedChunks ++ [hashHex]
          freedBytes := report.freedBytes + freed }
    | .error (.notFound _) =>
        let st ← get
        match st.index.updateStatus hashHex .purged with
        | .error e => throw (.index e)
        | .ok (_, index) =>
            set { st with index := index }
            return { report with
              skippedChunks := report.skippedChunks ++ [hashHex] }
    | .error e =>
        return { report with
          errors := report.errors ++ [hashHex ++ ": " ++ e.message] }

def executeGc (order : IterOrder (String × ChunkIndexEntry)) :
    EStateM GcExecutorError Store GcReport := do
  let candidates := (← get).index.gcCandidates order
  candidates.foldlM purgeCandidate newReport

section Specs

variable {st : Store} {h : ChunkHash} {e : ChunkIndexEntry}

@[simp] theorem parseHash_toHex (h : ChunkHash) :
    parseHash h.toHex = h := by
  obtain ⟨⟨bytes, hlen⟩⟩ := h
  have htake : bytes.take 32 = bytes :=
    List.take_of_length_le (Nat.le_of_eq hlen)
  simp [parseHash, ChunkHash.toHex, Hex.decode_encode, hlen, htake]

/-- Purging a pending entry removes its file and marks it. -/
theorem run_purgeCandidate
    (report : GcReport) {c : ChunkIndexEntry} (hc : c.status = .gcPending)
    (he : st.index.lookup h.toHex = some e) :
    (purgeCandidate report (h.toHex, c)).run st =
      .ok { report with
            purgedChunks := report.purgedChunks ++ [h.toHex]
            freedBytes := report.freedBytes + c.storedSize }
        ((st.removeFile e.path).onIndex
          fun index => index.register h.toHex (e.withStatus .purged)) := by
  have hrun := ChunkStore.run_deleteChunkPhysical_known he
  have hout : outcome (ChunkStore.deleteChunkPhysical h) st = .ok () := by
    simp [outcome, hrun]
  have hst : stateAfter (ChunkStore.deleteChunkPhysical h) st =
      (st.removeFile e.path).onIndex
        fun index => index.register h.toHex (e.withStatus .purged) := by
    simp [stateAfter, hrun]
  simp only [purgeCandidate, hc, ne_eq, not_true_eq_false, if_false,
    EStateM.run_bind, parseHash_toHex, run_attempt, hout, hst,
    EStateM.run_pure]

/-- To mark what is on the list of candidates is to mark every candidate. -/
theorem lookup_purged
    (index : BadouIndex) (order : IterOrder (String × ChunkIndexEntry))
    (k : String) :
    (if k ∈ (index.gcCandidates order).map Prod.fst
      then (index.lookup k).map (.withStatus .purged)
      else index.lookup k) =
    (index.lookup k).map fun e =>
      if e.isCandidate then e.withStatus .purged else e := by
  cases he : index.lookup k with
  | none =>
      simp
  | some e =>
      have hmem : k ∈ (index.gcCandidates order).map Prod.fst ↔
          e.isCandidate = true := by
        simp [BadouIndex.mem_map_fst_gcCandidates, he]
      by_cases hcand : e.isCandidate = true
      · rw [if_pos (hmem.mpr hcand)]
        simp [hcand]
      · rw [if_neg (hmem.not.mpr hcand)]
        simp [hcand]

/-- Some candidates have been dealt with: they are reported with the bytes they took,
their entries are marked and their files removed. -/
structure Purged (st : Store) (done : List (String × ChunkIndexEntry))
    (report : GcReport) (st' : Store) : Prop where
  purgedChunks : report.purgedChunks = done.map Prod.fst
  freedBytes : report.freedBytes = (done.map fun c => c.2.storedSize).sum
  versionChunks : st'.index.versionChunks = st.index.versionChunks
  lookup : ∀ k, st'.index.lookup k =
    if k ∈ done.map Prod.fst
    then (st.index.lookup k).map (.withStatus .purged)
    else st.index.lookup k
  files : ∀ p, st'.files.lookup p =
    if p ∈ done.map (fun c => c.2.path) then none else st.files.lookup p

theorem Purged.purgeCandidate {st' : Store} {report : GcReport} {c : ChunkIndexEntry}
    {done : List (String × ChunkIndexEntry)} (hpurged : Purged st done report st')
    (hc : st.index.lookup h.toHex = some c) (hpending : c.status = .gcPending)
    (hnew : h.toHex ∉ done.map Prod.fst) :
    Returns (purgeCandidate report (h.toHex, c)) st'
      (Purged st (done ++ [(h.toHex, c)])) := by
  have hcur : st'.index.lookup h.toHex = some c := by
    rw [hpurged.lookup, if_neg hnew, hc]
  refine ⟨_, _, run_purgeCandidate report hpending hcur, ?_⟩
  refine ⟨by simp [hpurged.purgedChunks], by simp [hpurged.freedBytes],
    hpurged.versionChunks, ?_, ?_⟩
  · intro k
    by_cases hk : k = h.toHex
    · simp [hk, hc]
    · have hin : k ∈ (done ++ [(h.toHex, c)]).map Prod.fst ↔ k ∈ done.map Prod.fst := by
        simp [hk]
      rw [if_congr hin rfl rfl, ← hpurged.lookup]
      simp [hk]
  · intro p
    by_cases hpath : p = c.path
    · simp [hpath]
    · have hin : p ∈ (done ++ [(h.toHex, c)]).map (fun c => c.2.path) ↔
          p ∈ done.map (fun c => c.2.path) := by
        simp [hpath]
      rw [if_congr hin rfl rfl, ← hpurged.files]
      simp [hpath]

/-- The candidates are dealt with one after the other, and none of them twice. -/
theorem returns_purgeCandidates
    (order : IterOrder (String × ChunkIndexEntry))
    (hkeys : ∀ k e, st.index.lookup k = some e → ∃ h : ChunkHash, k = h.toHex) :
    Returns ((st.index.gcCandidates order).foldlM purgeCandidate newReport) st
      (Purged st (st.index.gcCandidates order)) := by
  have hnodup := st.index.nodup_gcCandidates order
  refine returns_foldlM _ (Purged st) ⟨rfl, rfl, rfl, by simp, by simp⟩ ?_
  rintro done ⟨k, c⟩ rest report st' hlist hpurged
  have hmem : (k, c) ∈ st.index.gcCandidates order := by
    simp [hlist]
  obtain ⟨hc, hcand⟩ := (st.index.mem_gcCandidates k c).mp hmem
  obtain ⟨h, rfl⟩ := hkeys k c hc
  refine hpurged.purgeCandidate hc (ChunkIndexEntry.isCandidate_iff.mp hcand).1 ?_
  rw [hlist, List.map_append, List.map_cons] at hnodup
  exact fun hin => (List.nodup_append.mp hnodup).2.2 _ hin _ (by simp) rfl

/-- A collection purges exactly the candidates: it reports them with the
bytes they took, marks their entries and removes their files. -/
theorem returns_executeGc
    (order : IterOrder (String × ChunkIndexEntry))
    (hkeys : ∀ k e, st.index.lookup k = some e → ∃ h : ChunkHash, k = h.toHex) :
    Returns (executeGc order) st fun report st' =>
      report.purgedChunks = (st.index.gcCandidates order).map Prod.fst ∧
      report.freedBytes =
        ((st.index.gcCandidates order).map fun c => c.2.storedSize).sum ∧
      st'.index.versionChunks = st.index.versionChunks ∧
      (∀ k, st'.index.lookup k = (st.index.lookup k).map fun e =>
        if e.isCandidate then e.withStatus .purged else e) ∧
      ∀ p, st'.files.lookup p =
        if p ∈ (st.index.gcCandidates order).map (fun c => c.2.path) then none
        else st.files.lookup p := by
  refine returns_bind_of_run (EStateM.run_get _)
    (returns_mono (returns_purgeCandidates order hkeys) ?_)
  intro report st' hpurged
  refine ⟨hpurged.purgedChunks, hpurged.freedBytes, hpurged.versionChunks, fun k => ?_,
    hpurged.files⟩
  rw [hpurged.lookup, lookup_purged]

end Specs

end GcExecutor

end Badou
end HyperBackup
