import HyperBackup.Badou.Recovery

/-!
# What a verification of a repository looks at

A verifier checks single chunks, manifests and snapshots by reading them.  The
check of a whole repository and the check of the reference counts start from
the candidates of the garbage collection instead, which are all pending and
without references.  So both checks see only entries they have nothing to say
about, and the result depends on no file.
-/

namespace HyperBackup
namespace Badou

open Lib

inductive VerifyStatus
  | pass
  | fail
  | mismatch (expected actual : String)
  | missing (detail : String)
deriving DecidableEq

inductive VerifyTarget
  | chunk (hash : String)
  | manifest (manifestId : Uuid)
  | snapshot (snapshotId : Uuid)
deriving DecidableEq

structure VerifyReport where
  target : VerifyTarget
  status : VerifyStatus
  checkedAt : DateTime
  detail : String
deriving DecidableEq

def ChunkIndexStatus.debugText : ChunkIndexStatus → String
  | .active => "Active"
  | .gcPending => "GcPending"
  | .purged => "Purged"

namespace Verifier

section Operations

variable (blake3 : Bytes → ChunkHash) (json : Json) (now : DateTime)
variable (st : Store) (catalog : Catalog)

def verifyChunk (chunkHash : ChunkHash) : VerifyReport :=
  match ChunkStore.readChunk blake3 st chunkHash with
  | .ok data =>
      let actual := blake3 data
      if actual = chunkHash then
        { target := .chunk chunkHash.toHex
          status := .pass
          checkedAt := now
          detail := toString data.length ++ " bytes verified" }
      else
        { target := .chunk chunkHash.toHex
          status := .mismatch chunkHash.toHex actual.toHex
          checkedAt := now
          detail := "hash mismatch detected" }
  | .error (.notFound _) =>
      { target := .chunk chunkHash.toHex
        status := .missing "chunk file not found"
        checkedAt := now
        detail := "chunk not in index or file missing" }
  | .error e =>
      { target := .chunk chunkHash.toHex
        status := .fail
        checkedAt := now
        detail := "read error: " ++ e.message }

/-- The report of the first chunk that does not pass. -/
def firstFailure (chunkRefs : List ChunkRef) : Option VerifyReport :=
  (chunkRefs.map fun r => verifyChunk blake3 now st r.chunkHash).find? fun report =>
    report.status ≠ .pass

def verifyManifest (manifestId : Uuid) : VerifyReport :=
  match ManifestStore.readManifest json catalog manifestId with
  | .ok manifest =>
      match firstFailure blake3 now st manifest.chunkRefs with
      | some report => report
      | none =>
          { target := .manifest manifestId
            status := .pass
            checkedAt := now
            detail := toString manifest.chunkRefs.length ++ " chunks verified" }
  | .error (.notFound _) =>
      { target := .manifest manifestId
        status := .missing "manifest not found"
        checkedAt := now
        detail := "manifest file missing" }
  | .error e =>
      { target := .manifest manifestId
        status := .fail
        checkedAt := now
        detail := "read error: " ++ e.message }

def verifySnapshot (snapshotId : Uuid) : VerifyReport :=
  match SnapshotStore.readSnapshot json catalog snapshotId with
  | .ok snapshot =>
      if ¬ snapshot.verifyInfo.verified ∧ snapshot.status = .sealed then
        { target := .snapshot snapshotId
          status := .missing "verify_info not set for sealed snapshot"
          checkedAt := now
          detail := "sealed snapshot missing verify_info" }
      else
        { target := .snapshot snapshotId
          status := .pass
          checkedAt := now
          detail := "snapshot status=" ++ snapshot.status.debugText ++ ", " ++
            toString snapshot.fileCount.toNat ++ " files, " ++
            toString snapshot.chunkCount.toNat ++ " chunks" }
  | .error (.notFound _) =>
      { target := .snapshot snapshotId
        status := .missing "snapshot not found"
        checkedAt := now
        detail := "snapshot file missing" }
  | .error e =>
      { target := .snapshot snapshotId
        status := .fail
        checkedAt := now
        detail := "read error: " ++ e.message }

variable (order : IterOrder (String × ChunkIndexEntry)) (index : BadouIndex)

/-- The report of `verifyRepository` on one candidate. -/
def candidateReport (candidate : String × ChunkIndexEntry) : VerifyReport where
  target := .chunk candidate.1
  status := if candidate.2.status = .gcPending then .pass else .fail
  checkedAt := now
  detail := "ref_count=" ++ toString candidate.2.refCount.toNat ++ ", status=" ++
    candidate.2.status.debugText

def verifyRepository : List VerifyReport :=
  (index.gcCandidates order).map (candidateReport now)

/-- The report of `verifyRefCountConsistency` on one candidate, if there is one. -/
def refCountReport (candidate : String × ChunkIndexEntry) : Option VerifyReport :=
  if candidate.2.refCount = 0 ∧ candidate.2.status ≠ .gcPending then
    some
      { target := .chunk candidate.1
        status := .mismatch "GcPending" candidate.2.status.debugText
        checkedAt := now
        detail := "zero ref_count but not GcPending" }
  else none

def verifyRefCountConsistency : List VerifyReport :=
  (index.gcCandidates order).filterMap (refCountReport now)

end Operations

section Chunks

variable {blake3 : Bytes → ChunkHash} {json : Json} {now : DateTime}
variable {st : Store} {catalog : Catalog}

/-- A chunk passes exactly if it is in the index with a file that has its hash. -/
theorem status_verifyChunk_eq_pass_iff (h : ChunkHash) :
    (verifyChunk blake3 now st h).status = .pass ↔
      ∃ e data, st.index.lookup h.toHex = some e ∧ st.files.lookup e.path = some data ∧
        blake3 data = h := by
  have hread : (verifyChunk blake3 now st h).status = .pass ↔
      ∃ data, ChunkStore.readChunk blake3 st h = .ok data := by
    unfold verifyChunk
    cases hread : ChunkStore.readChunk blake3 st h with
    | ok data =>
        obtain ⟨-, -, -, hhash⟩ := ChunkStore.readChunk_eq_ok_iff.mp hread
        simp [hhash]
    | error e =>
        cases e <;> simp
  simp only [hread, ChunkStore.readChunk_eq_ok_iff]
  exact exists_comm

/-- A manifest passes exactly if it can be read and all its chunks pass. -/
theorem status_verifyManifest_eq_pass_iff (id : Uuid) :
    (verifyManifest blake3 json now st catalog id).status = .pass ↔
      ∃ manifest, ManifestStore.readManifest json catalog id = .ok manifest ∧
        ∀ r ∈ manifest.chunkRefs,
          (verifyChunk blake3 now st r.chunkHash).status = .pass := by
  unfold verifyManifest
  cases hread : ManifestStore.readManifest json catalog id with
  | error e =>
      cases e <;> simp
  | ok manifest =>
      simp only [Except.ok.injEq, exists_eq_left']
      cases hbad : firstFailure blake3 now st manifest.chunkRefs with
      | none =>
          exact iff_of_true rfl (by simpa [firstFailure] using hbad)
      | some report =>
          have hstatus : report.status ≠ .pass := by
            simpa using List.find?_some hbad
          obtain ⟨r, hr, rfl⟩ := List.mem_map.mp (List.mem_of_find?_eq_some hbad)
          exact iff_of_false hstatus fun hall => hstatus (hall r hr)

/-- A snapshot passes exactly if it can be read and is not sealed without having been
verified. -/
theorem status_verifySnapshot_eq_pass_iff (id : Uuid) :
    (verifySnapshot json now catalog id).status = .pass ↔
      ∃ snapshot, SnapshotStore.readSnapshot json catalog id = .ok snapshot ∧
        (snapshot.status = .sealed → snapshot.verifyInfo.verified = true) := by
  unfold verifySnapshot
  cases hread : SnapshotStore.readSnapshot json catalog id with
  | error e =>
      cases e <;> simp
  | ok snapshot =>
      simp only [Except.ok.injEq, exists_eq_left']
      by_cases hbad : ¬ snapshot.verifyInfo.verified ∧ snapshot.status = .sealed
      · rw [if_pos hbad]
        exact iff_of_false (by simp) fun hall => hbad.1 (hall hbad.2)
      · rw [if_neg hbad]
        exact iff_of_true rfl fun hsealed =>
          by_contra fun hunverified => hbad ⟨hunverified, hsealed⟩

end Chunks

section Repository

variable (order : IterOrder (String × ChunkIndexEntry)) (now : DateTime)

/-- Every candidate is as the check wants it. -/
theorem status_of_mem_verifyRepository {index : BadouIndex} {report : VerifyReport}
    (h : report ∈ verifyRepository now order index) : report.status = .pass := by
  obtain ⟨⟨k, e⟩, hcandidate, rfl⟩ := List.mem_map.mp h
  obtain ⟨-, hpending⟩ := (index.mem_gcCandidates k e).mp hcandidate
  exact if_pos (ChunkIndexEntry.isCandidate_iff.mp hpending).1

/-- No candidate is out of order. -/
theorem verifyRefCountConsistency_eq_nil (index : BadouIndex) :
    verifyRefCountConsistency now order index = [] := by
  refine List.filterMap_eq_nil_iff.mpr ?_
  rintro ⟨k, e⟩ hcandidate
  obtain ⟨-, hpending⟩ := (index.mem_gcCandidates k e).mp hcandidate
  exact if_neg fun hstray => hstray.2 (ChunkIndexEntry.isCandidate_iff.mp hpending).1

/-- Every active entry has a chunk file whose hash it is entered under. -/
def ActiveSound (blake3 : Bytes → ChunkHash) (st : Store) : Prop :=
  ∀ k e, st.index.lookup k = some e → e.status = .active →
    ∃ data, st.files.lookup e.path = some data ∧ (blake3 data).toHex = k

/-- The entry has no references and does not wait for collection either. -/
def Stray (index : BadouIndex) (k : String) : Prop :=
  ∃ e, index.lookup k = some e ∧ e.refCount = 0 ∧ e.status ≠ .gcPending ∧
    e.status ≠ .purged

/-- If all reports pass, the active entries are sound, and each stray entry is
reported. -/
structure FindsDamage (blake3 : Bytes → ChunkHash) (st : Store) : Prop where
  chunks : (∀ report ∈ verifyRepository now order st.index, report.status = .pass) →
    ActiveSound blake3 st
  refCounts : ∀ k, Stray st.index k →
    ∃ report ∈ verifyRefCountConsistency now order st.index,
      report.target = .chunk k ∧ report.status ≠ .pass

/-- The verification finds all damage exactly if there is none to be found. -/
theorem findsDamage_iff (blake3 : Bytes → ChunkHash) (st : Store) :
    FindsDamage order now blake3 st ↔
      ActiveSound blake3 st ∧ ∀ k, ¬ Stray st.index k := by
  constructor
  · intro h
    refine ⟨h.chunks fun report => status_of_mem_verifyRepository order now, ?_⟩
    intro k hstray
    obtain ⟨report, hreport, -⟩ := h.refCounts k hstray
    rw [verifyRefCountConsistency_eq_nil] at hreport
    cases hreport
  · rintro ⟨hsound, hnone⟩
    exact ⟨fun _ => hsound, fun k hstray => absurd hstray (hnone k)⟩

/-- An active entry whose chunk file was lost, with the reports that pass. -/
theorem lost_chunk_not_found :
    ¬ FindsDamage .asStored 0 (fun _ => RecoveryEngine.abcHash)
      { index := BadouIndex.inMemory.register RecoveryEngine.abcHash.toHex
          { bucket := "64", path := "/data/64/abc.chunk", refCount := 1, size := 3
            storedSize := 3, status := .active }
        files := ∅ } := by
  intro h
  obtain ⟨data, hdata, -⟩ := h.chunks
    (fun report => status_of_mem_verifyRepository .asStored 0) _ _
    ((BadouIndex.lookup_register _ _ _ _).trans (if_pos rfl)) rfl
  cases hdata

end Repository

end Verifier
end Badou
end HyperBackup
