import HyperBackup.Badou.Commit
import HyperBackup.Badou.Json

/-!
# Reading a committed manifest

Two writers put manifests into the same directory.  The manifest store writes
a frame, the length of the JSON text before the text itself.  A commit stages
the bare text, under the name the store would use.  The one reader takes the
first four bytes for the length: in a bare text these are the letters that
every manifest begins with, a length of more than a gigabyte, and what stands
after them is no JSON.  So no committed manifest can ever be read.
-/

namespace HyperBackup
namespace Badou
namespace ManifestRead

open Lib Lib.Program

/-- The bytes every JSON text of a manifest begins with. -/
def manifestHead : Bytes :=
  Hex.utf8 "\x7b\"manifest_id\":"

section Serde

variable (json : Json)

/-- How JSON deals with manifests: the text is an object whose first field is
the identifier, and a text that begins with a letter is no manifest. -/
structure ReadsObjects : Prop where
  begins : ∀ m, ∃ rest, json.manifestToVec m = manifestHead ++ rest
  rejects : ∀ (b : UInt8) rest, 97 ≤ b.toNat → b.toNat ≤ 122 →
    ∃ text, json.manifestFromSlice (b :: rest) = .error text

end Serde

section Reading

variable {layout : BadouDataLayout} {blake3 : Bytes → ChunkHash} {json : Json}
variable {draws : CommitDraws} {repoId : RepositoryId}
variable {parent : Option VersionId} {manifest : Manifest}
variable {snapshot : Snapshot} {chunks : List (ChunkHash × Bytes)}
variable {s : CommitState}

/-- The first four bytes of a bare text are read as this length. -/
theorem decode_manifestHead :
    LittleEndian.decode (manifestHead.take 4) = 1634542203 := by
  decide

/-- A bare text is never read as a manifest. -/
theorem decodeManifest_bare_ne (hjson : ReadsObjects json) (m m' : Manifest) :
    decodeManifest json (json.manifestToVec m) ≠ .ok m' := by
  obtain ⟨rest, htext⟩ := hjson.begins m
  have hhead : (json.manifestToVec m).take 4 = manifestHead.take 4 := by
    rw [htext]
    rfl
  have htail : (json.manifestToVec m).drop 4 =
      0x6e :: (manifestHead.drop 5 ++ rest) := by
    rw [htext]
    rfl
  unfold decodeManifest
  simp only [hhead, decode_manifestHead, htail]
  split
  · simp
  · split
    · simp
    · -- What is left begins with the letter n.
      obtain ⟨text, hreject⟩ := hjson.rejects 0x6e
        ((manifestHead.drop 5 ++ rest).take 1634542202) (by decide) (by decide)
      have htake : (0x6e :: (manifestHead.drop 5 ++ rest)).take 1634542203 =
          0x6e :: (manifestHead.drop 5 ++ rest).take 1634542202 :=
        List.take_succ_cons
      rw [htake, hreject]
      simp [Except.mapError]

/-- What the store has written is read back. -/
theorem readManifest_writeManifest
    (hlen : (json.manifestToVec manifest).length < 2 ^ 32)
    (hjson : json.manifestFromSlice (json.manifestToVec manifest) =
      .ok manifest) (catalog : Catalog) :
    ManifestStore.readManifest json
      (ManifestStore.writeManifest json manifest catalog)
      manifest.manifestId = .ok manifest := by
  rw [ManifestStore.readManifest_of_lookup (AList.lookup_insert _)]
  exact decodeManifest_encodeManifest hlen hjson

/-- A committed manifest stands in its directory as a bare text. -/
theorem readManifest_of_success {v : VersionId} {id : Uuid}
    (h : outcome (CommitBackup.commitBackup layout blake3 json draws repoId
      parent manifest snapshot chunks) s = .ok (.success v id)) :
    ManifestStore.readManifest json
        (stateAfter (CommitBackup.commitBackup layout blake3 json draws repoId
          parent manifest snapshot chunks) s).repo.catalog
        manifest.manifestId =
      decodeManifest json (json.manifestToVec manifest) := by
  obtain ⟨-, -, hpublishes⟩ := CommitBackup.publishes_of_success h
  apply ManifestStore.readManifest_of_lookup
  rw [hpublishes.manifests, if_pos rfl]

/-- The store reads back every manifest it has written, and none that a
commit has written. -/
theorem committed_manifest_unreadable {v : VersionId} {id : Uuid}
    (hserde : ReadsObjects json)
    (hlen : (json.manifestToVec manifest).length < 2 ^ 32)
    (hjson : json.manifestFromSlice (json.manifestToVec manifest) =
      .ok manifest)
    (h : outcome (CommitBackup.commitBackup layout blake3 json draws repoId
      parent manifest snapshot chunks) s = .ok (.success v id)) :
    ManifestStore.readManifest json
        (ManifestStore.writeManifest json manifest s.repo.catalog)
        manifest.manifestId = .ok manifest ∧
      ∀ m, ManifestStore.readManifest json
        (stateAfter (CommitBackup.commitBackup layout blake3 json draws repoId
          parent manifest snapshot chunks) s).repo.catalog
        manifest.manifestId ≠ .ok m := by
  refine ⟨readManifest_writeManifest hlen hjson _, ?_⟩
  intro m
  rw [readManifest_of_success h]
  exact decodeManifest_bare_ne hserde manifest m

end Reading

section Example

/-- A manifest without files. -/
def emptyManifest : Manifest where
  manifestId := BitVec.ofNat 128 1
  snapshotId := BitVec.ofNat 128 2
  fileTree := []
  chunkRefs := []
  createdAt := 0

/-- A reader that knows one text. -/
def readOnly (text : Bytes) (m : Manifest) (data : Bytes) :
    Except String Manifest :=
  if data = text then .ok m
  else .error "expected ident at line 1 column 2"

/-- The text of the empty manifest, and the reader that knows it. -/
def emptyManifestJson : Json :=
  Json.withReaders
    (readOnly (Hex.utf8 (Json.manifest emptyManifest)) emptyManifest)
    (fun _ => .error "EOF while parsing a value at line 1 column 0")

theorem manifest_begins (m : Manifest) :
    ∃ rest, Hex.utf8 (Json.manifest m) = manifestHead ++ rest := by
  obtain ⟨rest, hrest⟩ := JsonText.exists_object_head_eq "manifest_id" [
      ("snapshot_id", Json.uuid m.snapshotId),
      ("file_tree", JsonText.bytes m.fileTree),
      ("chunk_refs", JsonText.array (m.chunkRefs.map Json.chunkRef)),
      ("created_at", JsonText.time m.createdAt)]
  have hquote : "\x7b" ++ JsonText.quote "manifest_id" ++ ":" =
      "\x7b\"manifest_id\":" := by
    decide
  refine ⟨Hex.utf8 (Json.uuid m.manifestId ++ rest), ?_⟩
  rw [Json.manifest, hrest, String.append_assoc, Hex.utf8_append, hquote,
    manifestHead]

theorem readOnly_letter {text : Bytes} {m : Manifest} {b : UInt8}
    {rest : Bytes} (htext : ∃ tail, text = manifestHead ++ tail)
    (hletter : 97 ≤ b.toNat ∧ b.toNat ≤ 122) :
    readOnly text m (b :: rest) =
      .error "expected ident at line 1 column 2" := by
  rw [readOnly, if_neg]
  intro heq
  obtain ⟨tail, rfl⟩ := htext
  have hhead : (manifestHead ++ tail).head? = some 0x7b := rfl
  rw [← heq, List.head?_cons, Option.some.injEq] at hhead
  rw [hhead] at hletter
  exact absurd hletter (by decide)

theorem readsObjects_withReaders {m : Manifest}
    {snapshotFromSlice : Bytes → Except String Snapshot} {text : Bytes}
    (htext : ∃ tail, text = manifestHead ++ tail) :
    ReadsObjects (Json.withReaders (readOnly text m) snapshotFromSlice) := by
  refine ⟨?_, ?_⟩
  · intro m
    rw [Json.withReaders_manifestToVec]
    exact manifest_begins m
  · intro b rest hlow hhigh
    exact ⟨_, readOnly_letter htext ⟨hlow, hhigh⟩⟩

theorem readsObjects_emptyManifestJson : ReadsObjects emptyManifestJson :=
  readsObjects_withReaders (manifest_begins emptyManifest)

theorem emptyManifestJson_reads :
    emptyManifestJson.manifestFromSlice
      (emptyManifestJson.manifestToVec emptyManifest) = .ok emptyManifest := by
  rw [emptyManifestJson, Json.withReaders_manifestToVec,
    Json.withReaders_manifestFromSlice, readOnly, if_pos rfl]

/-- The snapshot of an empty directory. -/
def emptySnapshot : Snapshot where
  snapshotId := BitVec.ofNat 128 2
  versionId := ⟨BitVec.ofNat 128 3⟩
  sourceMachine := { hostname := "host", osType := "linux", agentVersion := "1" }
  backupPolicy := { paths := ["/home"], excludes := [], includes := [] }
  fileTree := { root := "/home", entries := [] }
  chunkMapping := []
  encryptionInfo := { enabled := false, algorithm := "none", keyRef := none }
  compressionInfo := { algorithm := "zstd", level := 3 }
  verifyInfo := { verified := false, verifiedAt := none, checksum := none }
  status := .created
  createdAt := 0
  totalSize := 0
  storedSize := 0
  fileCount := 0
  chunkCount := 0

/-- The BLAKE3 hash of the frame of the empty manifest. -/
def emptyManifestHash : ChunkHash :=
  ⟨⟨[
    0xe8, 0x76, 0xfc, 0x84, 0xb0, 0xa2, 0x6e, 0x6c,
    0xf1, 0x22, 0xf2, 0x9a, 0x79, 0x8f, 0x16, 0x10,
    0x3f, 0x73, 0x5b, 0x9f, 0x25, 0x18, 0x17, 0x92,
    0x85, 0x2e, 0x8c, 0x2a, 0xef, 0xe3, 0xa3, 0xa3], rfl⟩⟩

/-- The commit of the empty manifest. -/
def commitEmpty : CommitBackup.CommitM CommitResult :=
  CommitBackup.commitBackup ⟨"/data"⟩ (fun _ => emptyManifestHash)
    emptyManifestJson
    { now := 0
      versionId := ⟨BitVec.ofNat 128 3⟩
      snapshotId := BitVec.ofNat 128 4 }
    ⟨1#128⟩ none emptyManifest emptySnapshot []

/-- A repository in which nothing has happened yet. -/
def newRepository : CommitState :=
  { repo := .empty, versions := .new }

theorem outcome_commitEmpty :
    ∃ v id, outcome commitEmpty newRepository = .ok (.success v id) :=
  CommitBackup.outcome_commitBackup.mpr ⟨by decide, rfl⟩

/-- The empty manifest is read from where the store writes it and not from
where it has been committed. -/
theorem committed_emptyManifest_unreadable :
    ManifestStore.readManifest emptyManifestJson
        (ManifestStore.writeManifest emptyManifestJson emptyManifest
          newRepository.repo.catalog)
        emptyManifest.manifestId = .ok emptyManifest ∧
      ∀ m, ManifestStore.readManifest emptyManifestJson
        (stateAfter commitEmpty newRepository).repo.catalog
        emptyManifest.manifestId ≠ .ok m := by
  obtain ⟨v, id, hout⟩ := outcome_commitEmpty
  have hlen : (emptyManifestJson.manifestToVec emptyManifest).length <
      2 ^ 32 := by
    rw [emptyManifestJson, Json.withReaders_manifestToVec]
    decide +kernel
  exact committed_manifest_unreadable readsObjects_emptyManifestJson hlen
    emptyManifestJson_reads hout

/-- The commit of the empty manifest succeeds and its manifest is not read
back. -/
theorem commitEmpty_succeeds_unreadable :
    (∃ v id, outcome commitEmpty newRepository = .ok (.success v id)) ∧
      ManifestStore.readManifest emptyManifestJson
        (stateAfter commitEmpty newRepository).repo.catalog
        emptyManifest.manifestId ≠ .ok emptyManifest := by
  obtain ⟨v, id, hout⟩ := outcome_commitEmpty
  refine ⟨⟨v, id, hout⟩, ?_⟩
  have hread := readManifest_of_success hout
  unfold commitEmpty
  rw [hread]
  exact decodeManifest_bare_ne readsObjects_emptyManifestJson _ _

end Example

end ManifestRead
end Badou
end HyperBackup
