import HyperBackup.Agent.VersionListing
import HyperBackup.Lib.Greatest
import HyperBackup.Lib.Walk

/-!
# Restore points

`RestorePointResolver` picks versions out of the list that the repository gives
and checks chains of parents.  `resolveByTimestamp` compares timestamps;
`resolveLatest` and `resolveNearestValidBaseline` take the first suitable
element, and a local repository lists its versions in the order in which the
directory lists its files.

`verifyChainIntegrity` follows the parents that the manifests name.  Its loop
ends at a manifest without parent or at one that cannot be read, and nothing
else stops it; the number of rounds is an argument of the model.
-/

namespace HyperBackup
namespace Agent

open Lib

structure RestorePoint where
  versionId : VersionId
  timestamp : DateTime
  versionNumber : Nat
deriving DecidableEq

structure ChainEntry where
  versionId : VersionId
  versionNumber : Nat
  backupType : BackupType
  isValid : Bool
deriving DecidableEq

structure ChainIntegrityReport where
  chain : List ChainEntry
  isIntact : Bool
  corruptedCount : Nat
deriving DecidableEq

/-- What the resolver asks of its repository. -/
structure RestorePointResolver where
  listVersions : Except RepoError (List VersionSummary)
  readManifest : VersionId → Except RepoError Manifest

namespace RestorePointResolver

/-- The resolver of a repository in a directory. -/
def ofLocal (root : String) (json : ManifestJson) (parseStr : String → Option Uuid)
    (order : IterOrder (String × Bytes)) (files : Files) : RestorePointResolver where
  listVersions := .ok (LocalRepository.listVersions root json parseStr order files)
  readManifest := LocalRepository.readManifest root json files

def restorePoint (v : VersionSummary) : RestorePoint where
  versionId := ⟨v.versionId⟩
  timestamp := v.timestamp
  versionNumber := v.versionNumber

section Resolve

variable (r : RestorePointResolver)

def resolveByTimestamp (pointInTime : DateTime) :
    Except RepoError (Option RestorePoint) := do
  let versions ← r.listVersions
  let candidate := Greatest.maxByKey VersionSummary.timestamp
    (versions.filter fun v => v.timestamp ≤ pointInTime)
  return candidate.map restorePoint

def resolveLatest : Except RepoError (Option RestorePoint) := do
  let versions ← r.listVersions
  return versions.head?.map restorePoint

/-- `read_manifest(..).is_ok()`. -/
def readable (v : VersionSummary) : Bool :=
  (r.readManifest ⟨v.versionId⟩).isOk

def resolveNearestValidBaseline (corruptedVersionId : VersionId) :
    Except RepoError (Option RestorePoint) := do
  let versions ← r.listVersions
  let corruptedTime := (versions.find? fun v =>
    v.versionId == corruptedVersionId.uuid).map VersionSummary.timestamp
  match corruptedTime with
  | none => return none
  | some cutoff =>
      let found := versions.find? fun v =>
        !decide (v.timestamp ≥ cutoff) && r.readable v
      return found.map restorePoint

/-- The loop of `verifyChainIntegrity`. -/
def verifyChainLoop :
    Nat → VersionId → List ChainEntry → Nat → Option (List ChainEntry × Nat)
  | 0, _, _, _ => none
  | fuel + 1, current, chain, corruptedCount =>
      match r.readManifest current with
      | .ok manifest =>
          let chain := chain ++
            [⟨current, manifest.versionNumber, manifest.backupType, true⟩]
          match manifest.parentVersionId with
          | some parent => verifyChainLoop fuel parent chain corruptedCount
          | none => some (chain, corruptedCount)
      | .error _ =>
          some (chain ++ [⟨current, 0, .incremental, false⟩], corruptedCount + 1)

def verifyChainIntegrity (fuel : Nat) (versionId : VersionId) :
    Option ChainIntegrityReport :=
  (verifyChainLoop r fuel versionId [] 0).map fun (chain, corruptedCount) =>
    { chain := chain
      isIntact := corruptedCount == 0
      corruptedCount := corruptedCount }

end Resolve

section Chain

variable {r : RestorePointResolver} {fuel : Nat} {v p : VersionId} {m : Manifest}
variable {chain : List ChainEntry} {corruptedCount : Nat}

/-- The parent that the manifest of a version names. -/
def parentLink (r : RestorePointResolver) (v : VersionId) : Option VersionId :=
  match r.readManifest v with
  | .ok manifest => manifest.parentVersionId
  | .error _ => none

/-- Parent links lead through readable manifests to one without parent. -/
inductive ReachesRoot (r : RestorePointResolver) : VersionId → Prop
  | root {v : VersionId} {m : Manifest}
      (hread : r.readManifest v = .ok m)
      (hparent : m.parentVersionId = none) :
      ReachesRoot r v
  | link {v p : VersionId} {m : Manifest}
      (hread : r.readManifest v = .ok m)
      (hparent : m.parentVersionId = some p)
      (hrest : ReachesRoot r p) :
      ReachesRoot r v

theorem parentLink_of_ok (hread : r.readManifest v = .ok m) :
    parentLink r v = m.parentVersionId := by
  simp only [parentLink, hread]

theorem reachesRoot_iff_of_parent
    (hread : r.readManifest v = .ok m) (hparent : m.parentVersionId = some p) :
    ReachesRoot r v ↔ ReachesRoot r p := by
  constructor
  · intro h
    cases h with
    | root hread' hparent' =>
        cases hread.symm.trans hread'
        cases hparent.symm.trans hparent'
    | link hread' hparent' hrest =>
        cases hread.symm.trans hread'
        cases hparent.symm.trans hparent'
        exact hrest
  · exact ReachesRoot.link hread hparent

theorem not_reachesRoot_of_error {e : RepoError} (hread : r.readManifest v = .error e) :
    ¬ ReachesRoot r v := by
  intro h
  cases h with
  | root hread' =>
      cases hread.symm.trans hread'
  | link hread' =>
      cases hread.symm.trans hread'

/-- A walk that ends is gone through, and counts a corrupted version unless it
reaches a root. -/
theorem verifyChainLoop_of_ends
    (hends : Walk.Ends (parentLink r) v) (chain : List ChainEntry)
    (corruptedCount : Nat) :
    ∃ fuel chain' count, verifyChainLoop r fuel v chain corruptedCount =
        some (chain', count) ∧
      (count = corruptedCount ∧ ReachesRoot r v ∨
        count = corruptedCount + 1 ∧ ¬ ReachesRoot r v) := by
  induction hends using Walk.Ends.induction generalizing chain with
  | last v hnext =>
      cases hread : r.readManifest v with
      | ok m =>
          rw [parentLink_of_ok hread] at hnext
          refine ⟨1, chain ++ [⟨v, m.versionNumber, m.backupType, true⟩],
            corruptedCount, ?_, Or.inl ⟨rfl, .root hread hnext⟩⟩
          simp only [verifyChainLoop, hread, hnext]
      | error e =>
          refine ⟨1, chain ++ [⟨v, 0, .incremental, false⟩],
            corruptedCount + 1, ?_, Or.inr ⟨rfl, not_reachesRoot_of_error hread⟩⟩
          simp only [verifyChainLoop, hread]
  | step v p hnext _ ih =>
      cases hread : r.readManifest v with
      | ok m =>
          rw [parentLink_of_ok hread] at hnext
          obtain ⟨fuel, chain', count, hloop, hcount⟩ := ih
            (chain ++ [⟨v, m.versionNumber, m.backupType, true⟩])
          refine ⟨fuel + 1, chain', count, ?_, ?_⟩
          · simp only [verifyChainLoop, hread, hnext, hloop]
          · rwa [reachesRoot_iff_of_parent hread hnext]
      | error e =>
          simp only [parentLink, hread] at hnext
          cases hnext

/-- The loop can only come to an end where the walk does. -/
theorem ends_of_verifyChainLoop {result : List ChainEntry × Nat}
    (h : verifyChainLoop r fuel v chain corruptedCount = some result) :
    Walk.Ends (parentLink r) v := by
  induction fuel generalizing v chain with
  | zero =>
      cases h
  | succ fuel ih =>
      cases hread : r.readManifest v with
      | error e =>
          exact Walk.ends_of_next_eq_none (by simp only [parentLink, hread])
      | ok m =>
          have hlink := parentLink_of_ok hread
          cases hparent : m.parentVersionId with
          | none =>
              exact Walk.ends_of_next_eq_none (hlink.trans hparent)
          | some p =>
              simp only [verifyChainLoop, hread, hparent] at h
              exact (Walk.ends_iff_of_next_eq_some (hlink.trans hparent)).mpr (ih h)

/-- Finitely many versions can be told apart. -/
instance : Finite VersionId :=
  Finite.of_injective (fun v => v.uuid.toFin) fun v w heq => by
    have huuid : v.uuid = w.uuid := BitVec.eq_of_toFin_eq heq
    cases v
    cases w
    cases huuid
    rfl

/-- The check ends, and says whether the parents lead to a root. -/
def VerifiesChain (r : RestorePointResolver) (v : VersionId) : Prop :=
  ∃ fuel report, verifyChainIntegrity r fuel v = some report ∧
    (report.isIntact = true ↔ ReachesRoot r v)

theorem verifiesChain_of_ends (hends : Walk.Ends (parentLink r) v) :
    VerifiesChain r v := by
  obtain ⟨fuel, chain', count, hloop, hcount⟩ := verifyChainLoop_of_ends hends [] 0
  refine ⟨fuel, ⟨chain', count == 0, count⟩,
    by rw [verifyChainIntegrity, hloop, Option.map_some], ?_⟩
  rcases hcount with ⟨rfl, hroot⟩ | ⟨rfl, hroot⟩
  · simp [hroot]
  · simp [hroot]

theorem ends_of_verifiesChain (h : VerifiesChain r v) :
    Walk.Ends (parentLink r) v := by
  obtain ⟨fuel, report, hreport, -⟩ := h
  obtain ⟨result, hloop, -⟩ := Option.map_eq_some_iff.mp hreport
  exact ends_of_verifyChainLoop hloop

/-- The check is right exactly if the parents never lead back to a version
passed before; otherwise it does not end. -/
theorem verifiesChain_iff (r : RestorePointResolver) (v : VersionId) :
    VerifiesChain r v ↔ Walk.NoReturn (parentLink r) v :=
  ⟨fun h => Walk.noReturn_of_ends (ends_of_verifiesChain h),
    fun h => verifiesChain_of_ends (Walk.ends_iff_noReturn.mpr h)⟩

end Chain

section Choice

variable {r : RestorePointResolver} {versions : List VersionSummary}

/-- The resolver picks the newest of the versions in question. -/
structure ChoosesByTime (r : RestorePointResolver)
    (versions : List VersionSummary) : Prop where
  latest : ∃ o, r.resolveLatest = .ok (o.map restorePoint) ∧
    Greatest.Selects VersionSummary.timestamp versions o
  byTimestamp : ∀ p, ∃ o, r.resolveByTimestamp p = .ok (o.map restorePoint) ∧
    Greatest.Selects VersionSummary.timestamp
      (versions.filter fun v => v.timestamp ≤ p) o
  baseline : ∀ v ∈ versions, ∃ o,
    r.resolveNearestValidBaseline ⟨v.versionId⟩ = .ok (o.map restorePoint) ∧
      Greatest.Selects VersionSummary.timestamp
        (versions.filter fun w => decide (w.timestamp < v.timestamp) && r.readable w) o

/-- The newest version is listed first, and those with a readable manifest
newest first. -/
structure NewestFirst (r : RestorePointResolver)
    (versions : List VersionSummary) : Prop where
  head : Greatest.Selects VersionSummary.timestamp versions versions.head?
  readable : Greatest.Descending VersionSummary.timestamp (versions.filter r.readable)

theorem restorePoint_injective_of_timestamps
    (htimes : (versions.map VersionSummary.timestamp).Nodup)
    {v w : VersionSummary} (hv : v ∈ versions) (hw : w ∈ versions)
    (heq : restorePoint v = restorePoint w) : v = w :=
  List.inj_on_of_nodup_map htimes hv hw (congrArg RestorePoint.timestamp heq)

theorem resolveByTimestamp_selects
    (hlist : r.listVersions = .ok versions) (p : DateTime) :
    ∃ o, r.resolveByTimestamp p = .ok (o.map restorePoint) ∧
      Greatest.Selects VersionSummary.timestamp
        (versions.filter fun v => v.timestamp ≤ p) o := by
  refine ⟨_, ?_, Greatest.selects_maxByKey _⟩
  simp only [resolveByTimestamp, hlist]
  rfl

theorem resolveLatest_eq (hlist : r.listVersions = .ok versions) :
    r.resolveLatest = .ok (versions.head?.map restorePoint) := by
  simp only [resolveLatest, hlist]
  rfl

/-- The readable versions before a listed one, first listed first. -/
theorem resolveNearestValidBaseline_eq
    (hlist : r.listVersions = .ok versions)
    (hids : (versions.map VersionSummary.versionId).Nodup)
    {v : VersionSummary} (hv : v ∈ versions) :
    r.resolveNearestValidBaseline ⟨v.versionId⟩ =
      .ok ((versions.filter fun w =>
        decide (w.timestamp < v.timestamp) && r.readable w).head?.map restorePoint) := by
  have hfind : (versions.find? fun w => w.versionId == v.versionId) = some v := by
    cases hfound : versions.find? fun w => w.versionId == v.versionId with
    | none =>
        have hnone := List.find?_eq_none.mp hfound v hv
        simp at hnone
    | some w =>
        have hid : w.versionId = v.versionId := by
          simpa using List.find?_some hfound
        rw [List.inj_on_of_nodup_map hids (List.mem_of_find?_eq_some hfound) hv hid]
  have hearlier : ∀ w : VersionSummary,
      (!decide (w.timestamp ≥ v.timestamp)) = decide (w.timestamp < v.timestamp) := by
    intro w
    rw [← decide_not]
    exact decide_eq_decide.mpr Int.not_le
  simp only [resolveNearestValidBaseline, hlist, bind, Except.bind, hfind,
    Option.map_some, pure, Except.pure, List.head?_filter, hearlier]

theorem selects_of_restorePoint_eq
    (htimes : (versions.map VersionSummary.timestamp).Nodup)
    {l : List VersionSummary} (hl : l ⊆ versions)
    {o o' : Option VersionSummary}
    (ho : Greatest.Selects VersionSummary.timestamp l o)
    (ho' : ∀ v ∈ o', v ∈ l) (heq : o'.map restorePoint = o.map restorePoint) :
    Greatest.Selects VersionSummary.timestamp l o' := by
  cases o with
  | none =>
      cases o' with
      | none =>
          exact ho
      | some w =>
          cases heq
  | some v =>
      cases o' with
      | none =>
          cases heq
      | some w =>
          have hpoint : restorePoint w = restorePoint v := Option.some.inj heq
          rwa [restorePoint_injective_of_timestamps htimes (hl (ho' w rfl))
            (hl ho.1) hpoint]

theorem filter_earlier_readable (v : VersionSummary) :
    (versions.filter fun w => decide (w.timestamp < v.timestamp) && r.readable w) =
      (versions.filter r.readable).filter fun w => w.timestamp < v.timestamp := by
  rw [List.filter_filter]

/-- If the choices are right, the first readable version is the newest of them. -/
theorem selects_first_readable
    (htimes : (versions.map VersionSummary.timestamp).Nodup)
    (hhead : Greatest.Selects VersionSummary.timestamp versions versions.head?)
    (hearlier : ∀ v ∈ versions, Greatest.Selects VersionSummary.timestamp
      ((versions.filter r.readable).filter fun w => w.timestamp < v.timestamp)
      ((versions.filter r.readable).filter fun w => w.timestamp < v.timestamp).head?) :
    Greatest.Selects VersionSummary.timestamp (versions.filter r.readable)
      (versions.filter r.readable).head? := by
  cases versions with
  | nil =>
      rfl
  | cons n rest =>
      by_cases hn : r.readable n = true
      · rw [List.filter_cons_of_pos hn]
        refine ⟨List.mem_cons_self, fun w hw => hhead.2 w ?_⟩
        rw [← List.filter_cons_of_pos hn] at hw
        exact (List.mem_filter.mp hw).1
      · -- the newest version is not readable, so all readable ones are before it
        have h := hearlier n List.mem_cons_self
        rw [List.filter_cons_of_neg hn] at h ⊢
        have hself : ((rest.filter r.readable).filter fun w =>
            w.timestamp < n.timestamp) = rest.filter r.readable := by
          refine List.filter_eq_self.mpr fun w hw => decide_eq_true ?_
          have hmem := (List.mem_filter.mp hw).1
          refine lt_of_le_of_ne (hhead.2 w (List.mem_cons_of_mem n hmem)) fun heq => ?_
          exact (List.nodup_cons.mp htimes).1 (heq ▸ List.mem_map_of_mem hmem)
        rwa [hself] at h

/-- The choices are right exactly if the repository lists the newest version
first and the readable ones newest first. -/
theorem choosesByTime_iff
    (r : RestorePointResolver) (versions : List VersionSummary)
    (hlist : r.listVersions = .ok versions)
    (hids : (versions.map VersionSummary.versionId).Nodup)
    (htimes : (versions.map VersionSummary.timestamp).Nodup) :
    ChoosesByTime r versions ↔ NewestFirst r versions := by
  constructor
  · intro h
    have hhead : Greatest.Selects VersionSummary.timestamp versions versions.head? := by
      obtain ⟨o, hlatest, ho⟩ := h.latest
      rw [resolveLatest_eq hlist] at hlatest
      exact selects_of_restorePoint_eq htimes (List.Subset.refl _) ho
        (fun v hv => List.mem_of_mem_head? hv) (Except.ok.inj hlatest)
    have hearlier : ∀ v ∈ versions, Greatest.Selects VersionSummary.timestamp
        ((versions.filter r.readable).filter fun w => w.timestamp < v.timestamp)
        ((versions.filter r.readable).filter fun w =>
          w.timestamp < v.timestamp).head? := by
      intro v hv
      obtain ⟨o, hbaseline, ho⟩ := h.baseline v hv
      rw [resolveNearestValidBaseline_eq hlist hids hv] at hbaseline
      rw [filter_earlier_readable] at hbaseline ho
      refine selects_of_restorePoint_eq htimes ?_ ho
        (fun w hw => List.mem_of_mem_head? hw) (Except.ok.inj hbaseline)
      exact List.Subset.trans (List.filter_subset_self _) (List.filter_subset_self _)
    refine ⟨hhead, Greatest.descending_of_selects ?_
      (selects_first_readable htimes hhead hearlier) ?_⟩
    · exact htimes.sublist (List.filter_sublist.map _)
    · intro c hc
      exact hearlier c (List.mem_filter.mp hc).1
  · intro h
    refine ⟨⟨_, resolveLatest_eq hlist, h.head⟩, resolveByTimestamp_selects hlist, ?_⟩
    intro v hv
    refine ⟨_, resolveNearestValidBaseline_eq hlist hids hv, ?_⟩
    rw [filter_earlier_readable]
    exact Greatest.Descending.selects_head? (List.Pairwise.sublist
      List.filter_sublist h.readable)

end Choice

section Example

open CleanupExecutor (emptyChunkVersion)
open LocalRepository

/-- The first of two versions. -/
def olderVersion : Manifest :=
  emptyChunkVersion 1

/-- An incremental version made a day later. -/
def newerVersion : Manifest :=
  { emptyChunkVersion 2 with
    timestamp := 86400000000000
    parentVersionId := some olderVersion.versionId
    versionNumber := 2
    backupType := .incremental }

/-- A version that is its own parent. -/
def selfParentVersion : Manifest :=
  { emptyChunkVersion 1 with
    parentVersionId := some ⟨BitVec.ofNat 128 1⟩
    backupType := .incremental }

/-- JSON that reads the given manifests back. -/
def twoVersionsJson : ManifestJson where
  toVec := Json.manifestBytes
  fromSlice := fun data =>
    if data = Json.manifestBytes olderVersion then .ok olderVersion
    else if data = Json.manifestBytes newerVersion then .ok newerVersion
    else .error "expected value at line 1 column 1"

/-- Reads the two identifiers. -/
def parseTwo (text : String) : Option Uuid :=
  if text = uuidText olderVersion.versionId.uuid then some olderVersion.versionId.uuid
  else if text = uuidText newerVersion.versionId.uuid then
    some newerVersion.versionId.uuid
  else none

/-- The directory lists the older version first. -/
def twoVersionsFiles : Files :=
  Files.write (Files.write ∅
    (manifestPath "/repo" newerVersion.versionId) (Json.manifestBytes newerVersion))
    (manifestPath "/repo" olderVersion.versionId) (Json.manifestBytes olderVersion)

def twoVersions : List VersionSummary :=
  [versionSummary olderVersion.versionId.uuid olderVersion,
    versionSummary newerVersion.versionId.uuid newerVersion]

def twoVersionsResolver : RestorePointResolver :=
  ofLocal "/repo" twoVersionsJson parseTwo .asStored twoVersionsFiles

theorem versionId_newer_ne_older : newerVersion.versionId ≠ olderVersion.versionId := by
  decide

theorem toList_twoVersionsFiles :
    HashMap.toList twoVersionsFiles =
      [(manifestPath "/repo" olderVersion.versionId, Json.manifestBytes olderVersion),
        (manifestPath "/repo" newerVersion.versionId,
          Json.manifestBytes newerVersion)] := by
  have hpath : manifestPath "/repo" olderVersion.versionId ∉
      (Files.write ∅ (manifestPath "/repo" newerVersion.versionId)
        (Json.manifestBytes newerVersion)) := by
    intro hmem
    rcases (AList.mem_insert _).mp hmem with heq | hnone
    · exact versionId_newer_ne_older (manifestPath_injective heq).symm
    · exact AList.notMem_empty _ hnone
  have hentries : ∀ (path : String) (data : Bytes),
      (Files.write ∅ path data).entries = [⟨path, data⟩] := fun _ _ => rfl
  have hinsert : twoVersionsFiles.entries =
      ⟨manifestPath "/repo" olderVersion.versionId, Json.manifestBytes olderVersion⟩ ::
        (Files.write ∅ (manifestPath "/repo" newerVersion.versionId)
          (Json.manifestBytes newerVersion)).entries :=
    AList.entries_insert_of_notMem hpath
  rw [HashMap.toList, hinsert, hentries, List.map_cons, List.map_cons, List.map_nil]

theorem fromSlice_olderVersion :
    twoVersionsJson.fromSlice (Json.manifestBytes olderVersion) = .ok olderVersion := by
  simp only [twoVersionsJson, if_true]

theorem fromSlice_newerVersion :
    twoVersionsJson.fromSlice (Json.manifestBytes newerVersion) = .ok newerVersion := by
  have hbytes : Json.manifestBytes newerVersion ≠ Json.manifestBytes olderVersion :=
    fun heq => versionId_newer_ne_older (Json.versionId_eq_of_manifestBytes_eq heq)
  simp only [twoVersionsJson, if_neg hbytes, if_true]

theorem parseTwo_olderVersion :
    parseTwo (uuidText olderVersion.versionId.uuid) =
      some olderVersion.versionId.uuid := by
  simp only [parseTwo, if_true]

theorem parseTwo_newerVersion :
    parseTwo (uuidText newerVersion.versionId.uuid) =
      some newerVersion.versionId.uuid := by
  have hid : uuidText newerVersion.versionId.uuid ≠
      uuidText olderVersion.versionId.uuid :=
    fun heq => versionId_newer_ne_older
      (congrArg VersionId.mk (uuidText_injective heq))
  simp only [parseTwo, if_neg hid, if_true]

/-- A directory of two manifests is listed in its order. -/
theorem listVersions_eq_pair {root : String} {json : ManifestJson}
    {parseStr : String → Option Uuid} {files : Files} {path path' : String}
    {data data' : Bytes} {v v' : VersionSummary}
    (hfiles : HashMap.toList files = [(path, data), (path', data')])
    (hv : versionOf root json parseStr path data = some v)
    (hv' : versionOf root json parseStr path' data' = some v') :
    LocalRepository.listVersions root json parseStr .asStored files = [v, v'] := by
  simp only [LocalRepository.listVersions, IterOrder.asStored, hfiles,
    List.filterMap_cons, hv, hv', List.filterMap_nil]

theorem listVersions_twoVersions :
    twoVersionsResolver.listVersions = .ok twoVersions :=
  congrArg Except.ok (listVersions_eq_pair toList_twoVersionsFiles
    (versionOf_manifestPath parseTwo_olderVersion fromSlice_olderVersion)
    (versionOf_manifestPath parseTwo_newerVersion fromSlice_newerVersion))

/-- Whether the choices between the two versions are right. -/
theorem choosesByTime_twoVersions_iff :
    ChoosesByTime twoVersionsResolver twoVersions ↔
      NewestFirst twoVersionsResolver twoVersions :=
  choosesByTime_iff twoVersionsResolver twoVersions listVersions_twoVersions
    (by decide) (by decide)

/-- The latest restore point is the older version, if the directory lists it first. -/
theorem latest_is_not_newest :
    ¬ ∀ (root : String) (json : ManifestJson) (parseStr : String → Option Uuid)
      (order : IterOrder (String × Bytes)) (files : Files)
      (versions : List VersionSummary),
      (ofLocal root json parseStr order files).listVersions = .ok versions →
      (versions.map VersionSummary.versionId).Nodup →
      (versions.map VersionSummary.timestamp).Nodup →
        ChoosesByTime (ofLocal root json parseStr order files) versions := by
  intro hall
  have h := hall "/repo" twoVersionsJson parseTwo .asStored twoVersionsFiles
    twoVersions listVersions_twoVersions (by decide) (by decide)
  obtain ⟨o, hchosen, ho⟩ := h.latest
  have hlatest : twoVersionsResolver.resolveLatest = .ok (o.map restorePoint) := hchosen
  rw [resolveLatest_eq listVersions_twoVersions] at hlatest
  have hhead := selects_of_restorePoint_eq (by decide) (List.Subset.refl _) ho
    (fun v hv => List.mem_of_mem_head? hv) (Except.ok.inj hlatest)
  exact absurd (hhead.2 (versionSummary newerVersion.versionId.uuid newerVersion)
    (by simp [twoVersions])) (by decide)

/-- The chain of a version that is its own parent is never checked to the end. -/
theorem selfParent_not_verified :
    ¬ ∀ (r : RestorePointResolver) (v : VersionId), VerifiesChain r v := by
  intro hall
  let files := Files.write ∅ (manifestPath "/repo" selfParentVersion.versionId)
    (Json.manifestBytes selfParentVersion)
  let r := ofLocal "/repo" (BackupEngine.exampleJson selfParentVersion) parseTwo
    .asStored files
  have hjson : (BackupEngine.exampleJson selfParentVersion).fromSlice
      (Json.manifestBytes selfParentVersion) = .ok selfParentVersion := by
    simp [BackupEngine.exampleJson]
  have hread : r.readManifest selfParentVersion.versionId = .ok selfParentVersion :=
    readManifest_eq_ok (AList.lookup_insert _) hjson
  have hlink : parentLink r selfParentVersion.versionId =
      some selfParentVersion.versionId :=
    parentLink_of_ok hread
  have hreturn := Walk.noReturn_of_ends
    (ends_of_verifiesChain (hall r selfParentVersion.versionId))
  have hone : Walk.walk (parentLink r) 1 selfParentVersion.versionId =
      some selfParentVersion.versionId := by
    rw [Walk.walk, hlink, Option.bind_some, Walk.walk]
  exact absurd (hreturn 0 1 _ rfl hone) (by decide)

end Example
end RestorePointResolver
end Agent
end HyperBackup
