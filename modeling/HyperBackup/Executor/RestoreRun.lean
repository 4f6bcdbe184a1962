import HyperBackup.Executor.TaskExecutor
import HyperBackup.Provider.StoredManifest

/-!
# The run of a restore

A restore makes two calls for the manifest and one for every chunk that the
files list.  A chunk that is not fetched is left out of its file, and every
file is written with what there is of it.  So a file is written in full exactly
if each of its chunks is stored, and fetched unless it is empty.
-/

namespace HyperBackup
namespace Executor
namespace TaskExecutor

open Lib Lib.Program Badou Provider

section Contents

variable (setting : Setting) (s : ServerState) (r : RepositoryId)

/-- The content of a chunk that is stored. -/
def chunkContent (h : ChunkHash) : Option Bytes :=
  match ChunkStore.readChunk setting.ext.blake3 (Server.repoState s r).store h with
  | .error _ => none
  | .ok data =>
      match setting.codec.chunkFromSlice data with
      | .error _ => none
      | .ok encrypted => some encrypted.ciphertext

/-- The content of a file with these chunks, if all of them are stored. -/
def fullContent : List ChunkHash → Option Bytes
  | [] => some []
  | h :: hashes =>
      match chunkContent setting s r h, fullContent hashes with
      | some data, some rest => some (data ++ rest)
      | _, _ => none

/-- What a restore gets of a chunk with a call of the given number. -/
def fetchedChunk (fate : Nat → Delivery) (c : Nat) (h : ChunkHash) : Bytes :=
  if fate c = .answered then (chunkContent setting s r h).getD [] else []

/-- What a restore gets of a file whose calls begin at the given number. -/
def fetched (fate : Nat → Delivery) : Nat → List ChunkHash → Bytes
  | _, [] => []
  | c, h :: hashes =>
      fetchedChunk setting s r fate c h ++ fetched fate (c + 1) hashes

/-- What a restore writes for some files, if calls and writes have so far
reached the given numbers. -/
def writesOf (spec : TaskSpec) (fate : Nat → Delivery) :
    Nat → Nat → List Agent.FileEntry → List FileWrite
  | _, _, [] => []
  | c, k, f :: files =>
      { path := targetOf spec.targetPath f
        data := fetched setting s r fate c f.chunks
        error := setting.machine.writeError k } ::
        writesOf spec fate (c + f.chunks.length) (k + 1) files

/-- The chunk is stored, and it is fetched or empty. -/
def ChunkArrives (fate : Nat → Delivery) (c : Nat) (h : ChunkHash) : Prop :=
  ∃ data, chunkContent setting s r h = some data ∧ (fate c = .answered ∨ data = [])

variable {setting s r} {fate : Nat → Delivery}

theorem length_fetched_le (hashes : List ChunkHash) :
    ∀ (c : Nat) (content : Bytes), fullContent setting s r hashes = some content →
      (fetched setting s r fate c hashes).length ≤ content.length := by
  induction hashes with
  | nil =>
      intro c content _
      exact Nat.zero_le _
  | cons h hashes ih =>
      intro c content hcontent
      unfold fullContent at hcontent
      split at hcontent
      · next data rest hdata hrest =>
          cases hcontent
          have hlater := ih (c + 1) rest hrest
          rw [fetched, List.length_append, List.length_append, fetchedChunk, hdata]
          split
          · exact Nat.add_le_add_left hlater _
          · rw [List.length_nil, Nat.zero_add]
            exact Nat.le_add_left_of_le hlater
      · cases hcontent

theorem fullContent_cons_iff {h : ChunkHash} {hashes : List ChunkHash}
    {content : Bytes} :
    fullContent setting s r (h :: hashes) = some content ↔
      ∃ data rest, chunkContent setting s r h = some data ∧
        fullContent setting s r hashes = some rest ∧ content = data ++ rest := by
  constructor
  · intro hcontent
    rw [fullContent] at hcontent
    split at hcontent
    · next data rest hdata hrest =>
        cases hcontent
        exact ⟨data, rest, hdata, hrest, rfl⟩
    · cases hcontent
  · rintro ⟨data, rest, hdata, hrest, rfl⟩
    rw [fullContent, hdata, hrest]

/-- One more chunk. -/
theorem fullContent_cons_eq_fetched_iff {h : ChunkHash} {hashes : List ChunkHash}
    {c : Nat} :
    fullContent setting s r (h :: hashes) =
        some (fetched setting s r fate c (h :: hashes)) ↔
      ChunkArrives setting s r fate c h ∧
        fullContent setting s r hashes =
          some (fetched setting s r fate (c + 1) hashes) := by
  rw [fullContent_cons_iff, fetched, fetchedChunk, ChunkArrives]
  constructor
  · rintro ⟨data, rest, hdata, hrest, hsplit⟩
    rw [hdata, Option.getD_some] at hsplit
    by_cases hfate : fate c = .answered
    · rw [if_pos hfate] at hsplit
      rw [hrest, ← List.append_cancel_left hsplit]
      exact ⟨⟨data, hdata, Or.inl hfate⟩, rfl⟩
    · -- What is missing at the front cannot be made up for later.
      rw [if_neg hfate, List.nil_append] at hsplit
      have hlength := @length_fetched_le setting s r fate hashes (c + 1) rest hrest
      rw [hsplit, List.length_append] at hlength
      have hnil : data = [] := List.length_eq_zero_iff.mp (by omega)
      rw [hsplit, hnil, hrest]
      exact ⟨⟨data, hdata, Or.inr hnil⟩, rfl⟩
  · rintro ⟨⟨data, hdata, hfate | rfl⟩, hrest⟩
    · refine ⟨data, _, hdata, hrest, ?_⟩
      rw [if_pos hfate, hdata, Option.getD_some]
    · refine ⟨[], _, hdata, hrest, ?_⟩
      rw [hdata, Option.getD_some, ite_self]

/-- A file arrives in full exactly if each of its chunks does. -/
theorem fetched_eq_fullContent_iff (hashes : List ChunkHash) :
    ∀ c : Nat, fullContent setting s r hashes =
        some (fetched setting s r fate c hashes) ↔
      ∀ k h, hashes[k]? = some h → ChunkArrives setting s r fate (c + k) h := by
  induction hashes with
  | nil =>
      intro c
      simp [fullContent, fetched]
  | cons h hashes ih =>
      intro c
      rw [fullContent_cons_eq_fetched_iff, ih (c + 1)]
      constructor
      · rintro ⟨hfirst, hrest⟩ k h' hk
        cases k with
        | zero =>
            obtain rfl := Option.some.inj hk
            exact hfirst
        | succ k =>
            have hlater := hrest k h' (List.getElem?_cons_succ.symm.trans hk)
            rwa [Nat.add_right_comm] at hlater
      · intro hall
        refine ⟨hall 0 h rfl, fun k h' hk => ?_⟩
        have hlater := hall (k + 1) h' (List.getElem?_cons_succ.trans hk)
        rwa [← Nat.add_assoc, Nat.add_right_comm] at hlater

/-- The places of a list that is put together from two. -/
theorem forall_getElem?_append_iff {α : Type} {P : Nat → α → Prop}
    {xs ys : List α} :
    (∀ k x, (xs ++ ys)[k]? = some x → P k x) ↔
      (∀ k x, xs[k]? = some x → P k x) ∧
        ∀ k x, ys[k]? = some x → P (xs.length + k) x := by
  constructor
  · intro hall
    refine ⟨fun k x hk => hall k x ?_, fun k x hk => hall _ x ?_⟩
    · rw [List.getElem?_append_left (List.getElem?_eq_some_iff.mp hk).1, hk]
    · rw [List.getElem?_append_right (Nat.le_add_right _ _), Nat.add_sub_cancel_left,
        hk]
  · rintro ⟨hxs, hys⟩ k x hk
    by_cases hlt : k < xs.length
    · rw [List.getElem?_append_left hlt] at hk
      exact hxs k x hk
    · rw [List.getElem?_append_right (Nat.le_of_not_lt hlt)] at hk
      have hlater := hys _ x hk
      rwa [Nat.add_sub_cancel' (Nat.le_of_not_lt hlt)] at hlater

/-- The files are written in full exactly if all chunks arrive and no write
fails. -/
theorem forall₂_writesOf_iff {spec : TaskSpec} (files : List Agent.FileEntry) :
    ∀ c k : Nat, List.Forall₂ (fun f write => ∃ content,
        fullContent setting s r f.chunks = some content ∧
        write = ({ path := targetOf spec.targetPath f, data := content,
                   error := none } : FileWrite))
        files (writesOf setting s r spec fate c k files) ↔
      (∀ j h, (files.flatMap Agent.FileEntry.chunks)[j]? = some h →
        ChunkArrives setting s r fate (c + j) h) ∧
      ∀ i < files.length, setting.machine.writeError (k + i) = none := by
  induction files with
  | nil =>
      intro c k
      simp [writesOf]
  | cons f files ih =>
      intro c k
      have hfirst : (∃ content, fullContent setting s r f.chunks = some content ∧
          ({ path := targetOf spec.targetPath f
             data := fetched setting s r fate c f.chunks
             error := setting.machine.writeError k } : FileWrite) =
            { path := targetOf spec.targetPath f, data := content, error := none }) ↔
          (∀ j h, f.chunks[j]? = some h → ChunkArrives setting s r fate (c + j) h) ∧
            setting.machine.writeError k = none := by
        rw [← fetched_eq_fullContent_iff]
        simp only [FileWrite.mk.injEq, true_and]
        constructor
        · rintro ⟨content, hfull, rfl, hwrite⟩
          exact ⟨hfull, hwrite⟩
        · rintro ⟨hfull, hwrite⟩
          exact ⟨_, hfull, rfl, hwrite⟩
      rw [writesOf, List.forall₂_cons, hfirst, ih, List.flatMap_cons,
        forall_getElem?_append_iff, List.length_cons, Nat.forall_lt_succ_left]
      simp only [Nat.add_assoc, Nat.add_comm 1, Nat.add_zero]
      exact and_and_and_comm

end Contents

section Runs

variable {setting : Setting} {provider : BaDouProvider} {r : RepositoryId}
variable {w : World} {spec : TaskSpec}

/-- The network after some calls that leave the server alone. -/
def skip (n : Nat) (net : Net) : Net :=
  { net with calls := net.calls + n }

theorem chunkContent_eq_some_iff {s : ServerState} {h : ChunkHash} {data : Bytes}
    (hreads : BaDouProvider.ReadsFrom setting.ext provider s r) :
    chunkContent setting s r h = some data ↔
      ∃ e, outcome (provider.readChunk reliable setting.ext setting.codec
        (BaDouProvider.makeLocation h.toHex)) s = .ok e ∧ e.ciphertext = data := by
  simp only [BaDouProvider.outcome_readChunk_eq_ok_iff hreads]
  unfold chunkContent
  cases ChunkStore.readChunk setting.ext.blake3 (Server.repoState s r).store h with
  | error e =>
      simp
  | ok stored =>
      cases hdecode : setting.codec.chunkFromSlice stored with
      | error e =>
          simp [hdecode]
      | ok e =>
          simp [hdecode]

/-- A chunk is fetched if the call is answered and the chunk is stored. -/
theorem run_restoreChunk
    (hreads : BaDouProvider.ReadsFrom setting.ext provider w.net.server r)
    (data : Bytes) (h : ChunkHash) :
    (restoreChunk setting provider data h).run w =
      .ok (data ++ fetchedChunk setting w.net.server r w.net.fate w.net.calls h)
        (w.setNet (skip 1 w.net)) := by
  have hnet := run_onNet (provider.readChunk faulty setting.ext setting.codec
    (BaDouProvider.makeLocation h.toHex)) w
  rw [BaDouProvider.stateAfter_readChunk_faulty] at hnet
  refine (run_bind_of_ok hnet).trans ?_
  cases hout : outcome (provider.readChunk faulty setting.ext setting.codec
      (BaDouProvider.makeLocation h.toHex)) w.net with
  | ok e =>
      obtain ⟨hfate, hreliable⟩ :=
        BaDouProvider.outcome_readChunk_faulty_eq_ok_iff.mp hout
      have hcontent := (chunkContent_eq_some_iff hreads).mpr ⟨e, hreliable, rfl⟩
      rw [fetchedChunk, if_pos hfate, hcontent]
      rfl
  | error e =>
      have hnone : fetchedChunk setting w.net.server r w.net.fate w.net.calls h =
          [] := by
        unfold fetchedChunk
        split
        · next hfate =>
            cases hcontent : chunkContent setting w.net.server r h with
            | none =>
                rfl
            | some content =>
                obtain ⟨e', hreliable, -⟩ :=
                  (chunkContent_eq_some_iff hreads).mp hcontent
                have hok := BaDouProvider.outcome_readChunk_faulty_eq_ok_iff.mpr
                  ⟨hfate, hreliable⟩
                rw [hout] at hok
                cases hok
        · rfl
      rw [hnone, List.append_nil]
      rfl

/-- All chunks of a file are asked for. -/
theorem run_restoreChunks (hashes : List ChunkHash) :
    ∀ (w : World) (data : Bytes),
      BaDouProvider.ReadsFrom setting.ext provider w.net.server r →
      (hashes.foldlM (restoreChunk setting provider) data).run w =
        .ok (data ++ fetched setting w.net.server r w.net.fate w.net.calls hashes)
          (w.setNet (skip hashes.length w.net)) := by
  induction hashes with
  | nil =>
      intro w data _
      rw [fetched, List.append_nil]
      rfl
  | cons h hashes ih =>
      intro w data hreads
      have hskip : skip hashes.length (skip 1 w.net) =
          skip (h :: hashes).length w.net := by
        simp only [skip, List.length_cons, Nat.add_assoc, Nat.add_comm 1]
      rw [List.foldlM_cons, run_bind_of_ok (run_restoreChunk hreads data h),
        ih (w.setNet (skip 1 w.net)) _ hreads, fetched, ← List.append_assoc,
        net_setNet, hskip]
      rfl

/-- A file is written with what was fetched of it. -/
theorem run_restoreFile
    (hreads : BaDouProvider.ReadsFrom setting.ext provider w.net.server r)
    (restored : Restored) (f : Agent.FileEntry) :
    ∃ restored', (restoreFile setting provider spec.targetPath restored f).run w =
      .ok restored' { net := skip f.chunks.length w.net
                      writes := w.writes ++ [{
                        path := targetOf spec.targetPath f
                        data := fetched setting w.net.server r w.net.fate
                          w.net.calls f.chunks
                        error := setting.machine.writeError w.writes.length }] } := by
  have hchunks := run_restoreChunks f.chunks w [] hreads
  rw [List.nil_append] at hchunks
  unfold restoreFile
  rw [run_bind_of_ok hchunks]
  have hwrite : ∀ data, (writeFile setting (targetOf spec.targetPath f) data).run
      (w.setNet (skip f.chunks.length w.net)) =
        .ok (setting.machine.writeError w.writes.length)
          { net := skip f.chunks.length w.net
            writes := w.writes ++ [{
              path := targetOf spec.targetPath f
              data := data
              error := setting.machine.writeError w.writes.length }] } :=
    fun data => rfl
  rw [run_bind_of_ok (hwrite _)]
  cases setting.machine.writeError w.writes.length with
  | none =>
      exact ⟨_, rfl⟩
  | some e =>
      exact ⟨_, rfl⟩

/-- All files are written, one after the other. -/
theorem run_restoreFiles (files : List Agent.FileEntry) :
    ∀ (w : World) (restored : Restored),
      BaDouProvider.ReadsFrom setting.ext provider w.net.server r →
      ∃ restored' net', (files.foldlM
          (restoreFile setting provider spec.targetPath) restored).run w =
        .ok restored' { net := net'
                        writes := w.writes ++ writesOf setting w.net.server r spec
                          w.net.fate w.net.calls w.writes.length files } := by
  induction files with
  | nil =>
      intro w restored _
      rw [writesOf, List.append_nil]
      exact ⟨restored, w.net, rfl⟩
  | cons f files ih =>
      intro w restored hreads
      obtain ⟨restored₁, hrun⟩ := run_restoreFile hreads restored f
      obtain ⟨restored₂, net₂, hrest⟩ := ih {
        net := skip f.chunks.length w.net
        writes := w.writes ++ [{
          path := targetOf spec.targetPath f
          data := fetched setting w.net.server r w.net.fate w.net.calls f.chunks
          error := setting.machine.writeError w.writes.length }] } restored₁ hreads
      refine ⟨restored₂, net₂, ?_⟩
      rw [List.foldlM_cons, run_bind_of_ok hrun, hrest, List.length_append,
        List.append_assoc]
      rfl

end Runs

section Restore

variable {setting : Setting} {spec : TaskSpec} {w : World} {r : RepositoryId}
variable {v : VersionId} {m : Agent.Manifest}

/-- The restore may read from the repository, sees the version there and gets
its manifest. -/
structure GetsManifest (setting : Setting) (spec : TaskSpec) (net : Net)
    (r : RepositoryId) (v : VersionId) (m : Agent.Manifest) : Prop where
  token : jwtToken setting ≠ ""
  reads : BaDouProvider.ReadsFrom setting.ext (providerFor setting spec.repoId)
    net.server r
  listed : ∃ snap ∈ BaDouProvider.listed setting.ext net.server r,
    snap.versionId = v
  manifest : HasManifest setting.ext setting.codec net.server r v m
  answered : net.fate net.calls = .answered ∧
    net.fate (net.calls + 1) = .answered

/-- A restore that gets the manifest writes its files. -/
theorem run_download_of_manifest (h : GetsManifest setting spec w.net r v m) :
    ∃ restored net', (download setting spec v).run w =
      .ok restored { net := net'
                     writes := w.writes ++ writesOf setting w.net.server r spec
                       w.net.fate (w.net.calls + 2) w.writes.length m.files } := by
  have hread := BaDouProvider.run_readManifest_faulty_eq_ok.mpr
    ⟨h.answered, outcome_readManifest_iff_hasManifest.mpr
      ⟨r, h.reads, h.manifest, h.listed⟩, rfl⟩
  obtain ⟨houtcome, hafter⟩ := run_eq_ok_iff.mp hread
  have hnet := run_onNet ((providerFor setting spec.repoId).readManifest faulty
    setting.ext setting.codec v) w
  rw [houtcome, hafter] at hnet
  obtain ⟨restored, net', hfiles⟩ := @run_restoreFiles setting
    (providerFor setting spec.repoId) r spec m.files
    (w.setNet w.net.tick.tick) { files := 0, bytes := 0 } h.reads
  refine ⟨restored, net', ?_⟩
  unfold download
  rw [if_neg h.token]
  exact (run_bind_of_ok hnet).trans hfiles

/-- A restore that does not get it writes nothing. -/
theorem run_download_of_none (h : ∀ r m, ¬ GetsManifest setting spec w.net r v m) :
    ∃ restored w', (download setting spec v).run w = .ok restored w' ∧
      w'.writes = w.writes := by
  unfold download
  by_cases htoken : jwtToken setting = ""
  · rw [if_pos htoken]
    exact ⟨_, w, rfl, rfl⟩
  · rw [if_neg htoken]
    have hnet := run_onNet ((providerFor setting spec.repoId).readManifest faulty
      setting.ext setting.codec v) w
    cases hout : outcome ((providerFor setting spec.repoId).readManifest faulty
        setting.ext setting.codec v) w.net with
    | ok m =>
        obtain ⟨hanswered, houtcome, -⟩ :=
          BaDouProvider.run_readManifest_faulty_eq_ok.mp
            (run_eq_ok_iff.mpr ⟨hout, rfl⟩)
        obtain ⟨r, hreads, hmanifest, hlisted⟩ :=
          outcome_readManifest_iff_hasManifest.mp houtcome
        exact absurd ⟨htoken, hreads, hlisted, hmanifest, hanswered⟩ (h r m)
    | error e =>
        rw [hout] at hnet
        exact ⟨_, _, (run_bind_of_ok hnet).trans rfl, rfl⟩

/-- The restore can create its target and knows the version. -/
structure Begins (setting : Setting) (spec : TaskSpec) (v : VersionId) : Prop where
  target : setting.machine.createDirAll spec.targetPath = .ok ()
  source : spec.sourcePath ≠ ""
  parsed : setting.ext.parseUuid spec.sourcePath = .ok v.uuid

/-- What a restore reports that has written so much. -/
def restoreCounts (spec : TaskSpec) (restored : Restored) : TaskCounts where
  bytesProcessed := restored.bytes
  bytesStored := restored.bytes
  fileCount := restored.files
  chunkCount := restored.files
  versionId := spec.sourcePath

theorem executeRestore_of_begins (h : Begins setting spec v) :
    executeRestore setting spec = (do
      let restored ← download setting spec v
      return restoreCounts spec restored) := by
  unfold executeRestore
  simp only [h.target, h.parsed, ofResult, pure_bind, if_neg h.source]
  rfl

theorem run_executeRestore_of_begins {v : VersionId} {w' : World}
    {restored : Restored} (hbegins : Begins setting spec v)
    (hrun : (download setting spec v).run w = .ok restored w') :
    (executeRestore setting spec).run w = .ok (restoreCounts spec restored) w' := by
  rw [executeRestore_of_begins hbegins]
  exact (run_bind_of_ok hrun).trans rfl

/-- A restore that does not begin fails. -/
theorem outcome_executeRestore_error (h : ∀ v, ¬ Begins setting spec v) :
    ∃ message, outcome (executeRestore setting spec) w = .error message := by
  unfold executeRestore
  cases htarget : setting.machine.createDirAll spec.targetPath with
  | error e =>
      exact ⟨_, rfl⟩
  | ok u =>
      by_cases hsource : spec.sourcePath = ""
      · simp only [ofResult, pure_bind, if_pos hsource]
        exact ⟨_, rfl⟩
      · cases hparse : setting.ext.parseUuid spec.sourcePath with
        | error e =>
            simp only [ofResult, pure_bind, if_neg hsource]
            exact ⟨_, rfl⟩
        | ok uuid =>
            exact absurd ⟨htarget, hsource, hparse⟩ (h ⟨uuid⟩)

end Restore

end TaskExecutor
end Executor
end HyperBackup
