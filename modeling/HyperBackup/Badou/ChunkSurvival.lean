import HyperBackup.Badou.GcAccounting
import HyperBackup.Badou.RecoveredFiles
import HyperBackup.Lib.Simulation
import HyperBackup.Lib.Vault

/-!
# What a repository keeps

A repository is a vault: commits deposit chunks for their versions, deletions
release them, and a collection sweeps.  Over every sequence of permitted
operations a chunk can be read exactly if no collection found it without
references since it was first written; a collected chunk is not written again.

So what a recovery of a version returns does not change until that version is
deleted.
-/

namespace HyperBackup
namespace Badou
namespace ChunkSurvival

open Lib Lib.Program GcAccounting

/-- What an operation means for the vault. -/
def event : Op → Vault.Event VersionId ChunkHash Bytes
  | .commit _ v _ chunks => .deposit v chunks
  | .deleteVersion _ v => .release v
  | .executeGc _ => .sweep

section Refinement

variable {layout : BadouDataLayout} {repoId : RepositoryId}
variable {st st' : Store} {contents : ChunkHash → Option (Option Bytes)}

/-- The index knows the chunks that were written, and their files are there unless
a collection has removed them. -/
structure Keeps (layout : BadouDataLayout) (repoId : RepositoryId) (st : Store)
    (contents : ChunkHash → Option (Option Bytes)) : Prop where
  known : ∀ h, (st.index.lookup h.toHex).isSome = (contents h).isSome
  files : ∀ h, st.files.lookup (layout.bucketPath repoId h) = (contents h).join
  purged : ∀ h e, st.index.lookup h.toHex = some e → e.status = .purged →
    contents h = some none

theorem keeps_empty : Keeps layout repoId .empty fun _ => none where
  known := fun _ => rfl
  files := fun _ => rfl
  purged := by
    intro h e he
    simp [Store.empty] at he

/-- Only the entries count and the files of chunks. -/
theorem Keeps.of_map (hk : Keeps layout repoId st contents)
    {g : String → ChunkIndexEntry → ChunkIndexEntry}
    (hg : ∀ k e, (g k e).status = .purged → e.status = .purged)
    (hl : ∀ k, st'.index.lookup k = (st.index.lookup k).map (g k))
    (hfiles : st'.files = st.files) : Keeps layout repoId st' contents where
  known := by
    intro h
    rw [hl, Option.isSome_map, hk.known]
  files := by
    intro h
    rw [hfiles, hk.files]
  purged := by
    intro h e' he' hpurged
    rw [hl] at he'
    obtain ⟨e, he, rfl⟩ := Option.map_eq_some_iff.mp he'
    exact hk.purged h e he (hg _ _ hpurged)

theorem keeps_writeChunk (h : ChunkHash) (data : Bytes)
    (hk : Keeps layout repoId st contents) :
    Keeps layout repoId (stateAfter (ChunkStore.writeChunk layout repoId h data) st)
      (Vault.filled contents [(h, data)]) where
  known := by
    intro h'
    rw [ChunkStore.lookup_writeChunk, Vault.filled, Vault.offered]
    by_cases hh : h' = h
    · simp [hh]
    · have hne : h ≠ h' := fun heq => hh heq.symm
      simp [hh, hne, hk.known h']
  files := by
    intro h'
    rw [ChunkStore.lookup_files_writeChunk, ChunkStore.chunkExists, hk.known h,
      Vault.filled, Vault.offered]
    by_cases hh : h' = h
    · subst hh
      cases hc : contents h' with
      | none => simp
      | some c => simp [hk.files, hc]
    · have hne : h ≠ h' := fun heq => hh heq.symm
      have hpath : layout.bucketPath repoId h' ≠ layout.bucketPath repoId h :=
        fun heq => hh (layout.bucketPath_injective repoId heq)
      simp [hne, hpath, hk.files]
  purged := by
    intro h' e' he' hpurged
    rw [ChunkStore.lookup_writeChunk] at he'
    have hold : ∀ e, st.index.lookup h'.toHex = some e → e.status = .purged →
        Vault.filled contents [(h, data)] h' = some none := by
      intro e he hstatus
      rw [Vault.filled, hk.purged h' e he hstatus]
      rfl
    by_cases hh : h' = h
    · subst hh
      rw [if_pos rfl, Option.some.injEq] at he'
      cases he : st.index.lookup h'.toHex with
      | none =>
          rw [he] at he'
          rw [← he'] at hpurged
          cases hpurged
      | some e =>
          rw [he] at he'
          rw [← he'] at hpurged
          exact hold e he hpurged
    · rw [if_neg (by simpa using hh)] at he'
      exact hold e' he' hpurged

theorem keeps_writeChunks (chunks : List (ChunkHash × Bytes))
    (hk : Keeps layout repoId st contents) :
    Keeps layout repoId (stateAfter (ChunkStore.writeChunks layout repoId chunks) st)
      (Vault.filled contents chunks) := by
  rw [ChunkStore.stateAfter_writeChunks]
  induction chunks generalizing st contents with
  | nil =>
      rw [Vault.filled_nil]
      exact hk
  | cons c chunks ih =>
      rw [Vault.filled_cons]
      exact ih (keeps_writeChunk c.1 c.2 hk)

/-- An entry that a deletion has left purged was purged before. -/
theorem status_of_dropped_purged {n : Nat} {e : ChunkIndexEntry}
    (h : (e.dropped n).status = .purged) : e.status = .purged := by
  induction n with
  | zero => exact h
  | succ n ih =>
      rw [ChunkIndexEntry.dropped_succ, ChunkIndexEntry.status_decremented] at h
      split at h
      · cases h
      · exact ih h

/-- A collection removes the files of the chunks without references; where such a
chunk is not pending, its file is gone already. -/
theorem keeps_executeGc {ledger : Ledger VersionId ChunkHash}
    (hc : Counts layout repoId st ledger.occurrences)
    (hk : Keeps layout repoId st contents)
    (order : IterOrder (String × ChunkIndexEntry)) :
    Keeps layout repoId (stateAfter (GcExecutor.executeGc order) st)
      (Vault.swept ledger contents) := by
  obtain ⟨report, -, -, -, -, hlookup, hfiles⟩ := exists_of_returns
    (GcExecutor.returns_executeGc order hc.exists_toHex)
  have hcandidate : ∀ h, layout.bucketPath repoId h ∈
      (st.index.gcCandidates order).map (fun c => c.2.path) ↔
        ∃ e, st.index.lookup h.toHex = some e ∧ e.isCandidate = true := by
    intro h
    constructor
    · intro hmem
      obtain ⟨⟨k, e⟩, hin, hpath⟩ := List.mem_map.mp hmem
      obtain ⟨he, hcand⟩ := (BadouIndex.mem_gcCandidates _ _ _).mp hin
      obtain ⟨h', rfl, hpath'⟩ := hc.addressed k e he
      obtain rfl := layout.bucketPath_injective repoId (hpath'.symm.trans hpath)
      exact ⟨e, he, hcand⟩
    · rintro ⟨e, he, hcand⟩
      obtain ⟨h', hkey, hpath⟩ := hc.addressed _ e he
      obtain rfl := ChunkHash.toHex_injective hkey
      exact List.mem_map.mpr ⟨(h.toHex, e),
        (BadouIndex.mem_gcCandidates _ _ _).mpr ⟨he, hcand⟩, hpath⟩
  have hidle : ∀ h e, st.index.lookup h.toHex = some e →
      (ledger.occurrences h = 0 ↔ e.refCount = 0) := by
    intro h e he
    rw [← hc.known h e he, ← UInt32.toNat_inj, UInt32.toNat_zero]
  constructor
  · intro h
    rw [hlookup, Option.isSome_map, hk.known, Vault.swept]
    split
    · rw [Option.isSome_map]
    · rfl
  · intro h
    rw [hfiles, hk.files, Vault.swept]
    cases he : st.index.lookup h.toHex with
    | none =>
        have hnone : contents h = none := by
          have hknown := hk.known h
          rw [he] at hknown
          simpa using hknown.symm
        simp [hnone]
    | some e =>
        by_cases hcand : e.isCandidate = true
        · have hzero := (hidle h e he).mpr (ChunkIndexEntry.isCandidate_iff.mp hcand).2
          rw [if_pos ((hcandidate h).mpr ⟨e, he, hcand⟩), if_pos hzero]
          cases contents h with
          | none => rfl
          | some c => rfl
        · have hnot : layout.bucketPath repoId h ∉
              (st.index.gcCandidates order).map (fun c => c.2.path) := by
            rw [hcandidate]
            rintro ⟨e', he', hcand'⟩
            obtain rfl := Option.some.inj (he.symm.trans he')
            exact hcand hcand'
          rw [if_neg hnot]
          by_cases hzero : ledger.occurrences h = 0
          · have hstatus := (hc.idle _ e he ((hidle h e he).mp hzero)).resolve_left
              fun hpending => hcand (ChunkIndexEntry.isCandidate_iff.mpr
                ⟨hpending, (hidle h e he).mp hzero⟩)
            rw [if_pos hzero, hk.purged h e he hstatus]
            rfl
          · rw [if_neg hzero]
  · intro h e' he' hpurged
    rw [hlookup] at he'
    obtain ⟨e, he, rfl⟩ := Option.map_eq_some_iff.mp he'
    by_cases hcand : e.isCandidate = true
    · have hzero := (hidle h e he).mpr (ChunkIndexEntry.isCandidate_iff.mp hcand).2
      have hknown : (contents h).isSome := by
        rw [← hk.known, he]
        rfl
      obtain ⟨c, hsome⟩ := Option.isSome_iff_exists.mp hknown
      rw [Vault.swept, if_pos hzero, hsome]
      rfl
    · rw [if_neg hcand] at hpurged
      rw [Vault.swept, hk.purged h e he hpurged]
      split
      · rfl
      · rfl

/-- The repository is in the state of the vault. -/
structure Refines (layout : BadouDataLayout) (repoId : RepositoryId) (repo : Repo)
    (vault : Vault VersionId ChunkHash Bytes) : Prop where
  balanced : Balanced layout repoId repo vault.books
  keeps : Keeps layout repoId repo.store vault.contents

variable {repo : Repo} {vault : Vault VersionId ChunkHash Bytes} {op : Op} {ops : List Op}

theorem refines_new : Refines layout repoId .new Vault.empty :=
  ⟨balanced_new, keeps_empty⟩

/-- A permitted operation does to the repository what its event does to the vault. -/
theorem refines_step (hr : Refines layout repoId repo vault) (hp : Permitted repo op) :
    Refines layout repoId (step layout repoId repo op) (vault.step (event op)) := by
  have hbalanced := balanced_step hr.balanced hp
  cases op with
  | commit now v snapshot chunks =>
      refine ⟨hbalanced, ?_⟩
      refine (keeps_writeChunks chunks hr.keeps).of_map (g := fun _ e => e)
        (fun _ _ h => h) (fun k => ?_) rfl
      exact (Option.map_id' ..).symm
  | deleteVersion now v =>
      refine ⟨hbalanced, ?_⟩
      obtain ⟨version, hversion, hmutable⟩ := hp
      obtain ⟨result, -, -, -, hlookup⟩ := exists_of_returns
        (VersionDeleter.returns_deleteVersion hversion hmutable
          fun k hk => hr.balanced.isSome_lookup hk)
      exact hr.keeps.of_map (g := fun k => .dropped _)
        (fun _ _ h => status_of_dropped_purged h) hlookup rfl
  | executeGc order =>
      exact ⟨hbalanced, keeps_executeGc hr.balanced.counts hr.keeps order⟩

theorem refines_run (ops : List Op) :
    ∀ {repo : Repo} {vault : Vault VersionId ChunkHash Bytes},
      Refines layout repoId repo vault → PermittedRun layout repoId repo ops →
      Refines layout repoId (run layout repoId repo ops) (vault.run (ops.map event)) := by
  induction ops with
  | nil => exact fun hr _ => hr
  | cons op ops ih => exact fun hr hp => ih (refines_step hr hp.1) hp.2

end Refinement

section Reading

variable {layout : BadouDataLayout} {repoId : RepositoryId}
variable {blake3 : Bytes → ChunkHash} {st st' : Store}
variable {contents contents' : ChunkHash → Option (Option Bytes)}

/-- What is read of a chunk depends on its contents alone. -/
theorem readChunk_congr {h : ChunkHash} (ha : st.Addressed layout repoId)
    (ha' : st'.Addressed layout repoId) (hk : Keeps layout repoId st contents)
    (hk' : Keeps layout repoId st' contents') (hsame : contents h = contents' h) :
    ChunkStore.readChunk blake3 st h = ChunkStore.readChunk blake3 st' h := by
  have hpath : ∀ {st : Store} {e : ChunkIndexEntry}, st.Addressed layout repoId →
      st.index.lookup h.toHex = some e → e.path = layout.bucketPath repoId h := by
    intro st e ha he
    obtain ⟨h', hkey, hpath⟩ := ha _ e he
    obtain rfl := ChunkHash.toHex_injective hkey
    exact hpath
  have hisSome : (st.index.lookup h.toHex).isSome = (st'.index.lookup h.toHex).isSome := by
    rw [hk.known, hk'.known, hsame]
  have hfile : st.files.lookup (layout.bucketPath repoId h) =
      st'.files.lookup (layout.bucketPath repoId h) := by
    rw [hk.files, hk'.files, hsame]
  unfold ChunkStore.readChunk
  cases he : st.index.lookup h.toHex with
  | none =>
      rw [he] at hisSome
      have he' : st'.index.lookup h.toHex = none := by
        simpa using hisSome.symm
      rw [he']
  | some e =>
      rw [he] at hisSome
      obtain ⟨e', he'⟩ := Option.isSome_iff_exists.mp hisSome.symm
      have hread : st.readFile e.path = st'.readFile e'.path := by
        unfold Store.readFile
        rw [hpath ha he, hpath ha' he', hfile]
      simp only [he', hread]

/-- A chunk is read with the contents that the vault has. -/
theorem Keeps.readChunk_eq_ok_iff {h : ChunkHash} {data : Bytes}
    (ha : st.Addressed layout repoId) (hk : Keeps layout repoId st contents) :
    ChunkStore.readChunk blake3 st h = .ok data ↔
      contents h = some (some data) ∧ blake3 data = h := by
  rw [ChunkStore.readChunk_eq_ok_iff_of_addressed ha, ChunkStore.chunkExists, hk.known,
    hk.files]
  cases contents h with
  | none => simp
  | some c => simp

end Reading

section Runs

variable {layout : BadouDataLayout} {repoId : RepositoryId}
variable {blake3 : Bytes → ChunkHash} {ops ops' : List Op} {h : ChunkHash} {data : Bytes}

/-- The bytes that a commit has for a chunk first. -/
def committed (h : ChunkHash) : Op → Option Bytes
  | .commit _ _ _ chunks => (chunks.find? fun c => c.1 = h).map Prod.snd
  | .deleteVersion _ _ => none
  | .executeGc _ => none

def firstCommitted (ops : List Op) (h : ChunkHash) : Option Bytes :=
  ops.findSome? (committed h)

/-- At every collection after the first commit of the chunk some version that is not
deleted refers to it. -/
def NeverIdle (ops : List Op) (h : ChunkHash) : Prop :=
  ∀ before order after, ops = before ++ .executeGc order :: after →
    (firstCommitted before h).isSome → (books before).occurrences h ≠ 0

theorem offers_event (h : ChunkHash) (op : Op) : (event op).offers h = committed h op := by
  cases op with
  | commit now v snapshot chunks => rfl
  | deleteVersion now v => rfl
  | executeGc order => rfl

theorem firstOffer_map_event (ops : List Op) (h : ChunkHash) :
    Vault.firstOffer (ops.map event) h = firstCommitted ops h := by
  unfold Vault.firstOffer firstCommitted
  rw [List.findSome?_map]
  exact congrArg (fun f => ops.findSome? f) (funext (offers_event h))

theorem books_run (ops : List Op) :
    ∀ vault : Vault VersionId ChunkHash Bytes,
      (vault.run (ops.map event)).books = ops.foldl Op.post vault.books := by
  induction ops with
  | nil => exact fun _ => rfl
  | cons op ops ih =>
      intro vault
      have hstep : (vault.step (event op)).books = op.post vault.books := by
        cases op with
        | commit now v snapshot chunks => rfl
        | deleteVersion now v => rfl
        | executeGc order => rfl
      rw [List.foldl_cons, ← hstep]
      exact ih _

theorem spared_map_event (ops : List Op) (h : ChunkHash) :
    Vault.Spared (ops.map event) h ↔ NeverIdle ops h := by
  have hbooks : ∀ before : List Op,
      (Vault.empty.run (before.map event)).books.occurrences h =
        (books before).occurrences h :=
    fun before => congrArg (fun ledger => Ledger.occurrences ledger h)
      (books_run before Vault.empty)
  constructor
  · intro hspared before order after heq hsome
    rw [← hbooks]
    refine hspared (before.map event) (after.map event) ?_ ?_
    · rw [heq, List.map_append]
      rfl
    · rwa [firstOffer_map_event]
  · intro hidle before after heq hsome
    obtain ⟨before', rest, hops, rfl, hrest⟩ := List.map_eq_append_iff.mp heq
    obtain ⟨op, after', rfl, hop, rfl⟩ := List.map_eq_cons_iff.mp hrest
    rw [hbooks]
    rw [firstOffer_map_event] at hsome
    cases op with
    | commit now v snapshot chunks => cases hop
    | deleteVersion now v => cases hop
    | executeGc order => exact hidle before' order after' hops hsome

/-- A chunk is read exactly if no collection found it without references since it
was first committed, and it is read as it was committed first. -/
theorem readChunk_run_eq_ok_iff (layout : BadouDataLayout) (repoId : RepositoryId)
    (blake3 : Bytes → ChunkHash) (ops : List Op) (h : ChunkHash) (data : Bytes)
    (hops : PermittedRun layout repoId .new ops) :
    ChunkStore.readChunk blake3 (run layout repoId .new ops).store h = .ok data ↔
      firstCommitted ops h = some data ∧ blake3 data = h ∧ NeverIdle ops h := by
  have hr := refines_run ops refines_new hops
  rw [hr.keeps.readChunk_eq_ok_iff hr.balanced.counts.addressed,
    Vault.contents_run_eq_some_iff, firstOffer_map_event, spared_map_event, and_assoc,
    and_comm (b := blake3 data = h)]

theorem permittedRun_append (ops ops' : List Op) :
    ∀ repo : Repo, PermittedRun layout repoId repo (ops ++ ops') ↔
      PermittedRun layout repoId repo ops ∧
        PermittedRun layout repoId (run layout repoId repo ops) ops' := by
  induction ops with
  | nil => simp [PermittedRun, run]
  | cons op ops ih =>
      intro repo
      exact (and_congr_right fun _ => ih _).trans and_assoc.symm

/-- A version that is there is not committed again. -/
theorem owner_event_of_permitted {repo : Repo} {ledger : Ledger VersionId ChunkHash}
    {v : VersionId} {op : Op} (hb : Balanced layout repoId repo ledger)
    (hv : (ledger.lookup v).isSome) (hp : Permitted repo op)
    (hkept : ∀ now, op ≠ .deleteVersion now v) : (event op).owner ≠ some v := by
  cases op with
  | commit now v' snapshot chunks =>
      intro howner
      obtain rfl := Option.some.inj howner
      have hold := hb.owners v' hv
      rw [hp.1] at hold
      cases hold
  | deleteVersion now v' =>
      intro howner
      obtain rfl := Option.some.inj howner
      exact hkept now rfl
  | executeGc order =>
      intro howner
      cases howner

theorem lookup_post_of_owner_ne {ledger : Ledger VersionId ChunkHash} {v : VersionId}
    {op : Op} (howner : (event op).owner ≠ some v) :
    (op.post ledger).lookup v = ledger.lookup v := by
  cases op with
  | commit now v' snapshot chunks =>
      refine (HashMap.lookup_insert_of _ _ _ _).trans (if_neg fun heq => ?_)
      exact howner (congrArg some heq.symm)
  | deleteVersion now v' =>
      refine (HashMap.lookup_erase_of _ _ _).trans (if_neg fun heq => ?_)
      exact howner (congrArg some heq.symm)
  | executeGc order => rfl

/-- In a run that does not delete a version, no operation is about that version. -/
theorem owner_event_of_permittedRun {v : VersionId} :
    ∀ {repo : Repo} {ledger : Ledger VersionId ChunkHash},
      Balanced layout repoId repo ledger → (ledger.lookup v).isSome →
      PermittedRun layout repoId repo ops → (∀ now, .deleteVersion now v ∉ ops) →
      ∀ e ∈ ops.map event, e.owner ≠ some v := by
  induction ops with
  | nil =>
      intro repo ledger _ _ _ _ e he
      cases he
  | cons op ops ih =>
      intro repo ledger hb hv hp hkept e he
      have hop : (event op).owner ≠ some v :=
        owner_event_of_permitted hb hv hp.1 fun now heq =>
          hkept now (heq ▸ List.mem_cons_self)
      rcases List.mem_cons.mp he with hfirst | hrest
      · rw [hfirst]
        exact hop
      · refine ih (balanced_step hb hp.1) ?_ hp.2 ?_ e hrest
        · rw [lookup_post_of_owner_ne hop]
          exact hv
        · exact fun now hmem => hkept now (List.mem_cons_of_mem _ hmem)

/-- A chunk of a version is read in the same way until that version is deleted. -/
theorem readChunk_run_append {v : VersionId} {chunks : List ChunkHash}
    (hops : PermittedRun layout repoId .new (ops ++ ops'))
    (hv : (books ops).lookup v = some chunks) (hkept : ∀ now, .deleteVersion now v ∉ ops')
    (hh : h ∈ chunks) :
    ChunkStore.readChunk blake3 (run layout repoId .new (ops ++ ops')).store h =
      ChunkStore.readChunk blake3 (run layout repoId .new ops).store h := by
  obtain ⟨hbefore, hafter⟩ := (permittedRun_append ops ops' _).mp hops
  have hr := refines_run ops refines_new hbefore
  have hr' := refines_run ops' hr hafter
  have hlookup : (Vault.empty.run (ops.map event)).books.lookup v = some chunks :=
    (congrArg (fun ledger => AList.lookup v ledger) (books_run ops Vault.empty)).trans hv
  have hevents := owner_event_of_permittedRun hr.balanced
    (Option.isSome_iff_exists.mpr ⟨_, hlookup⟩) hafter hkept
  have hknown : ((Vault.empty.run (ops.map event)).contents h).isSome := by
    rw [← hr.keeps.known]
    refine hr.balanced.isSome_lookup (v := v) ?_
    rw [hr.balanced.lists, hlookup]
    exact List.mem_map_of_mem hh
  rw [show run layout repoId .new (ops ++ ops') =
    run layout repoId (run layout repoId .new ops) ops' from List.foldl_append]
  exact readChunk_congr hr'.balanced.counts.addressed hr.balanced.counts.addressed
    hr'.keeps hr.keeps (Vault.contents_run_of_mem hh hevents hlookup hknown)

/-- The chunks of the snapshot are among those that the version refers to. -/
def RefersTo (json : Json) (catalog : Catalog) (snapshotId : Uuid)
    (chunks : List ChunkHash) : Prop :=
  ∀ snapshot, SnapshotStore.readSnapshot json catalog snapshotId = .ok snapshot →
    ∀ entry ∈ snapshot.fileTree.entries, ∀ h ∈ entry.chunkHashes, h ∈ chunks

theorem recoverEntry_congr {st st' : Store} {fileFilter : Option (List String)}
    {entry : FileEntry} (hread : ∀ h ∈ entry.chunkHashes,
      ChunkStore.readChunk blake3 st h = ChunkStore.readChunk blake3 st' h)
    (result : RecoveryResult) :
    RecoveryEngine.recoverEntry blake3 st fileFilter result entry =
      RecoveryEngine.recoverEntry blake3 st' fileFilter result entry := by
  have hfile : RecoveryEngine.recoverFile blake3 st entry =
      RecoveryEngine.recoverFile blake3 st' entry := by
    unfold RecoveryEngine.recoverFile
    rw [Simulation.foldlM_congr fun h hmem acc => ?_]
    unfold RecoveryEngine.recoverChunk
    rw [hread h hmem]
  unfold RecoveryEngine.recoverEntry
  rw [hfile]

/-- A recovery of a version returns the same, file by file and error by error, until
that version is deleted, whatever is committed, deleted and collected meanwhile. -/
theorem recover_run_append {v : VersionId} {chunks : List ChunkHash} {json : Json}
    {catalog : Catalog} {request : RecoveryRequest}
    (hops : PermittedRun layout repoId .new (ops ++ ops'))
    (hv : (books ops).lookup v = some chunks) (hkept : ∀ now, .deleteVersion now v ∉ ops')
    (hrefers : RefersTo json catalog request.snapshotId chunks) :
    RecoveryEngine.recover blake3 json (run layout repoId .new (ops ++ ops')).store catalog
        request =
      RecoveryEngine.recover blake3 json (run layout repoId .new ops).store catalog
        request := by
  unfold RecoveryEngine.recover
  cases hsnapshot : SnapshotStore.readSnapshot json catalog request.snapshotId with
  | error e => rfl
  | ok snapshot =>
      have hentries := hrefers snapshot hsnapshot
      simp only
      rw [List.foldl_ext _ _ _ fun result entry hmem => recoverEntry_congr
        (fun h hh => readChunk_run_append hops hv hkept (hentries entry hmem h hh)) result]

end Runs

section Example

open RecoveryEngine

def twoChunks : List (ChunkHash × Bytes) :=
  [(abcHash, [0x61, 0x62, 0x63]), (.ofEmpty, [])]

def firstOps : List Op :=
  [.commit 0 ⟨4⟩ 5 twoChunks]

/-- A second version with the same chunks comes and goes. -/
def laterOps : List Op :=
  [.commit 0 ⟨6⟩ 7 twoChunks, .deleteVersion 0 ⟨6⟩, .executeGc .asStored]

theorem permittedRun_laterOps :
    PermittedRun ⟨"/data"⟩ ⟨7⟩ .new (firstOps ++ laterOps) := by
  have hlist : ∀ h : ChunkHash, (twoChunks.map Prod.fst).count h ≤ 2 :=
    fun h => List.count_le_length
  have hfirst : PermittedRun ⟨"/data"⟩ ⟨7⟩ .new firstOps := by
    refine ⟨⟨rfl, fun h => ?_⟩, trivial⟩
    have hzero : ChunkStore.refCount Repo.new.store h = 0 := rfl
    rw [hzero, UInt32.toNat_zero]
    have hle := hlist h
    omega
  have hbalanced := balanced_run firstOps balanced_new hfirst
  refine (permittedRun_append _ _ _).mpr ⟨hfirst, ⟨rfl, fun h => ?_⟩, ⟨_, rfl, rfl⟩,
    trivial, trivial⟩
  have hinsert : Ledger.occurrences
      ((∅ : Ledger VersionId ChunkHash).insert ⟨4⟩ (twoChunks.map Prod.fst)) h =
        (twoChunks.map Prod.fst).count h + 0 :=
    Ledger.occurrences_insert rfl _ h
  have hcount : (ChunkStore.refCount
      (run ⟨"/data"⟩ ⟨7⟩ .new firstOps).store h).toNat =
        (twoChunks.map Prod.fst).count h + 0 :=
    (hbalanced.counts.toNat_refCount h).trans hinsert
  have hle := hlist h
  omega

theorem readChunk_run_eq_ok_laterOps :
    ChunkStore.readChunk abcBlake3
      (run ⟨"/data"⟩ ⟨7⟩ .new (firstOps ++ laterOps)).store abcHash =
        .ok [0x61, 0x62, 0x63] := by
  refine (readChunk_run_eq_ok_iff _ _ _ _ _ _ permittedRun_laterOps).mpr ⟨rfl, rfl, ?_⟩
  rw [← spared_map_event]
  refine (@Vault.spared_concat VersionId ChunkHash Bytes _ _
    ((firstOps ++ laterOps.take 2).map event) .sweep _).mpr ⟨?_, fun _ _ => by decide⟩
  intro before after heq
  have hmem : Vault.Event.sweep ∈ (firstOps ++ laterOps.take 2).map event := by
    rw [heq]
    simp
  simp [firstOps, laterOps, event] at hmem

theorem recover_run_append_laterOps :
    recover abcBlake3 damagedJson
        (run ⟨"/data"⟩ ⟨7⟩ .new (firstOps ++ laterOps)).store damagedCatalog
        ⟨damagedSnapshot.snapshotId, none⟩ =
      recover abcBlake3 damagedJson (run ⟨"/data"⟩ ⟨7⟩ .new firstOps).store damagedCatalog
        ⟨damagedSnapshot.snapshotId, none⟩ := by
  have hjson : damagedJson.snapshotFromSlice
      (Hex.utf8 (Json.snapshot damagedSnapshot)) = .ok damagedSnapshot := by
    rw [damagedJson, Json.withReaders_snapshotFromSlice, if_pos rfl]
  have hread : SnapshotStore.readSnapshot damagedJson damagedCatalog
      damagedSnapshot.snapshotId = .ok damagedSnapshot :=
    SnapshotStore.readSnapshot_of_lookup (AList.lookup_insert _) hjson
  have hlisted : (books firstOps).lookup ⟨4⟩ = some [abcHash, .ofEmpty] := rfl
  refine recover_run_append permittedRun_laterOps hlisted ?_ ?_
  · intro now hmem
    simp [laterOps] at hmem
  · intro snapshot hsnapshot entry hentry h hh
    obtain rfl := Except.ok.inj (hread.symm.trans hsnapshot)
    simp only [damagedSnapshot, List.mem_cons, List.not_mem_nil, or_false] at hentry
    rcases hentry with hentry | hentry
    · rw [hentry] at hh
      simpa using Or.inl hh
    · rw [hentry] at hh
      exact hh

end Example

end ChunkSurvival
end Badou
end HyperBackup
