import HyperBackup.Badou.Gc

/-!
# A deletion that fails on the way

Every update of the index writes the index file, and that can fail when the
update has been made already.  A deletion makes one update after the other and
takes none of them back.

A deletion that fails leaves the index as it was exactly if it had met only
chunks that nothing refers to and that wait for collection already.
-/

namespace HyperBackup
namespace Badou
namespace FailedDeletion

open Lib Lib.Program VersionDeleter

/-- Why the index file is not written. -/
inductive PersistError
  | io (e : String)
  | serde (e : String)
deriving DecidableEq

/-- Why a deletion ends: for a reason of its own, or because of the index file. -/
inductive Error
  | delete (e : DeleteError)
  | persist (e : PersistError)
deriving DecidableEq

/-- An operation of the index has failed. -/
def Error.isIndex : Error → Bool
  | .delete (.index _) => true
  | .delete _ => false
  | .persist _ => true

/-- The index in memory and how often its file has been written. -/
structure WrittenIndex where
  index : BadouIndex
  writes : Nat

section Operations

variable (disk : Nat → Option PersistError)

/-- Write the index file; `disk` says which write fails. -/
def persist : EStateM Error WrittenIndex Unit := do
  let s ← get
  set { s with writes := s.writes + 1 }
  match disk s.writes with
  | none => return ()
  | some e => throw (.persist e)

/-- Update the index in memory, then write its file. -/
def updateIndex {α : Type} (f : BadouIndex → Except IndexError (α × BadouIndex)) :
    EStateM Error WrittenIndex α := do
  let s ← get
  match f s.index with
  | .error e => throw (.delete (.index e))
  | .ok (a, index) =>
      set { s with index := index }
      persist disk
      return a

def decrementRefCount (chunkHash : String) : EStateM Error WrittenIndex UInt32 :=
  updateIndex disk fun index => index.decrementRefCount chunkHash

def updateStatus (chunkHash : String) (status : ChunkIndexStatus) :
    EStateM Error WrittenIndex Unit :=
  updateIndex disk fun index => index.updateStatus chunkHash status

def registerVersionChunks (versionId : Uuid) (chunkHashes : List String) :
    EStateM Error WrittenIndex Unit :=
  updateIndex disk fun index =>
    .ok ((), index.registerVersionChunks versionId chunkHashes)

/-- Take one reference away and record what became of the chunk. -/
def removeReference (result : DeleteResult) (chunkHashHex : String) :
    EStateM Error WrittenIndex DeleteResult := do
  let count ← decrementRefCount disk chunkHashHex
  let result :=
    { result with removedChunks := result.removedChunks ++ [chunkHashHex] }
  if count = 0 then
    updateStatus disk chunkHashHex .gcPending
    return { result with gcCandidates := result.gcCandidates ++ [chunkHashHex] }
  else
    return { result with keptShared := result.keptShared ++ [chunkHashHex] }

def newResult (versionId : VersionId) : DeleteResult where
  versionId := versionId
  removedChunks := []
  gcCandidates := []
  keptShared := []

def deleteVersion (ops : VersionOps) (now : DateTime) (versionId : VersionId) :
    EStateM Error WrittenIndex DeleteResult := do
  let version ← ofResult (fun e => .delete (.versionOps e)) (ops.getVersion versionId)
  if isImmutable now version then
    throw (.delete (.immutable versionId))
  let chunkHashes := (← get).index.getVersionChunks versionId.uuid
  let result ← chunkHashes.foldlM (removeReference disk) (newResult versionId)
  registerVersionChunks disk versionId.uuid []
  return result

end Operations

section Claims

/-- Counts and states of all chunks and the list of the version are the same. -/
structure Unchanged (v : VersionId) (before after : BadouIndex) : Prop where
  chunks : ∀ k, (after.lookup k).map (fun e => (e.refCount, e.status)) =
    (before.lookup k).map fun e => (e.refCount, e.status)
  list : after.getVersionChunks v.uuid = before.getVersionChunks v.uuid

/-- Every chunk has lost one reference for each time the list has it. -/
def Released (hashes : List String) (before after : BadouIndex) : Prop :=
  ∀ k, (after.lookup k).map (fun e => e.refCount.toNat) =
    (before.lookup k).map fun e => e.refCount.toNat - hashes.count k

/-- If an operation of the index fails, the deletion has changed nothing, and
repeating it takes every reference once. -/
def AllOrNothing (disk : Nat → Option PersistError) (ops : VersionOps)
    (now : DateTime) (v : VersionId) (index : BadouIndex) : Prop :=
  ∀ e left, (deleteVersion disk ops now v).run ⟨index, 0⟩ = .error e left →
    e.isIndex = true →
    Unchanged v index left.index ∧
      ∀ disk' now' result s,
        (deleteVersion disk' ops now' v).run ⟨left.index, 0⟩ = .ok result s →
        Released (index.getVersionChunks v.uuid) index s.index

/-- The version is unknown or still locked. -/
def Refused (ops : VersionOps) (now : DateTime) (v : VersionId) : Prop :=
  ∀ version, ops.versions.lookup v = some version →
    isImmutable now version = true

/-- How often the index file is written when one reference is taken away: again if
none is left. -/
def writesOf (e : ChunkIndexEntry) : Nat :=
  if e.decremented.refCount = 0 then 2 else 1

/-- The same when the references of these chunks are taken away. -/
def writesFor (index : BadouIndex) : List String → Nat
  | [] => 0
  | k :: rest =>
      match index.lookup k with
      | none => 0
      | some e => writesOf e + writesFor (index.register k e.decremented) rest

/-- Nothing refers to the chunk and it waits for collection. -/
def Idle (index : BadouIndex) (k : String) : Prop :=
  ∃ e, index.lookup k = some e ∧ e.isCandidate = true

/-- Every chunk is known and no write fails. -/
def Succeeds (disk : Nat → Option PersistError) (index : BadouIndex)
    (hashes : List String) : Prop :=
  (∀ k ∈ hashes, (index.lookup k).isSome) ∧
    ∀ m < writesFor index hashes + 1, disk m = none

/-- A write fails, or a chunk is unknown, when only idle chunks have come. -/
def StopsIdle (disk : Nat → Option PersistError) (index : BadouIndex)
    (hashes : List String) : Prop :=
  ∃ done rest, hashes = done ++ rest ∧ (∀ k ∈ done, Idle index k) ∧
    ((∃ m < 2 * done.length, disk m ≠ none) ∨
      ∃ k, rest.head? = some k ∧ index.lookup k = none)

end Claims

section Steps

variable {disk : Nat → Option PersistError} {s : WrittenIndex}
variable {k : String} {e : ChunkIndexEntry}

theorem run_updateIndex_of_error {α : Type}
    {f : BadouIndex → Except IndexError (α × BadouIndex)} {err : IndexError}
    (h : f s.index = .error err) :
    (updateIndex disk f).run s = .error (.delete (.index err)) s := by
  simp only [updateIndex, EStateM.run_bind, EStateM.run_get, h]
  rfl

theorem run_updateIndex_of_written {α : Type}
    {f : BadouIndex → Except IndexError (α × BadouIndex)} {a : α}
    {index : BadouIndex} (h : f s.index = .ok (a, index))
    (hdisk : disk s.writes = none) :
    (updateIndex disk f).run s = .ok a ⟨index, s.writes + 1⟩ := by
  simp only [updateIndex, persist, EStateM.run_bind, EStateM.run_get, h,
    EStateM.run_set, hdisk, EStateM.run_pure]

theorem run_updateIndex_of_fault {α : Type}
    {f : BadouIndex → Except IndexError (α × BadouIndex)} {a : α}
    {index : BadouIndex} {err : PersistError} (h : f s.index = .ok (a, index))
    (hdisk : disk s.writes = some err) :
    (updateIndex disk f).run s =
      .error (.persist err) ⟨index, s.writes + 1⟩ := by
  simp only [updateIndex, persist, EStateM.run_bind, EStateM.run_get, h,
    EStateM.run_set, hdisk]
  rfl

theorem register_withStatus_decremented (index : BadouIndex)
    (h0 : e.decremented.refCount = 0) :
    (index.register k e.decremented).register k
        (e.decremented.withStatus .gcPending) =
      index.register k e.decremented := by
  have hsame : e.decremented.withStatus .gcPending = e.decremented := by
    simp only [ChunkIndexEntry.decremented] at h0 ⊢
    simp [ChunkIndexEntry.withStatus, h0]
  rw [hsame]
  simp only [BadouIndex.register, AList.insert_insert]

theorem run_removeReference_unknown (result : DeleteResult)
    (h : s.index.lookup k = none) :
    (removeReference disk result k).run s =
      .error (.delete (.index (.notFound k))) s := by
  unfold removeReference decrementRefCount
  exact run_bind_of_error (run_updateIndex_of_error
    (BadouIndex.decrementRefCount_of_lookup_none h))

/-- What a removal comes to: the reference is gone whether or not the writing
of the file fails. -/
theorem run_removeReference_known (result : DeleteResult)
    (h : s.index.lookup k = some e) :
    ((∀ m < writesOf e, disk (s.writes + m) = none) ∧
      ∃ result', (removeReference disk result k).run s =
        .ok result' ⟨s.index.register k e.decremented, s.writes + writesOf e⟩) ∨
    ((∃ m < writesOf e, disk (s.writes + m) ≠ none) ∧
      ∃ err writes, (removeReference disk result k).run s =
        .error (.persist err) ⟨s.index.register k e.decremented, writes⟩) := by
  have hdec := BadouIndex.decrementRefCount_of_lookup h
  have hlookup : (s.index.register k e.decremented).lookup k =
      some e.decremented := by
    simp
  unfold removeReference decrementRefCount writesOf
  cases hfirst : disk s.writes with
  | some err =>
      refine Or.inr ⟨⟨0, by split <;> omega, by simp [hfirst]⟩, err,
        s.writes + 1, ?_⟩
      exact run_bind_of_error (run_updateIndex_of_fault hdec hfirst)
  | none =>
      rw [run_bind_of_ok (run_updateIndex_of_written hdec hfirst)]
      by_cases h0 : e.decremented.refCount = 0
      · have hstatus := BadouIndex.updateStatus_of_lookup hlookup .gcPending
        rw [register_withStatus_decremented s.index h0] at hstatus
        simp only [h0, if_true]
        unfold updateStatus
        cases hsecond : disk (s.writes + 1) with
        | some err =>
            refine Or.inr ⟨⟨1, by omega, by simp [hsecond]⟩, err,
              s.writes + 2, ?_⟩
            exact run_bind_of_error (run_updateIndex_of_fault hstatus hsecond)
        | none =>
            rw [run_bind_of_ok (run_updateIndex_of_written hstatus hsecond)]
            refine Or.inl ⟨fun m hm => ?_, _, rfl⟩
            obtain rfl | rfl : m = 0 ∨ m = 1 := by omega
            · exact hfirst
            · exact hsecond
      · simp only [h0, if_false]
        refine Or.inl ⟨fun m hm => ?_, _, rfl⟩
        obtain rfl : m = 0 := by omega
        exact hfirst

end Steps

section Removals

variable {disk : Nat → Option PersistError} {s : WrittenIndex}
variable {index after : BadouIndex} {k : String} {e : ChunkIndexEntry}
variable {hashes : List String}

/-- The references of these chunks are gone and nothing else has changed. -/
structure Dropped (hashes : List String) (before after : BadouIndex) : Prop where
  lookup : ∀ k, after.lookup k =
    (before.lookup k).map (.dropped (hashes.count k))
  lists : after.versionChunks = before.versionChunks

theorem Dropped.nil (index : BadouIndex) : Dropped [] index index where
  lookup := fun k => by simp
  lists := rfl

theorem Dropped.cons (h : index.lookup k = some e)
    (hdropped : Dropped hashes (index.register k e.decremented) after) :
    Dropped (k :: hashes) index after where
  lists := hdropped.lists
  lookup := by
    intro k'
    rw [hdropped.lookup k', BadouIndex.lookup_register]
    by_cases hk : k' = k
    · subst hk
      simp [h, ChunkIndexEntry.dropped]
    · rw [if_neg hk, List.count_cons_of_ne (Ne.symm hk)]

theorem isSome_lookup_register {e' : ChunkIndexEntry}
    (h : index.lookup k = some e) (k' : String) :
    ((index.register k e').lookup k').isSome = (index.lookup k').isSome := by
  by_cases hk : k' = k
  · simp [hk, h]
  · simp [hk]

theorem forall_isSome_cons {e' : ChunkIndexEntry} (h : index.lookup k = some e) :
    (∀ k' ∈ k :: hashes, (index.lookup k').isSome) ↔
      ∀ k' ∈ hashes, ((index.register k e').lookup k').isSome := by
  simp only [isSome_lookup_register h, List.forall_mem_cons, h, Option.isSome_some,
    true_and]

theorem writesFor_cons (h : index.lookup k = some e) :
    writesFor index (k :: hashes) =
      writesOf e + writesFor (index.register k e.decremented) hashes := by
  rw [writesFor, h]

theorem forall_lt_add {n a b : Nat} (ha : ∀ m < a, disk (n + m) = none)
    (hb : ∀ m < b, disk (n + a + m) = none) :
    ∀ m < a + b, disk (n + m) = none := by
  intro m hm
  by_cases hlt : m < a
  · exact ha m hlt
  · have hrest := hb (m - a) (by omega)
    rwa [show n + a + (m - a) = n + m by omega] at hrest

/-- What taking the references of a list comes to: all are gone and no write has
failed, or an unknown chunk or a failing write has ended it. -/
theorem run_removeReferences (result : DeleteResult) :
    (∃ result' s', (hashes.foldlM (removeReference disk) result).run s =
        .ok result' s' ∧
      (∀ k ∈ hashes, (s.index.lookup k).isSome) ∧
      (∀ m < writesFor s.index hashes, disk (s.writes + m) = none) ∧
      s'.writes = s.writes + writesFor s.index hashes ∧
      Dropped hashes s.index s'.index) ∨
    ∃ err s' done k rest, hashes = done ++ k :: rest ∧
      (hashes.foldlM (removeReference disk) result).run s = .error err s' ∧
      err.isIndex = true ∧
      (∀ k' ∈ done, (s.index.lookup k').isSome) ∧
      (∀ m < writesFor s.index done, disk (s.writes + m) = none) ∧
      (s.index.lookup k = none ∧ Dropped done s.index s'.index ∨
        (s.index.lookup k).isSome ∧
        (∃ m < writesFor s.index (done ++ [k]), disk (s.writes + m) ≠ none) ∧
        Dropped (done ++ [k]) s.index s'.index) := by
  induction hashes generalizing s result with
  | nil =>
      exact Or.inl ⟨result, s, rfl, by simp, by simp [writesFor], rfl, .nil _⟩
  | cons k hashes ih =>
      rw [List.foldlM_cons]
      cases hk : s.index.lookup k with
      | none =>
          refine Or.inr ⟨_, s, [], k, hashes, rfl,
            run_bind_of_error (run_removeReference_unknown result hk), rfl, by simp,
            by simp [writesFor], Or.inl ⟨hk, .nil _⟩⟩
      | some e =>
          obtain ⟨hdisk, result', hrun⟩ | ⟨hfault, err, writes, hrun⟩ :=
            @run_removeReference_known disk s k e result hk
          · rw [run_bind_of_ok hrun]
            obtain ⟨r, s', hrest, hknown, hwritten, hwrites, hdropped⟩ |
              ⟨err, s', done, x, rest, rfl, hrest, hindex, hknown, hwritten, hstop⟩ :=
              @ih ⟨s.index.register k e.decremented, s.writes + writesOf e⟩ result'
            · refine Or.inl ⟨r, s', hrest, (forall_isSome_cons hk).mpr hknown, ?_, ?_,
                .cons hk hdropped⟩
              · rw [writesFor_cons hk]
                exact forall_lt_add hdisk hwritten
              · rw [hwrites, writesFor_cons hk, Nat.add_assoc]
            · refine Or.inr ⟨err, s', k :: done, x, rest, rfl, hrest, hindex,
                (forall_isSome_cons hk).mpr hknown, ?_, ?_⟩
              · rw [writesFor_cons hk]
                exact forall_lt_add hdisk hwritten
              · obtain ⟨hx, hdropped⟩ | ⟨hx, ⟨m, hm, hfault⟩, hdropped⟩ := hstop
                · refine Or.inl ⟨?_, .cons hk hdropped⟩
                  rwa [← Option.not_isSome_iff_eq_none, isSome_lookup_register hk,
                    Option.not_isSome_iff_eq_none] at hx
                · rw [isSome_lookup_register hk] at hx
                  refine Or.inr ⟨hx, ⟨writesOf e + m, ?_, ?_⟩, .cons hk hdropped⟩
                  · rw [List.cons_append, writesFor_cons hk]
                    exact Nat.add_lt_add_left hm _
                  · rwa [← Nat.add_assoc]
          · refine Or.inr ⟨_, _, [], k, hashes, rfl, run_bind_of_error hrun, rfl,
              by simp, by simp [writesFor], Or.inr ⟨by simp [hk], ?_,
                .cons hk (.nil _)⟩⟩
            rw [List.nil_append, writesFor_cons hk]
            simpa [writesFor] using hfault

theorem writesFor_le_append (rest : List String) :
    writesFor index hashes ≤ writesFor index (hashes ++ rest) := by
  induction hashes generalizing index with
  | nil =>
      exact Nat.zero_le _
  | cons k hashes ih =>
      cases hk : index.lookup k with
      | none =>
          simp [writesFor, hk]
      | some e =>
          rw [List.cons_append, writesFor_cons hk, writesFor_cons hk]
          exact Nat.add_le_add_left ih _

end Removals

section Idle

variable {index after : BadouIndex} {k : String} {e : ChunkIndexEntry}
variable {hashes : List String} {v : VersionId}

theorem decremented_of_isCandidate (h : e.isCandidate = true) :
    e.decremented = e := by
  obtain ⟨hstatus, hcount⟩ := ChunkIndexEntry.isCandidate_iff.mp h
  cases e
  simp only at hstatus hcount
  simp [ChunkIndexEntry.decremented, hstatus, hcount]

/-- To lose references changes count or state, unless nothing refers to the chunk
and it waits for collection already. -/
theorem dropped_same_iff {n : Nat} :
    ((e.dropped (n + 1)).refCount, (e.dropped (n + 1)).status) =
        (e.refCount, e.status) ↔ e.isCandidate = true := by
  constructor
  · intro hsame
    obtain ⟨hcount, hstatus⟩ := Prod.mk.inj hsame
    have hnat := ChunkIndexEntry.toNat_refCount_dropped (n + 1) e
    rw [hcount] at hnat
    have hzero : e.refCount = 0 := by
      rw [← UInt32.toNat_inj, UInt32.toNat_zero]
      omega
    refine ChunkIndexEntry.isCandidate_iff.mpr ⟨?_, hzero⟩
    rw [← hstatus]
    exact ChunkIndexEntry.status_dropped_of_refCount_eq_zero (hcount.trans hzero)
  · intro hcand
    have hfixed : e.dropped (n + 1) = e :=
      Function.iterate_fixed (decremented_of_isCandidate hcand) _
    rw [hfixed]

/-- The removals change nothing exactly if all the chunks are idle. -/
theorem Dropped.unchanged_iff (hdropped : Dropped hashes index after)
    (hknown : ∀ k ∈ hashes, (index.lookup k).isSome) :
    Unchanged v index after ↔ ∀ k ∈ hashes, Idle index k := by
  constructor
  · intro hsame k hk
    obtain ⟨e, he⟩ := Option.isSome_iff_exists.mp (hknown k hk)
    have hchunk := hsame.chunks k
    rw [hdropped.lookup k, he] at hchunk
    obtain ⟨n, hn⟩ := Nat.exists_eq_succ_of_ne_zero (List.count_pos_iff.mpr hk).ne'
    rw [hn] at hchunk
    exact ⟨e, he, dropped_same_iff.mp (Option.some.inj hchunk)⟩
  · intro hidle
    refine ⟨fun k => ?_, by unfold BadouIndex.getVersionChunks; rw [hdropped.lists]⟩
    rw [hdropped.lookup k, Option.map_map]
    cases hcount : hashes.count k with
    | zero =>
        rfl
    | succ n =>
        obtain ⟨e, he, hcand⟩ := hidle k
          (List.count_pos_iff.mp (by rw [hcount]; exact Nat.succ_pos n))
        rw [he]
        exact congrArg some (dropped_same_iff.mpr hcand)

/-- Every removal of an idle chunk writes the file twice. -/
theorem writesFor_of_idle (hidle : ∀ k ∈ hashes, Idle index k) :
    writesFor index hashes = 2 * hashes.length := by
  induction hashes generalizing index with
  | nil =>
      rfl
  | cons k hashes ih =>
      obtain ⟨e, he, hcand⟩ := hidle k List.mem_cons_self
      have hsame := decremented_of_isCandidate hcand
      have hrest : ∀ k' ∈ hashes, Idle (index.register k e.decremented) k' := by
        intro k' hk'
        obtain ⟨e', he', hcand'⟩ := hidle k' (List.mem_cons_of_mem k hk')
        by_cases hkk : k' = k
        · exact ⟨e, by simp [hkk, hsame], hcand⟩
        · exact ⟨e', by simp [hkk, he'], hcand'⟩
      have hzero := (ChunkIndexEntry.isCandidate_iff.mp hcand).2
      rw [writesFor_cons he, ih hrest, writesOf, hsame, if_pos hzero,
        List.length_cons]
      omega

end Idle

section Deletions

variable {disk : Nat → Option PersistError} {ops : VersionOps} {now : DateTime}
variable {v : VersionId} {version : Version} {s : WrittenIndex}
variable {index : BadouIndex} {hashes : List String}

variable (disk s) in
theorem run_deleteVersion_refused (hrefused : Refused ops now v) :
    ∃ e, (deleteVersion disk ops now v).run s = .error e s ∧ e.isIndex = false := by
  cases hv : ops.versions.lookup v with
  | none =>
      refine ⟨.delete (.versionOps (.notFound v)), ?_, rfl⟩
      simp only [deleteVersion, VersionOps.getVersion, hv]
      rfl
  | some version =>
      refine ⟨.delete (.immutable v), ?_, rfl⟩
      have hget : ops.getVersion v = .ok version := by
        simp [VersionOps.getVersion, hv]
      unfold deleteVersion
      rw [run_bind_of_ok (run_ofResult_eq_ok.mpr ⟨hget, rfl⟩)]
      simp only [hrefused version hv, if_true]
      rfl

/-- A deletion that is not refused takes the references away and then empties the
list. -/
theorem run_deleteVersion (hv : ops.versions.lookup v = some version)
    (hmutable : isImmutable now version = false) :
    (deleteVersion disk ops now v).run s =
      (((s.index.getVersionChunks v.uuid).foldlM (removeReference disk)
          (newResult v)) >>= fun result =>
        registerVersionChunks disk v.uuid [] >>= fun _ => pure result).run s := by
  have hget : ops.getVersion v = .ok version := by
    simp [VersionOps.getVersion, hv]
  unfold deleteVersion
  rw [run_bind_of_ok (run_ofResult_eq_ok.mpr ⟨hget, rfl⟩)]
  simp only [hmutable, Bool.false_eq_true, if_false]
  rw [run_bind_of_ok (EStateM.run_get _)]

theorem exists_version_of_not_refused (h : ¬ Refused ops now v) :
    ∃ version, ops.versions.lookup v = some version ∧
      isImmutable now version = false := by
  unfold Refused at h
  push Not at h
  obtain ⟨version, hv, himmutable⟩ := h
  exact ⟨version, hv, Bool.eq_false_iff.mpr himmutable⟩

theorem run_registerVersionChunks_of_written (h : disk s.writes = none) :
    (registerVersionChunks disk v.uuid []).run s =
      .ok () ⟨s.index.registerVersionChunks v.uuid [], s.writes + 1⟩ :=
  run_updateIndex_of_written rfl h

theorem run_registerVersionChunks_of_fault {err : PersistError}
    (h : disk s.writes = some err) :
    (registerVersionChunks disk v.uuid []).run s = .error (.persist err)
      ⟨s.index.registerVersionChunks v.uuid [], s.writes + 1⟩ :=
  run_updateIndex_of_fault rfl h

/-- A deletion that returns was not refused and has taken every reference once. -/
theorem dropped_of_run_deleteVersion {result : DeleteResult} {s' : WrittenIndex}
    (hrun : (deleteVersion disk ops now v).run s = .ok result s') :
    ¬ Refused ops now v ∧
      (∀ k ∈ s.index.getVersionChunks v.uuid, (s.index.lookup k).isSome) ∧
      ∀ k, s'.index.lookup k = (s.index.lookup k).map
        (.dropped ((s.index.getVersionChunks v.uuid).count k)) := by
  have hallowed : ¬ Refused ops now v := by
    intro hrefused
    obtain ⟨e, herror, _⟩ :=
      run_deleteVersion_refused disk s hrefused
    rw [herror] at hrun
    cases hrun
  obtain ⟨version, hv, hmutable⟩ := exists_version_of_not_refused hallowed
  rw [run_deleteVersion hv hmutable] at hrun
  obtain ⟨r, s₁, hloop, hrest⟩ := run_bind_eq_ok.mp hrun
  obtain ⟨_, s₂, hclear, hpure⟩ := run_bind_eq_ok.mp hrest
  cases hpure
  obtain ⟨_, _, hloop', hknown, _, _, hdropped⟩ | ⟨_, _, _, _, _, _, hloop', _⟩ :=
    @run_removeReferences disk s (s.index.getVersionChunks v.uuid) (newResult v)
  · rw [hloop] at hloop'
    cases hloop'
    cases hdisk : disk s₁.writes with
    | none =>
        rw [run_registerVersionChunks_of_written hdisk] at hclear
        cases hclear
        exact ⟨hallowed, hknown, hdropped.lookup⟩
    | some err =>
        rw [run_registerVersionChunks_of_fault hdisk] at hclear
        cases hclear
  · rw [hloop] at hloop'
    cases hloop'

/-- A deletion that returns has done what it does to the index alone. -/
theorem returns_of_run_deleteVersion {result : DeleteResult} {s' : WrittenIndex}
    (hrun : (deleteVersion disk ops now v).run s = .ok result s') :
    Returns (VersionDeleter.deleteVersion ops now v) s.index
      fun _ index' => ∀ k, s'.index.lookup k = index'.lookup k := by
  obtain ⟨hallowed, hknown, hlookup⟩ := dropped_of_run_deleteVersion hrun
  obtain ⟨version, hv, hmutable⟩ := exists_version_of_not_refused hallowed
  refine returns_mono (returns_deleteVersion hv hmutable hknown) ?_
  rintro _ index' ⟨_, _, hlookup'⟩ k
  rw [hlookup k, hlookup' k]

/-- Repeating a deletion that has changed nothing takes every reference once. -/
theorem released_of_unchanged {left : BadouIndex} {result : DeleteResult}
    {s' : WrittenIndex} (hsame : Unchanged v index left)
    (hrun : (deleteVersion disk ops now v).run ⟨left, 0⟩ = .ok result s') :
    Released (index.getVersionChunks v.uuid) index s'.index := by
  intro k
  rw [(dropped_of_run_deleteVersion hrun).2.2 k, hsame.list, Option.map_map]
  have hchunk := congrArg (Option.map fun p => p.1.toNat -
    (index.getVersionChunks v.uuid).count k) (hsame.chunks k)
  rw [Option.map_map, Option.map_map] at hchunk
  refine Eq.trans ?_ hchunk
  refine congrArg (fun f => (left.lookup k).map f) (funext fun e => ?_)
  exact ChunkIndexEntry.toNat_refCount_dropped _ e

/-- A list that stops among idle chunks has met only those. -/
theorem idle_of_stopsIdle {done rest : List String} {k : String}
    (hstops : StopsIdle disk index (done ++ k :: rest))
    (hknown : ∀ k' ∈ done, (index.lookup k').isSome)
    (hwritten : ∀ m < writesFor index done, disk m = none) :
    (∀ x ∈ done, Idle index x) ∧
      ((index.lookup k).isSome → ∀ x ∈ done ++ [k], Idle index x) := by
  obtain ⟨idle, rest', hsplit, hidle, hstop⟩ := hstops
  have hdone : done ++ [k] <+: done ++ k :: rest := ⟨rest, by simp⟩
  have hprefix : idle <+: done ++ k :: rest := ⟨rest', hsplit.symm⟩
  by_cases hlen : done.length + 1 ≤ idle.length
  · have hle : done ++ [k] <+: idle :=
      List.prefix_of_prefix_length_le hdone hprefix (by simpa using hlen)
    refine ⟨fun x hx => hidle x (hle.subset ?_), fun _ x hx => hidle x (hle.subset hx)⟩
    exact List.mem_append_left _ hx
  · have hle : idle <+: done :=
      List.prefix_of_prefix_length_le hprefix ⟨k :: rest, rfl⟩ (by omega)
    obtain ⟨more, rfl⟩ := hle
    rcases hstop with ⟨m, hm, hfault⟩ | ⟨x, hx, hunknown⟩
    · refine absurd (hwritten m ?_) hfault
      exact Nat.lt_of_lt_of_le hm (writesFor_of_idle hidle ▸ writesFor_le_append more)
    · rw [List.append_assoc, List.append_cancel_left_eq] at hsplit
      cases more with
      | nil =>
          rw [← hsplit] at hx
          cases hx
          rw [List.append_nil]
          exact ⟨hidle, fun hsome => by simp [hunknown] at hsome⟩
      | cons y more =>
          rw [← hsplit] at hx
          cases hx
          have hsome := hknown x (by simp)
          simp [hunknown] at hsome

/-- A list whose chunks are all known and whose writes all succeed does not stop. -/
theorem not_stopsIdle_of_written
    (hknown : ∀ k ∈ hashes, (index.lookup k).isSome)
    (hwritten : ∀ m < writesFor index hashes, disk m = none) :
    ¬ StopsIdle disk index hashes := by
  rintro ⟨idle, rest, rfl, hidle, ⟨m, hm, hfault⟩ | ⟨k, hk, hunknown⟩⟩
  · refine absurd (hwritten m ?_) hfault
    exact Nat.lt_of_lt_of_le hm (writesFor_of_idle hidle ▸ writesFor_le_append rest)
  · have hsome := hknown k (List.mem_append_right _ (List.mem_of_mem_head? hk))
    simp [hunknown] at hsome

end Deletions

section Main

variable {disk : Nat → Option PersistError} {ops : VersionOps} {now : DateTime}
variable {v : VersionId} {version : Version} {index : BadouIndex}

/-- What is to be shown of a deletion that stops is that it changed nothing. -/
theorem allOrNothing_iff_unchanged :
    AllOrNothing disk ops now v index ↔
      ∀ e left, (deleteVersion disk ops now v).run ⟨index, 0⟩ = .error e left →
        e.isIndex = true → Unchanged v index left.index := by
  constructor
  · intro hall e left hrun hindex
    exact (hall e left hrun hindex).1
  · intro hall e left hrun hindex
    have hsame := hall e left hrun hindex
    exact ⟨hsame, fun _ _ _ _ hagain => released_of_unchanged hsame hagain⟩

/-- A deletion that is not refused and changes nothing when it fails does not
fail, or it meets only idle chunks before it does. -/
theorem cases_of_allOrNothing (hv : ops.versions.lookup v = some version)
    (hmutable : isImmutable now version = false)
    (hall : AllOrNothing disk ops now v index) :
    Succeeds disk index (index.getVersionChunks v.uuid) ∨
      StopsIdle disk index (index.getVersionChunks v.uuid) ∨
      index.getVersionChunks v.uuid = [] := by
  rw [allOrNothing_iff_unchanged] at hall
  rw [run_deleteVersion hv hmutable] at hall
  obtain ⟨r, s₁, hloop, hknown, hwritten, hwrites, hdropped⟩ |
    ⟨err, s₁, done, k, rest, hsplit, hloop, hindex, hknown, hwritten, hstop⟩ :=
    @run_removeReferences disk ⟨index, 0⟩ (index.getVersionChunks v.uuid)
      (newResult v)
  · simp only [Nat.zero_add] at hwritten hwrites
    rw [run_bind_of_ok hloop] at hall
    cases hdisk : disk s₁.writes with
    | none =>
        refine Or.inl ⟨hknown, fun m hm => ?_⟩
        rcases Nat.lt_succ_iff_lt_or_eq.mp hm with hlt | rfl
        · exact hwritten m hlt
        · rw [← hwrites, hdisk]
    | some err =>
        have hsame := hall _ _ (run_bind_of_error
          (run_registerVersionChunks_of_fault hdisk)) rfl
        refine Or.inr (Or.inr ?_)
        rw [← hsame.list]
        simp [BadouIndex.registerVersionChunks, BadouIndex.getVersionChunks]
  · simp only [Nat.zero_add] at hwritten hstop
    have hsame := hall err s₁ (run_bind_of_error hloop) hindex
    refine Or.inr (Or.inl ?_)
    obtain ⟨hunknown, hdropped⟩ | ⟨hsome, ⟨m, hm, hfault⟩, hdropped⟩ := hstop
    · exact ⟨done, k :: rest, hsplit, (hdropped.unchanged_iff hknown).mp hsame,
        Or.inr ⟨k, rfl, hunknown⟩⟩
    · have hknown' : ∀ x ∈ done ++ [k], (index.lookup x).isSome := by
        intro x hx
        rcases List.mem_append.mp hx with hx | hx
        · exact hknown x hx
        · rwa [List.mem_singleton.mp hx]
      have hidle := (hdropped.unchanged_iff hknown').mp hsame
      exact ⟨done ++ [k], rest, by simp [hsplit], hidle,
        Or.inl ⟨m, writesFor_of_idle hidle ▸ hm, hfault⟩⟩

/-- A deletion that succeeds does not stop before its list is emptied. -/
theorem not_succeeds_of_split {done rest : List String} {k : String}
    (hsucceeds : Succeeds disk index (done ++ k :: rest))
    (hstop : index.lookup k = none ∨
      ∃ m < writesFor index (done ++ [k]), disk m ≠ none) : False := by
  obtain ⟨hknown, hwritten⟩ := hsucceeds
  rcases hstop with hunknown | ⟨m, hm, hfault⟩
  · have hsome := hknown k (by simp)
    simp [hunknown] at hsome
  · have hle := @writesFor_le_append index (done ++ [k]) rest
    rw [List.append_assoc, List.singleton_append] at hle
    exact hfault (hwritten m (by omega))

theorem unchanged_of_cases (hv : ops.versions.lookup v = some version)
    (hmutable : isImmutable now version = false)
    (hcases : Succeeds disk index (index.getVersionChunks v.uuid) ∨
      StopsIdle disk index (index.getVersionChunks v.uuid) ∨
      index.getVersionChunks v.uuid = []) {e : Error} {left : WrittenIndex}
    (hrun : (deleteVersion disk ops now v).run ⟨index, 0⟩ = .error e left) :
    Unchanged v index left.index := by
  rw [run_deleteVersion hv hmutable] at hrun
  obtain ⟨r, s₁, hloop, hknown, hwritten, hwrites, hdropped⟩ |
    ⟨err, s₁, done, k, rest, hsplit, hloop, hindex, hknown, hwritten, hstop⟩ :=
    @run_removeReferences disk ⟨index, 0⟩ (index.getVersionChunks v.uuid)
      (newResult v)
  · -- only the list is left to empty
    simp only [Nat.zero_add] at hwritten hwrites
    rw [run_bind_of_ok hloop] at hrun
    cases hdisk : disk s₁.writes with
    | none =>
        rw [run_bind_of_ok (run_registerVersionChunks_of_written hdisk)] at hrun
        cases hrun
    | some err =>
        rw [run_bind_of_error (run_registerVersionChunks_of_fault hdisk)] at hrun
        cases hrun
        obtain hsucceeds | hidle | hempty := hcases
        · rw [hsucceeds.2 s₁.writes (by omega)] at hdisk
          cases hdisk
        · exact absurd hidle (not_stopsIdle_of_written hknown hwritten)
        · rw [hempty] at hdropped
          refine ⟨fun k => by simp [hdropped.lookup k], ?_⟩
          rw [hempty]
          simp [BadouIndex.registerVersionChunks, BadouIndex.getVersionChunks]
  · simp only [Nat.zero_add] at hwritten hstop
    rw [run_bind_of_error hloop] at hrun
    cases hrun
    rw [hsplit] at hcases
    obtain hsucceeds | hidle | hempty := hcases
    · refine (not_succeeds_of_split hsucceeds ?_).elim
      exact hstop.imp And.left fun h => h.2.1
    · obtain ⟨hdone, hlast⟩ := idle_of_stopsIdle hidle hknown hwritten
      obtain ⟨_, hdropped⟩ | ⟨hsome, _, hdropped⟩ := hstop
      · exact (hdropped.unchanged_iff hknown).mpr hdone
      · refine (hdropped.unchanged_iff fun x hx => ?_).mpr (hlast hsome)
        obtain ⟨e, he, _⟩ := hlast hsome x hx
        simp [he]
    · simp at hempty

/-- A deletion is all or nothing exactly if it is refused, or does not fail, or
fails when it has met only idle chunks, or has no chunks to release. -/
theorem allOrNothing_iff (disk : Nat → Option PersistError) (ops : VersionOps)
    (now : DateTime) (v : VersionId) (index : BadouIndex) :
    AllOrNothing disk ops now v index ↔
      Refused ops now v ∨
      Succeeds disk index (index.getVersionChunks v.uuid) ∨
      StopsIdle disk index (index.getVersionChunks v.uuid) ∨
      index.getVersionChunks v.uuid = [] := by
  constructor
  · intro hall
    by_cases hrefused : Refused ops now v
    · exact Or.inl hrefused
    · obtain ⟨version, hv, hmutable⟩ := exists_version_of_not_refused hrefused
      exact Or.inr (cases_of_allOrNothing hv hmutable hall)
  · intro hcases
    rw [allOrNothing_iff_unchanged]
    intro e left hrun hindex
    by_cases hrefused : Refused ops now v
    · obtain ⟨e', hrun', hother⟩ :=
        run_deleteVersion_refused disk ⟨index, 0⟩ hrefused
      rw [hrun'] at hrun
      cases hrun
      rw [hother] at hindex
      cases hindex
    · obtain ⟨version, hv, hmutable⟩ := exists_version_of_not_refused hrefused
      exact unchanged_of_cases hv hmutable (hcases.resolve_left hrefused) hrun

end Main

section Example

/-- The versions 1 and 2 of one repository. -/
def twoVersions : VersionOps :=
  stateAfter (do
    let _ ← VersionOps.createVersion 0 ⟨1⟩ 11 ⟨7⟩ none
    VersionOps.createVersion 0 ⟨2⟩ 12 ⟨7⟩ (some ⟨1⟩)) VersionOps.new

def sharedEntry (refCount : UInt32) : ChunkIndexEntry where
  bucket := "ab"
  path := "/tmp/ab/hash.chunk"
  refCount := refCount
  size := 1024
  storedSize := 512
  status := .active

/-- Both versions have the first chunk. -/
def sharedIndex : BadouIndex :=
  (((BadouIndex.inMemory.register "hash1" (sharedEntry 2)).register "hash2"
    (sharedEntry 1)).registerVersionChunks 1 ["hash1", "hash2"]).registerVersionChunks
      2 ["hash1"]

/-- The second write of the index file fails. -/
def fullDisk (n : Nat) : Option PersistError :=
  if n = 1 then some (.io "No space left on device (os error 28)") else none

/-- The deletion fails when the shared chunk has lost its reference. -/
theorem run_deleteVersion_fullDisk :
    ∃ e left,
      (deleteVersion fullDisk twoVersions 0 ⟨1⟩).run ⟨sharedIndex, 0⟩ =
        .error e left ∧ e.isIndex = true ∧
      (left.index.lookup "hash1").map (fun e => (e.refCount, e.status)) =
        some (1, .active) ∧
      ∃ result s,
        (deleteVersion (fun _ => none) twoVersions 0 ⟨1⟩).run ⟨left.index, 0⟩ =
          .ok result s ∧
        (s.index.lookup "hash1").map (fun e => (e.refCount, e.status)) =
          some (0, .gcPending) ∧
        s.index.getVersionChunks 2 = ["hash1"] :=
  ⟨_, _, rfl, rfl, rfl, _, _, rfl, rfl, rfl⟩

/-- Repeated, it takes the reference of the other version too. -/
theorem not_allOrNothing_sharedIndex :
    ¬ AllOrNothing fullDisk twoVersions 0 ⟨1⟩ sharedIndex := by
  intro hall
  obtain ⟨e, left, hrun, hindex, hleft, _⟩ := run_deleteVersion_fullDisk
  have hsame := (hall e left hrun hindex).1.chunks "hash1"
  rw [hleft] at hsame
  exact absurd hsame (by decide +kernel)

end Example

end FailedDeletion
end Badou
end HyperBackup
