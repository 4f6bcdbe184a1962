import HyperBackup.Badou.Json
import HyperBackup.Lib.Program

/-!
# Sealed snapshots

Any sequence of calls that write and seal snapshots, in any number of
repositories, from empty directories.

Sealing refuses a snapshot that is sealed already.  Writing looks at the
snapshot it is given only, not at the one that is stored, and sealing does not
ask whether the stored snapshot is corrupt.  So a sealed snapshot stays what it
is, and a corrupt one is never offered as sealed, exactly as long as nobody
writes anything else over a sealed snapshot, or a sealed one where a corrupt
one was written before.
-/

namespace HyperBackup
namespace Badou
namespace SealedSnapshots

open Lib Lib.Program

inductive Call
  | writeSnapshot (repoId : RepositoryId) (snapshot : Snapshot)
  | sealSnapshot (repoId : RepositoryId) (snapshotId : Uuid)

/-- The directories of the repositories. -/
abbrev Stores : Type :=
  RepositoryId → Catalog

def Stores.new : Stores :=
  fun _ => .empty

section Runs

variable (json : Json)

def step (stores : Stores) : Call → Stores
  | .writeSnapshot repoId snapshot =>
      Function.update stores repoId
        (stateAfter (SnapshotStore.writeSnapshot json snapshot) (stores repoId))
  | .sealSnapshot repoId snapshotId =>
      Function.update stores repoId
        (stateAfter (SnapshotStore.sealSnapshot json snapshotId) (stores repoId))

/-- What the directories are after some calls. -/
def run (calls : List Call) : Stores :=
  calls.foldl (step json) .new

def read (stores : Stores) (repoId : RepositoryId) (snapshotId : Uuid) :
    Except SnapshotStoreError Snapshot :=
  SnapshotStore.readSnapshot json (stores repoId) snapshotId

theorem run_concat (calls : List Call) (call : Call) :
    run json (calls ++ [call]) = step json (run json calls) call := by
  simp [run]

/-- A sealed snapshot is read as the same one ever after, and a corrupt one
never as a sealed one. -/
structure Immutable (calls : List Call) : Prop where
  sealed_kept : ∀ done later, done ++ later <+: calls →
    ∀ repoId id snapshot, read json (run json done) repoId id = .ok snapshot →
      snapshot.status = .sealed →
      read json (run json (done ++ later)) repoId id = .ok snapshot
  corrupt_unsealed : ∀ done later, done ++ later <+: calls →
    ∀ repoId id corrupt, read json (run json done) repoId id = .ok corrupt →
      corrupt.status = .corrupt →
      ∀ snapshot,
        read json (run json (done ++ later)) repoId id = .ok snapshot →
        snapshot.status ≠ .sealed

/-- A snapshot with this identifier was written as corrupt. -/
def CorruptWritten (calls : List Call) (repoId : RepositoryId) (id : Uuid) :
    Prop :=
  ∃ corrupt, .writeSnapshot repoId corrupt ∈ calls ∧
    corrupt.snapshotId = id ∧ corrupt.status = .corrupt

/-- The snapshot is not refused: if it is sealed, it has been verified. -/
def Accepted (snapshot : Snapshot) : Prop :=
  snapshot.status = .sealed → snapshot.verifyInfo.verified = true

instance : DecidablePred Accepted :=
  fun snapshot => inferInstanceAs
    (Decidable (snapshot.status = .sealed → snapshot.verifyInfo.verified = true))

/-- A stored snapshot that sealing writes once more. -/
def Sealable (snapshot : Snapshot) : Prop :=
  snapshot.status ≠ .sealed ∧ snapshot.verifyInfo.verified = true

instance : DecidablePred Sealable :=
  fun snapshot => inferInstanceAs (Decidable
    (snapshot.status ≠ .sealed ∧ snapshot.verifyInfo.verified = true))

/-- Only the sealed snapshot itself is written where a sealed one is stored, and
nothing is sealed where a corrupt one was written. -/
def Allowed (done : List Call) : Call → Prop
  | .writeSnapshot repoId snapshot => Accepted snapshot →
      (∀ stored, read json (run json done) repoId snapshot.snapshotId =
        .ok stored → stored.status = .sealed → stored = snapshot) ∧
      (snapshot.status = .sealed →
        ¬ CorruptWritten done repoId snapshot.snapshotId)
  | .sealSnapshot repoId id =>
      ∀ stored, read json (run json done) repoId id = .ok stored →
        Sealable stored → ¬ CorruptWritten done repoId id

/-- The text of the snapshot is read back, sealed or as it is. -/
structure Readable (snapshot : Snapshot) : Prop where
  asIs : json.snapshotFromSlice (json.snapshotToVec snapshot) = .ok snapshot
  sealed : json.snapshotFromSlice
      (json.snapshotToVec { snapshot with status := .sealed }) =
    .ok { snapshot with status := .sealed }

/-- The texts of all written snapshots are read back. -/
def ReadsBack (calls : List Call) : Prop :=
  ∀ repoId snapshot, .writeSnapshot repoId snapshot ∈ calls →
    Readable json snapshot

end Runs

section Steps

variable {json : Json} {stores : Stores} {calls done later : List Call}
variable {call : Call} {repoId : RepositoryId} {id : Uuid}

/-- A written or sealed snapshot is a file under its name; the other snapshots
of the directory are as before. -/
def Puts (catalog catalog' : Catalog) (id : Uuid) (data : Bytes) : Prop :=
  ∀ id', catalog'.snapshots.lookup (SnapshotStore.snapshotName id') =
    if id' = id then some data
    else catalog.snapshots.lookup (SnapshotStore.snapshotName id')

theorem puts_writeSnapshot (catalog : Catalog) {snapshot : Snapshot}
    (h : Accepted snapshot) :
    Puts catalog
      (stateAfter (SnapshotStore.writeSnapshot json snapshot) catalog)
      snapshot.snapshotId (json.snapshotToVec snapshot) := by
  have hok : ¬ (snapshot.status = .sealed ∧
      ¬ snapshot.verifyInfo.verified = true) := by
    rintro ⟨hsealed, hnot⟩
    exact hnot (h hsealed)
  have hafter :
      (stateAfter (SnapshotStore.writeSnapshot json snapshot)
        catalog).snapshots =
      SnapshotStore.writeAndRename
        (SnapshotStore.stagingName snapshot.snapshotId)
        (SnapshotStore.snapshotName snapshot.snapshotId)
        (json.snapshotToVec snapshot) catalog.snapshots := by
    simp only [SnapshotStore.writeSnapshot, if_neg hok]
    rfl
  intro id'
  rw [hafter, SnapshotStore.lookup_writeAndRename,
    if_neg (SnapshotStore.snapshotName_ne_stagingName _ id')]
  simp only [SnapshotStore.snapshotName_injective.eq_iff]

theorem stateAfter_writeSnapshot_refused (catalog : Catalog)
    {snapshot : Snapshot} (h : ¬ Accepted snapshot) :
    stateAfter (SnapshotStore.writeSnapshot json snapshot) catalog =
      catalog := by
  have hrefused : snapshot.status = .sealed ∧
      ¬ snapshot.verifyInfo.verified = true := by
    simpa [Accepted] using h
  simp only [SnapshotStore.writeSnapshot, if_pos hrefused]
  rfl

theorem puts_sealSnapshot {catalog : Catalog} {stored : Snapshot}
    (hread : SnapshotStore.readSnapshot json catalog id = .ok stored)
    (h : Sealable stored) :
    Puts catalog (stateAfter (SnapshotStore.sealSnapshot json id) catalog) id
      (json.snapshotToVec { stored with status := .sealed }) := by
  intro id'
  unfold SnapshotStore.sealSnapshot
  rw [stateAfter_bind_of_run (EStateM.run_get _),
    stateAfter_bind_of_run (run_ofResult_eq_ok.mpr ⟨hread, rfl⟩)]
  simp only [if_neg h.1, h.2, not_true_eq_false, if_false]
  change (catalog.snapshots.insert _ _).lookup _ = _
  rw [HashMap.lookup_insert_of]
  simp only [SnapshotStore.snapshotName_injective.eq_iff]

theorem stateAfter_sealSnapshot_refused {catalog : Catalog}
    (h : ∀ stored, SnapshotStore.readSnapshot json catalog id = .ok stored →
      ¬ Sealable stored) :
    stateAfter (SnapshotStore.sealSnapshot json id) catalog = catalog := by
  unfold SnapshotStore.sealSnapshot
  rw [stateAfter_bind_of_run (EStateM.run_get _)]
  cases hread : SnapshotStore.readSnapshot json catalog id with
  | error e =>
      rfl
  | ok stored =>
      rw [stateAfter_bind_of_run (run_ofResult_eq_ok.mpr ⟨rfl, rfl⟩)]
      by_cases hsealed : stored.status = .sealed
      · simp only [if_pos hsealed]
        rfl
      · have hverified : ¬ stored.verifyInfo.verified = true :=
          fun hyes => h stored hread ⟨hsealed, hyes⟩
        simp only [if_neg hsealed, if_pos hverified]
        rfl

end Steps

section Contents

/-- What is stored under the identifiers of each repository. -/
abbrev Contents : Type :=
  RepositoryId → Uuid → Option Snapshot

def Contents.put (contents : Contents) (repoId : RepositoryId) (id : Uuid)
    (snapshot : Snapshot) : Contents :=
  fun repoId' id' =>
    if repoId' = repoId ∧ id' = id then some snapshot
    else contents repoId' id'

/-- The calls without files. -/
def effect (contents : Contents) : Call → Contents
  | .writeSnapshot repoId snapshot =>
      if Accepted snapshot then
        contents.put repoId snapshot.snapshotId snapshot
      else contents
  | .sealSnapshot repoId id =>
      match contents repoId id with
      | none => contents
      | some stored =>
          if Sealable stored then
            contents.put repoId id { stored with status := .sealed }
          else contents

def contentsOf (calls : List Call) : Contents :=
  calls.foldl effect fun _ _ => none

variable {json : Json} {stores : Stores} {contents : Contents}
variable {calls done later : List Call} {call : Call}
variable {repoId : RepositoryId} {id : Uuid} {snapshot : Snapshot}

theorem contentsOf_concat (calls : List Call) (call : Call) :
    contentsOf (calls ++ [call]) = effect (contentsOf calls) call := by
  simp [contentsOf]

/-- The files are the texts of the contents. -/
structure Shows (json : Json) (stores : Stores) (contents : Contents) :
    Prop where
  files : ∀ repoId id,
    (stores repoId).snapshots.lookup (SnapshotStore.snapshotName id) =
      (contents repoId id).map json.snapshotToVec
  readable : ∀ repoId id snapshot, contents repoId id = some snapshot →
    Readable json snapshot

theorem Shows.read_eq_ok_iff (h : Shows json stores contents) :
    read json stores repoId id = .ok snapshot ↔
      contents repoId id = some snapshot := by
  have hfile := h.files repoId id
  cases hstored : contents repoId id with
  | none =>
      rw [hstored, Option.map_none] at hfile
      simp only [read, SnapshotStore.readSnapshot, hfile, reduceCtorEq]
  | some stored =>
      rw [hstored, Option.map_some] at hfile
      rw [read, SnapshotStore.readSnapshot_of_lookup hfile
        (h.readable repoId id stored hstored).asIs]
      simp only [Except.ok.injEq, Option.some.injEq]

theorem Shows.put (h : Shows json stores contents) {catalog : Catalog}
    (hputs : Puts (stores repoId) catalog id (json.snapshotToVec snapshot))
    (hreadable : Readable json snapshot) :
    Shows json (Function.update stores repoId catalog)
      (contents.put repoId id snapshot) where
  files := by
    intro repoId' id'
    unfold Contents.put
    by_cases hrepo : repoId' = repoId
    · subst hrepo
      rw [Function.update_self, hputs id']
      by_cases hid : id' = id
      · simp [hid]
      · simp [hid, h.files]
    · rw [Function.update_of_ne hrepo, if_neg fun hboth => hrepo hboth.1]
      exact h.files repoId' id'
  readable := by
    intro repoId' id' found hfound
    unfold Contents.put at hfound
    split at hfound
    · obtain rfl := Option.some.inj hfound
      exact hreadable
    · exact h.readable repoId' id' found hfound

/-- The files follow the contents call by call. -/
theorem Shows.step (h : Shows json stores contents)
    (hreads : ∀ repoId snapshot, call = .writeSnapshot repoId snapshot →
      Readable json snapshot) :
    Shows json (step json stores call) (effect contents call) := by
  cases call with
  | writeSnapshot repoId snapshot =>
      simp only [SealedSnapshots.step, effect]
      by_cases haccepted : Accepted snapshot
      · rw [if_pos haccepted]
        exact h.put (puts_writeSnapshot (stores repoId) haccepted)
          (hreads repoId snapshot rfl)
      · rw [if_neg haccepted, stateAfter_writeSnapshot_refused _ haccepted,
          Function.update_eq_self]
        exact h
  | sealSnapshot repoId id =>
      simp only [SealedSnapshots.step, effect]
      have hread : ∀ stored, SnapshotStore.readSnapshot json (stores repoId) id =
          .ok stored ↔ contents repoId id = some stored :=
        fun stored => h.read_eq_ok_iff
      cases hstored : contents repoId id with
      | none =>
          rw [stateAfter_sealSnapshot_refused, Function.update_eq_self]
          · exact h
          · intro stored hfound
            rw [hread, hstored] at hfound
            cases hfound
      | some stored =>
          by_cases hsealable : Sealable stored
          · simp only [if_pos hsealable]
            refine h.put (puts_sealSnapshot ((hread stored).mpr hstored)
              hsealable) ?_
            have hreadable := h.readable repoId id stored hstored
            exact ⟨hreadable.sealed, hreadable.sealed⟩
          · simp only [if_neg hsealable]
            rw [stateAfter_sealSnapshot_refused, Function.update_eq_self]
            · exact h
            · intro found hfound
              rw [hread, hstored] at hfound
              obtain rfl := Option.some.inj hfound
              exact hsealable

/-- The files show the contents after every sequence of calls. -/
theorem shows_run (h : ReadsBack json calls) :
    Shows json (run json calls) (contentsOf calls) := by
  induction calls using List.reverseRecOn with
  | nil =>
      exact ⟨fun _ _ => rfl, fun _ _ _ hnone => by cases hnone⟩
  | append_singleton calls call ih =>
      rw [run_concat, contentsOf_concat]
      refine (ih fun repoId snapshot hmem =>
        h repoId snapshot (List.mem_append_left _ hmem)).step ?_
      rintro repoId snapshot rfl
      exact h repoId snapshot (by simp)

theorem ReadsBack.of_initial (h : ReadsBack json calls)
    (hinit : done <+: calls) : ReadsBack json done :=
  fun repoId snapshot hmem => h repoId snapshot (hinit.subset hmem)

theorem read_run_eq_ok_iff (h : ReadsBack json calls) :
    read json (run json calls) repoId id = .ok snapshot ↔
      contentsOf calls repoId id = some snapshot :=
  (shows_run h).read_eq_ok_iff

end Contents

section Immutability

variable {json : Json} {contents : Contents}
variable {calls done later : List Call} {call : Call}
variable {repoId : RepositoryId} {id : Uuid} {snapshot stored : Snapshot}

/-- All that a call can put anywhere. -/
theorem effect_cases (contents : Contents) (call : Call) :
    effect contents call = contents ∨
      ∃ repoId id snapshot,
        effect contents call = contents.put repoId id snapshot ∧
        ((call = .writeSnapshot repoId snapshot ∧ id = snapshot.snapshotId ∧
            Accepted snapshot) ∨
          (call = .sealSnapshot repoId id ∧
            ∃ stored, contents repoId id = some stored ∧ Sealable stored ∧
              snapshot = { stored with status := .sealed })) := by
  cases call with
  | writeSnapshot repoId snapshot =>
      unfold effect
      by_cases haccepted : Accepted snapshot
      · exact Or.inr ⟨repoId, snapshot.snapshotId, snapshot, if_pos haccepted,
          Or.inl ⟨rfl, rfl, haccepted⟩⟩
      · exact Or.inl (if_neg haccepted)
  | sealSnapshot repoId id =>
      simp only [effect]
      cases hstored : contents repoId id with
      | none =>
          exact Or.inl rfl
      | some stored =>
          by_cases hsealable : Sealable stored
          · exact Or.inr ⟨repoId, id, { stored with status := .sealed },
              if_pos hsealable,
              Or.inr ⟨rfl, stored, hstored, hsealable, rfl⟩⟩
          · exact Or.inl (if_neg hsealable)

theorem Contents.put_eq_some {repoId' : RepositoryId} {id' : Uuid} :
    contents.put repoId id snapshot repoId' id' = some stored ↔
      (repoId' = repoId ∧ id' = id ∧ snapshot = stored) ∨
        (¬ (repoId' = repoId ∧ id' = id) ∧
          contents repoId' id' = some stored) := by
  unfold Contents.put
  by_cases hplace : repoId' = repoId ∧ id' = id
  · simp [hplace]
  · simp [hplace]
    tauto

/-- What is stored as corrupt was written as corrupt. -/
theorem corruptWritten_of_contents
    (h : contentsOf calls repoId id = some snapshot)
    (hcorrupt : snapshot.status = .corrupt) :
    CorruptWritten calls repoId id := by
  induction calls using List.reverseRecOn generalizing snapshot with
  | nil =>
      cases h
  | append_singleton calls call ih =>
      rw [contentsOf_concat] at h
      have hold : contentsOf calls repoId id = some snapshot →
          CorruptWritten (calls ++ [call]) repoId id := by
        intro hstored
        obtain ⟨corrupt, hmem, hrest⟩ := ih hstored hcorrupt
        exact ⟨corrupt, List.mem_append_left _ hmem, hrest⟩
      obtain hsame | ⟨r, i, s, hput, hcause⟩ :=
        effect_cases (contentsOf calls) call
      · exact hold (hsame ▸ h)
      · rw [hput, Contents.put_eq_some] at h
        obtain ⟨rfl, rfl, rfl⟩ | ⟨-, hstored⟩ := h
        · obtain ⟨rfl, hid, -⟩ | ⟨-, stored, -, -, rfl⟩ := hcause
          · exact ⟨s, by simp, hid.symm, hcorrupt⟩
          · cases hcorrupt
        · exact hold hstored

/-- An allowed call leaves a sealed snapshot as it is. -/
theorem sealed_of_allowed (hreads : ReadsBack json done)
    (hallowed : Allowed json done call)
    (hstored : contentsOf done repoId id = some stored)
    (hsealed : stored.status = .sealed) :
    contentsOf (done ++ [call]) repoId id = some stored := by
  rw [contentsOf_concat]
  obtain hsame | ⟨r, i, s, hput, hcause⟩ := effect_cases (contentsOf done) call
  · rw [hsame]
    exact hstored
  · rw [hput, Contents.put_eq_some]
    by_cases hplace : repoId = r ∧ id = i
    · obtain ⟨rfl, rfl⟩ := hplace
      left
      refine ⟨rfl, rfl, ?_⟩
      obtain ⟨rfl, rfl, haccepted⟩ | ⟨rfl, found, hfound, hsealable, -⟩ := hcause
      · exact ((hallowed haccepted).1 stored
          ((read_run_eq_ok_iff hreads).mpr hstored) hsealed).symm
      · rw [hstored] at hfound
        obtain rfl := Option.some.inj hfound
        exact absurd hsealed hsealable.1
    · exact Or.inr ⟨hplace, hstored⟩

/-- An allowed call seals nothing where a corrupt snapshot was written. -/
theorem unsealed_of_allowed (hreads : ReadsBack json done)
    (hallowed : Allowed json done call)
    (hwritten : CorruptWritten done repoId id)
    (hbefore : ∀ stored, contentsOf done repoId id = some stored →
      stored.status ≠ .sealed)
    (hafter : contentsOf (done ++ [call]) repoId id = some snapshot) :
    snapshot.status ≠ .sealed := by
  rw [contentsOf_concat] at hafter
  obtain hsame | ⟨r, i, s, hput, hcause⟩ := effect_cases (contentsOf done) call
  · rw [hsame] at hafter
    exact hbefore snapshot hafter
  · rw [hput, Contents.put_eq_some] at hafter
    obtain ⟨rfl, rfl, rfl⟩ | ⟨-, hstored⟩ := hafter
    · obtain ⟨rfl, rfl, haccepted⟩ | ⟨rfl, found, hfound, hsealable, -⟩ := hcause
      · exact fun hsealed => (hallowed haccepted).2 hsealed hwritten
      · exact absurd hwritten (hallowed found
          ((read_run_eq_ok_iff hreads).mpr hfound) hsealable)
    · exact hbefore snapshot hstored

/-- What was written as corrupt was stored as corrupt. -/
theorem CorruptWritten.exists_contents (h : CorruptWritten calls repoId id) :
    ∃ first rest corrupt, calls = first ++ rest ∧
      contentsOf first repoId id = some corrupt ∧
      corrupt.status = .corrupt := by
  obtain ⟨corrupt, hmem, rfl, hstatus⟩ := h
  obtain ⟨before, after, rfl⟩ := List.append_of_mem hmem
  refine ⟨before ++ [.writeSnapshot repoId corrupt], after, corrupt,
    by simp, ?_, hstatus⟩
  have haccepted : Accepted corrupt := by
    intro hsealed
    rw [hstatus] at hsealed
    cases hsealed
  rw [contentsOf_concat, effect, if_pos haccepted, Contents.put_eq_some]
  exact Or.inl ⟨rfl, rfl, rfl⟩

/-- Where a corrupt snapshot was written, an immutable store has no sealed
one. -/
theorem Immutable.not_sealed (h : Immutable json calls)
    (hreads : ReadsBack json calls) (hinit : done ++ [call] <+: calls)
    (hwritten : CorruptWritten done repoId id)
    (hafter : effect (contentsOf done) call repoId id = some snapshot) :
    snapshot.status ≠ .sealed := by
  obtain ⟨first, rest, corrupt, rfl, hcorrupt, hstatus⟩ :=
    hwritten.exists_contents
  rw [List.append_assoc] at hinit
  refine h.corrupt_unsealed first (rest ++ [call]) hinit repoId id corrupt
    ((read_run_eq_ok_iff
      (hreads.of_initial ((List.prefix_append _ _).trans hinit))).mpr hcorrupt)
    hstatus snapshot ((read_run_eq_ok_iff (hreads.of_initial hinit)).mpr ?_)
  rw [← List.append_assoc, contentsOf_concat]
  exact hafter

theorem Immutable.allowed (h : Immutable json calls)
    (hreads : ReadsBack json calls) (hinit : done ++ [call] <+: calls) :
    Allowed json done call := by
  have hdone : ReadsBack json done :=
    hreads.of_initial ((List.prefix_append _ _).trans hinit)
  cases call with
  | writeSnapshot repoId snapshot =>
      intro haccepted
      have hput : effect (contentsOf done) (.writeSnapshot repoId snapshot)
          repoId snapshot.snapshotId = some snapshot := by
        rw [effect, if_pos haccepted, Contents.put_eq_some]
        exact Or.inl ⟨rfl, rfl, rfl⟩
      constructor
      · intro stored hread hsealed
        have hkept := h.sealed_kept done _ hinit repoId snapshot.snapshotId
          stored hread hsealed
        rw [read_run_eq_ok_iff (hreads.of_initial hinit), contentsOf_concat,
          hput] at hkept
        exact (Option.some.inj hkept).symm
      · intro hsealed hwritten
        exact h.not_sealed hreads hinit hwritten hput hsealed
  | sealSnapshot repoId id =>
      intro stored hread hsealable hwritten
      have hput : effect (contentsOf done) (.sealSnapshot repoId id) repoId id =
          some { stored with status := .sealed } := by
        simp only [effect, (read_run_eq_ok_iff hdone).mp hread,
          if_pos hsealable]
        rw [Contents.put_eq_some]
        exact Or.inl ⟨rfl, rfl, rfl⟩
      exact h.not_sealed hreads hinit hwritten hput rfl

/-- A sealed snapshot survives allowed calls. -/
theorem contents_of_allowed (hreads : ReadsBack json (done ++ later))
    (hallowed : ∀ done' call, done' ++ [call] <+: done ++ later →
      Allowed json done' call)
    (hstored : contentsOf done repoId id = some stored)
    (hsealed : stored.status = .sealed) :
    contentsOf (done ++ later) repoId id = some stored := by
  induction later using List.reverseRecOn with
  | nil =>
      rw [List.append_nil]
      exact hstored
  | append_singleton later call ih =>
      rw [← List.append_assoc] at hreads hallowed ⊢
      have hinit : done ++ later <+: done ++ later ++ [call] :=
        List.prefix_append _ _
      exact sealed_of_allowed (hreads.of_initial hinit)
        (hallowed _ call (List.prefix_refl _))
        (ih (hreads.of_initial hinit)
          fun done' call' h => hallowed done' call' (h.trans hinit)) hsealed

/-- Where a corrupt snapshot is stored, allowed calls never seal. -/
theorem unsealed_of_run (hreads : ReadsBack json (done ++ later))
    (hallowed : ∀ done' call, done' ++ [call] <+: done ++ later →
      Allowed json done' call)
    (hstored : contentsOf done repoId id = some stored)
    (hcorrupt : stored.status = .corrupt)
    (hafter : contentsOf (done ++ later) repoId id = some snapshot) :
    snapshot.status ≠ .sealed := by
  induction later using List.reverseRecOn generalizing snapshot with
  | nil =>
      rw [List.append_nil, hstored] at hafter
      obtain rfl := Option.some.inj hafter
      rw [hcorrupt]
      decide
  | append_singleton later call ih =>
      rw [← List.append_assoc] at hreads hallowed hafter
      have hinit : done ++ later <+: done ++ later ++ [call] :=
        List.prefix_append _ _
      obtain ⟨corrupt, hmem, hrest⟩ :=
        corruptWritten_of_contents hstored hcorrupt
      refine unsealed_of_allowed (hreads.of_initial hinit)
        (hallowed _ call (List.prefix_refl _))
        ⟨corrupt, List.mem_append_left _ hmem, hrest⟩ ?_ hafter
      intro found hfound
      exact ih (hreads.of_initial hinit)
        (fun done' call' h => hallowed done' call' (h.trans hinit)) hfound

/-- Sealed snapshots are immutable, and corrupt ones stay unsealed, exactly if
only the sealed snapshot itself is written over a sealed one, and nothing is
sealed where a corrupt one was written. -/
theorem immutable_iff (json : Json) (calls : List Call)
    (hreads : ReadsBack json calls) :
    Immutable json calls ↔
      ∀ done call, done ++ [call] <+: calls → Allowed json done call := by
  constructor
  · intro h done call hinit
    exact h.allowed hreads hinit
  · intro hallowed
    constructor
    · intro done later hinit repoId id snapshot hread hsealed
      have hboth := hreads.of_initial hinit
      rw [read_run_eq_ok_iff
        (hboth.of_initial (List.prefix_append _ _))] at hread
      rw [read_run_eq_ok_iff hboth]
      exact contents_of_allowed hboth
        (fun done' call h => hallowed done' call (h.trans hinit)) hread hsealed
    · intro done later hinit repoId id corrupt hread hcorrupt snapshot hafter
      have hboth := hreads.of_initial hinit
      rw [read_run_eq_ok_iff
        (hboth.of_initial (List.prefix_append _ _))] at hread
      rw [read_run_eq_ok_iff hboth] at hafter
      exact unsealed_of_run hboth
        (fun done' call h => hallowed done' call (h.trans hinit)) hread
        hcorrupt hafter

end Immutability

section Example

/-- A verified snapshot of nothing. -/
def exampleSnapshot (status : SnapshotStatus) : Snapshot where
  snapshotId := 5
  versionId := ⟨6⟩
  sourceMachine := { hostname := "pc", osType := "linux", agentVersion := "1" }
  backupPolicy := { paths := [], excludes := [], includes := [] }
  fileTree := { root := "", entries := [] }
  chunkMapping := []
  encryptionInfo := { enabled := false, algorithm := "", keyRef := none }
  compressionInfo := { algorithm := "zstd", level := 3 }
  verifyInfo := { verified := true, verifiedAt := none, checksum := none }
  status := status
  createdAt := 0
  totalSize := 0
  storedSize := 0
  fileCount := 0
  chunkCount := 0

def exampleJson : Json :=
  Json.withReaders
    (fun _ => .error "EOF while parsing a value at line 1 column 0")
    (Json.readStatus (exampleSnapshot .created))

theorem readable_exampleSnapshot (status : SnapshotStatus) :
    Readable exampleJson (exampleSnapshot status) := by
  have hread : ∀ status', exampleJson.snapshotFromSlice
      (exampleJson.snapshotToVec (exampleSnapshot status')) =
        .ok (exampleSnapshot status') := by
    intro status'
    rw [exampleJson, Json.withReaders_snapshotFromSlice,
      Json.withReaders_snapshotToVec]
    exact Json.readStatus_utf8_snapshot (exampleSnapshot .created) status'
  exact ⟨hread status, hread .sealed⟩

theorem readsBack_example {calls : List Call}
    (h : ∀ call ∈ calls, ∀ repoId snapshot,
      call = .writeSnapshot repoId snapshot →
        ∃ status, snapshot = exampleSnapshot status) :
    ReadsBack exampleJson calls := by
  intro repoId snapshot hmem
  obtain ⟨status, rfl⟩ := h _ hmem repoId snapshot rfl
  exact readable_exampleSnapshot status

/-- A snapshot that is written as new and then sealed. -/
theorem immutable_writtenThenSealed :
    Immutable exampleJson
      [.writeSnapshot ⟨1⟩ (exampleSnapshot .created), .sealSnapshot ⟨1⟩ 5] := by
  refine (immutable_iff exampleJson _ (readsBack_example ?_)).mpr ?_
  · intro call hcall repoId snapshot heq
    subst heq
    simp only [List.mem_cons, Call.writeSnapshot.injEq, reduceCtorEq,
      List.not_mem_nil, or_false] at hcall
    exact ⟨.created, hcall.2⟩
  · rintro done call ⟨rest, hrest⟩
    cases done with
    | nil =>
        obtain ⟨rfl, -⟩ := List.cons.inj hrest
        intro _
        refine ⟨fun stored hread => ?_, fun hsealed => ?_⟩
        · cases hread
        · cases hsealed
    | cons first done =>
        obtain ⟨rfl, hsecond⟩ := List.cons.inj hrest
        cases done with
        | nil =>
            obtain ⟨rfl, -⟩ := List.cons.inj hsecond
            rintro stored - - ⟨corrupt, hmem, -, hstatus⟩
            simp only [List.mem_cons, Call.writeSnapshot.injEq,
              List.not_mem_nil, or_false] at hmem
            rw [hmem.2] at hstatus
            cases hstatus
        | cons second done =>
            simp at hrest

/-- A sealed snapshot that is overwritten by a new one. -/
theorem not_immutable_writtenOver :
    ReadsBack exampleJson
        [.writeSnapshot ⟨1⟩ (exampleSnapshot .sealed),
          .writeSnapshot ⟨1⟩ (exampleSnapshot .created)] ∧
      ¬ Immutable exampleJson
        [.writeSnapshot ⟨1⟩ (exampleSnapshot .sealed),
          .writeSnapshot ⟨1⟩ (exampleSnapshot .created)] := by
  have hreads : ReadsBack exampleJson
      [.writeSnapshot ⟨1⟩ (exampleSnapshot .sealed),
        .writeSnapshot ⟨1⟩ (exampleSnapshot .created)] := by
    refine readsBack_example ?_
    intro call hcall repoId snapshot heq
    subst heq
    simp only [List.mem_cons, Call.writeSnapshot.injEq, List.not_mem_nil,
      or_false] at hcall
    obtain ⟨-, rfl⟩ | ⟨-, rfl⟩ := hcall
    · exact ⟨.sealed, rfl⟩
    · exact ⟨.created, rfl⟩
  refine ⟨hreads, fun himmutable => ?_⟩
  have hallowed : Allowed exampleJson
      [.writeSnapshot ⟨1⟩ (exampleSnapshot .sealed)]
      (.writeSnapshot ⟨1⟩ (exampleSnapshot .created)) :=
    himmutable.allowed hreads (List.prefix_refl _)
  have hstored := (hallowed (by decide)).1 (exampleSnapshot .sealed)
    ((read_run_eq_ok_iff (hreads.of_initial (List.prefix_append _ _))).mpr rfl)
    rfl
  exact absurd (congrArg Snapshot.status hstored) (by decide)

end Example

end SealedSnapshots
end Badou
end HyperBackup
