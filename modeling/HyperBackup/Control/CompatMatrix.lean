import HyperBackup.Domain
import HyperBackup.Lib.HashMap
import HyperBackup.Lib.Runs

/-!
# The counters of a compatibility matrix

The test manager keeps the compatibility matrices in one map and their entries
in another.  A matrix counts the entries that passed and those that failed.
Reporting a status adds one to the counter of the new status and takes nothing
from that of the old one.

The balance of a counter says by how much it exceeds the number of entries that
have its status: by one for each report on an entry that has this status
already.  The counters are therefore exact as long as no judged entry is
reported again.
-/

namespace HyperBackup
namespace Control

open Lib Lib.Runs

/-- The status of a matrix is a string.  Four are named. -/
inductive MatrixStatus
  | idle
  | running
  | completed
  | failed
  | other (text : String)
      (h : text ∉ ["idle", "running", "completed", "failed"])
deriving DecidableEq

/-- The status of an entry is a string.  Five are named. -/
inductive EntryStatus
  | pending
  | pass
  | fail
  | missing
  | notApplicable
  | other (text : String)
      (h : text ∉ ["pending", "pass", "fail", "missing", "not_applicable"])
deriving DecidableEq

structure CompatibilityMatrix where
  id : Uuid
  name : GoString
  version : Int
  totalEntries : Int
  passedCount : Nat
  failedCount : Nat
  status : MatrixStatus
  createdAt : DateTime
  updatedAt : DateTime

/-- An entry; the evidence is a map from names to values, or nil. -/
structure MatrixEntry (V : Type) where
  id : Uuid
  matrixId : Uuid
  layer : GoString
  backend : GoString
  feature : GoString
  category : GoString
  status : EntryStatus
  executionTimeMs : Option Int
  evidence : Option (HashMap GoString V)
  executedAt : Option DateTime

structure MatrixManager (V : Type) where
  matrices : HashMap Uuid CompatibilityMatrix
  entries : HashMap Uuid (MatrixEntry V)

namespace MatrixManager

variable {V : Type}

def new : MatrixManager V where
  matrices := ∅
  entries := ∅

def createMatrix (id : Uuid) (now : DateTime) (name : GoString)
    (totalEntries : Int) (m : MatrixManager V) : MatrixManager V where
  matrices := m.matrices.insert id {
    id := id
    name := name
    version := 1
    totalEntries := totalEntries
    passedCount := 0
    failedCount := 0
    status := .idle
    createdAt := now
    updatedAt := now }
  entries := m.entries

def setMatrixStatus (id : Uuid) (status : MatrixStatus) (now : DateTime)
    (m : MatrixManager V) : Bool × MatrixManager V :=
  match m.matrices.lookup id with
  | none => (false, m)
  | some matrix =>
      (true, {
        matrices := m.matrices.insert id
          { matrix with status := status, updatedAt := now }
        entries := m.entries })

def newEntry (id matrixId : Uuid) (layer backend feature category : GoString) :
    MatrixEntry V where
  id := id
  matrixId := matrixId
  layer := layer
  backend := backend
  feature := feature
  category := category
  status := .pending
  executionTimeMs := none
  evidence := none
  executedAt := none

def addEntry (id matrixId : Uuid) (layer backend feature category : GoString)
    (m : MatrixManager V) : Except String (MatrixEntry V) × MatrixManager V :=
  match m.matrices.lookup matrixId with
  | none => (.error "compatibility matrix not found", m)
  | some _ =>
      let entry := newEntry id matrixId layer backend feature category
      (.ok entry, {
        matrices := m.matrices
        entries := m.entries.insert id entry })

/-- The matrix with its counters after a report of a status. -/
def counted (status : EntryStatus) (matrix : CompatibilityMatrix) :
    CompatibilityMatrix :=
  if status = .pass then
    { matrix with passedCount := matrix.passedCount + 1 }
  else if status = .fail then
    { matrix with failedCount := matrix.failedCount + 1 }
  else
    matrix

/-- The entry after a report. -/
def reported (status : EntryStatus) (execTimeMs : Option Int)
    (evidence : Option (HashMap GoString V)) (now : DateTime)
    (entry : MatrixEntry V) : MatrixEntry V :=
  { entry with
    status := status
    executionTimeMs := execTimeMs
    evidence := evidence
    executedAt := some now }

def updateEntryStatus (id : Uuid) (status : EntryStatus)
    (execTimeMs : Option Int) (evidence : Option (HashMap GoString V))
    (now : DateTime) (m : MatrixManager V) : Bool × MatrixManager V :=
  match m.entries.lookup id with
  | none => (false, m)
  | some entry =>
      (true, {
        matrices := HashMap.modify m.matrices entry.matrixId (counted status)
        entries := m.entries.insert id
          (reported status execTimeMs evidence now entry) })

/-- The entries of a matrix, in the order of the iteration. -/
def listEntries (order : IterOrder (Uuid × MatrixEntry V)) (matrixId : Uuid)
    (m : MatrixManager V) : List (MatrixEntry V) :=
  ((order.arrange (HashMap.toList m.entries)).map Prod.snd).filter
    fun e => e.matrixId = matrixId

/-- The calls on a manager, with what they draw. -/
inductive Call (V : Type)
  | createMatrix (id : Uuid) (now : DateTime) (name : GoString)
      (totalEntries : Int)
  | setMatrixStatus (id : Uuid) (status : MatrixStatus) (now : DateTime)
  | addEntry (id matrixId : Uuid) (layer backend feature category : GoString)
  | updateEntryStatus (id : Uuid) (status : EntryStatus)
      (execTimeMs : Option Int) (evidence : Option (HashMap GoString V))
      (now : DateTime)

/-- The identifier drawn for a new matrix or entry. -/
def Call.drawnId : Call V → Option Uuid
  | .createMatrix id _ _ _ => some id
  | .setMatrixStatus _ _ _ => none
  | .addEntry id _ _ _ _ _ => some id
  | .updateEntryStatus _ _ _ _ _ => none

def step (m : MatrixManager V) : Call V → MatrixManager V
  | .createMatrix id now name totalEntries =>
      createMatrix id now name totalEntries m
  | .setMatrixStatus id status now => (setMatrixStatus id status now m).2
  | .addEntry id matrixId layer backend feature category =>
      (addEntry id matrixId layer backend feature category m).2
  | .updateEntryStatus id status execTimeMs evidence now =>
      (updateEntryStatus id status execTimeMs evidence now m).2

def run (calls : List (Call V)) : MatrixManager V :=
  calls.foldl step new

/-- The counters of a matrix are the numbers of its entries that passed and
that failed. -/
structure Exact (order : IterOrder (Uuid × MatrixEntry V)) (m : MatrixManager V)
    (matrix : CompatibilityMatrix) (matrixId : Uuid) : Prop where
  passed : matrix.passedCount =
    (listEntries order matrixId m).countP fun e => e.status = .pass
  failed : matrix.failedCount =
    (listEntries order matrixId m).countP fun e => e.status = .fail
  within : matrix.passedCount + matrix.failedCount ≤
    (listEntries order matrixId m).length

/-- The status is one that is counted. -/
def Judged (s : EntryStatus) : Prop :=
  s = .pass ∨ s = .fail

/-- The call reports on an entry that has been judged. -/
def Rejudges (m : MatrixManager V) (call : Call V) : Prop :=
  ∃ id status execTimeMs evidence now entry,
    call = .updateEntryStatus id status execTimeMs evidence now ∧
      m.entries.lookup id = some entry ∧ Judged entry.status

section Balance

/-- The counter that a matrix keeps for a status. -/
def counterOf (x : EntryStatus) (matrix : CompatibilityMatrix) : Nat :=
  match x with
  | .pass => matrix.passedCount
  | .fail => matrix.failedCount
  | _ => 0

/-- The counter of a matrix, zero if there is no such matrix. -/
def counterAt (x : EntryStatus) (matrixId : Uuid) (m : MatrixManager V) : Nat :=
  match m.matrices.lookup matrixId with
  | some matrix => counterOf x matrix
  | none => 0

/-- The entry belongs to the matrix and has the status. -/
def counts (x : EntryStatus) (matrixId : Uuid) (e : MatrixEntry V) : Bool :=
  decide (e.status = x) && decide (e.matrixId = matrixId)

/-- The number of entries of a matrix that have the status. -/
def count (x : EntryStatus) (matrixId : Uuid) (m : MatrixManager V) : Nat :=
  HashMap.total (fun e => (counts x matrixId e).toNat) m.entries

/-- One, if the call reports on an entry of the matrix that has the status. -/
def rejudged (x : EntryStatus) (matrixId : Uuid) (m : MatrixManager V) :
    Call V → Nat
  | .updateEntryStatus id _ _ _ _ =>
      match m.entries.lookup id with
      | some entry => (counts x matrixId entry).toNat
      | none => 0
  | _ => 0

/-- The number of reports on entries that had the status already. -/
def excess (x : EntryStatus) (matrixId : Uuid) :
    MatrixManager V → List (Call V) → Nat
  | _, [] => 0
  | m, call :: calls =>
      rejudged x matrixId m call + excess x matrixId (step m call) calls

/-- The calls draw identifiers that are not in use, and every entry has its
matrix. -/
structure Ready (m : MatrixManager V) (calls : List (Call V)) : Prop where
  nodup : (calls.filterMap Call.drawnId).Nodup
  unused : ∀ id ∈ calls.filterMap Call.drawnId,
    m.matrices.lookup id = none ∧ m.entries.lookup id = none
  owned : ∀ id entry, m.entries.lookup id = some entry →
    (m.matrices.lookup entry.matrixId).isSome

variable {m : MatrixManager V} {call : Call V} {calls : List (Call V)}
variable {x : EntryStatus} {matrixId : Uuid}

theorem counterOf_counted (hx : Judged x) (status : EntryStatus)
    (matrix : CompatibilityMatrix) :
    counterOf x (counted status matrix) =
      counterOf x matrix + (decide (status = x)).toNat := by
  rcases hx with rfl | rfl
  · by_cases hpass : status = .pass
    · simp [counted, counterOf, hpass]
    · by_cases hfail : status = .fail <;> simp [counted, counterOf, hpass, hfail]
  · by_cases hpass : status = .pass
    · simp [counted, counterOf, hpass]
    · by_cases hfail : status = .fail <;> simp [counted, counterOf, hpass, hfail]

theorem counts_reported (status : EntryStatus) (execTimeMs : Option Int)
    (evidence : Option (HashMap GoString V)) (now : DateTime)
    (entry : MatrixEntry V) :
    counts x matrixId (reported status execTimeMs evidence now entry) =
      (decide (status = x) && decide (entry.matrixId = matrixId)) :=
  rfl

/-- A call leaves an identifier unused, unless it draws it. -/
theorem unused_step {id : Uuid} (hid : call.drawnId ≠ some id)
    (h : m.matrices.lookup id = none ∧ m.entries.lookup id = none) :
    (step m call).matrices.lookup id = none ∧
      (step m call).entries.lookup id = none := by
  obtain ⟨hmatrix, hentry⟩ := h
  cases call with
  | createMatrix drawn now name totalEntries =>
      have hne : id ≠ drawn := fun heq => hid (by rw [heq]; rfl)
      exact ⟨by simp [step, createMatrix, hne, hmatrix], hentry⟩
  | setMatrixStatus other status now =>
      cases hlookup : m.matrices.lookup other with
      | none =>
          simp [step, setMatrixStatus, hlookup, hmatrix, hentry]
      | some matrix =>
          have hne : id ≠ other := by
            rintro rfl
            rw [hmatrix] at hlookup
            cases hlookup
          simp [step, setMatrixStatus, hlookup, hne, hmatrix, hentry]
  | addEntry drawn owner layer backend feature category =>
      have hne : id ≠ drawn := fun heq => hid (by rw [heq]; rfl)
      cases hlookup : m.matrices.lookup owner with
      | none =>
          simp [step, addEntry, hlookup, hmatrix, hentry]
      | some matrix =>
          simp [step, addEntry, hlookup, hne, hmatrix, hentry]
  | updateEntryStatus other status execTimeMs evidence now =>
      cases hlookup : m.entries.lookup other with
      | none =>
          simp [step, updateEntryStatus, hlookup, hmatrix, hentry]
      | some entry =>
          have hne : id ≠ other := by
            rintro rfl
            rw [hentry] at hlookup
            cases hlookup
          simp only [step, updateEntryStatus, hlookup, HashMap.lookup_modify,
            HashMap.lookup_insert_of, if_neg hne, hentry, and_true]
          by_cases howner : id = entry.matrixId
          · rw [if_pos howner, ← howner, hmatrix]
            rfl
          · rw [if_neg howner, hmatrix]

/-- A matrix stays in the map. -/
theorem isSome_lookup_step {id : Uuid} (h : (m.matrices.lookup id).isSome) :
    ((step m call).matrices.lookup id).isSome := by
  cases call with
  | createMatrix drawn now name totalEntries =>
      simp only [step, createMatrix, HashMap.lookup_insert_of]
      split
      · rfl
      · exact h
  | setMatrixStatus other status now =>
      cases hlookup : m.matrices.lookup other with
      | none =>
          simpa [step, setMatrixStatus, hlookup] using h
      | some matrix =>
          simp only [step, setMatrixStatus, hlookup, HashMap.lookup_insert_of]
          split
          · rfl
          · exact h
  | addEntry drawn owner layer backend feature category =>
      cases hlookup : m.matrices.lookup owner <;>
        simpa [step, addEntry, hlookup] using h
  | updateEntryStatus other status execTimeMs evidence now =>
      cases hlookup : m.entries.lookup other with
      | none =>
          simpa [step, updateEntryStatus, hlookup] using h
      | some entry =>
          simp only [step, updateEntryStatus, hlookup, HashMap.lookup_modify]
          split
          next heq =>
            rw [← heq, Option.isSome_map]
            exact h
          next =>
            exact h

theorem owned_step
    (h : ∀ id entry, m.entries.lookup id = some entry →
      (m.matrices.lookup entry.matrixId).isSome) :
    ∀ id entry, (step m call).entries.lookup id = some entry →
      ((step m call).matrices.lookup entry.matrixId).isSome := by
  intro id entry hentry
  apply isSome_lookup_step
  cases call with
  | createMatrix drawn now name totalEntries =>
      exact h id entry hentry
  | setMatrixStatus other status now =>
      cases hlookup : m.matrices.lookup other <;>
        exact h id entry (by simpa [step, setMatrixStatus, hlookup] using hentry)
  | addEntry drawn owner layer backend feature category =>
      cases hlookup : m.matrices.lookup owner with
      | none =>
          exact h id entry (by simpa [step, addEntry, hlookup] using hentry)
      | some matrix =>
          simp only [step, addEntry, hlookup] at hentry
          rcases HashMap.lookup_insert_eq_some.mp hentry with ⟨-, rfl⟩ | ⟨-, hold⟩
          · exact Option.isSome_iff_exists.mpr ⟨matrix, hlookup⟩
          · exact h id entry hold
  | updateEntryStatus other status execTimeMs evidence now =>
      cases hlookup : m.entries.lookup other with
      | none =>
          exact h id entry
            (by simpa [step, updateEntryStatus, hlookup] using hentry)
      | some old =>
          simp only [step, updateEntryStatus, hlookup] at hentry
          rcases HashMap.lookup_insert_eq_some.mp hentry with ⟨-, rfl⟩ | ⟨-, hold⟩
          · exact h other old hlookup
          · exact h id entry hold

theorem ready_step (h : Ready m (call :: calls)) : Ready (step m call) calls := by
  cases hdrawn : call.drawnId with
  | none =>
      have heq : (call :: calls).filterMap Call.drawnId =
          calls.filterMap Call.drawnId := by
        simp [hdrawn]
      exact ⟨heq ▸ h.nodup,
        fun id hid => unused_step (by simp [hdrawn]) (h.unused id (heq ▸ hid)),
        owned_step h.owned⟩
  | some drawn =>
      have heq : (call :: calls).filterMap Call.drawnId =
          drawn :: calls.filterMap Call.drawnId := by
        simp [hdrawn]
      have hnodup := heq ▸ h.nodup
      obtain ⟨hnotmem, hrest⟩ := List.nodup_cons.mp hnodup
      refine ⟨hrest, fun id hid => ?_, owned_step h.owned⟩
      have hne : call.drawnId ≠ some id := by
        rw [hdrawn]
        rintro heq'
        exact hnotmem (Option.some.inj heq' ▸ hid)
      exact unused_step hne (h.unused id (heq ▸ List.mem_cons_of_mem _ hid))

theorem counterAt_insert (id : Uuid) (matrix : CompatibilityMatrix)
    (entries : HashMap Uuid (MatrixEntry V)) :
    counterAt x matrixId
        ⟨m.matrices.insert id matrix, entries⟩ =
      if matrixId = id then counterOf x matrix else counterAt x matrixId m := by
  by_cases h : matrixId = id
  · subst h
    simp [counterAt]
  · simp [counterAt, h]

/-- A new matrix counts nothing yet. -/
theorem counterAt_createMatrix (hx : Judged x) {drawn : Uuid}
    (hnone : m.matrices.lookup drawn = none) (now : DateTime) (name : GoString)
    (totalEntries : Int) :
    counterAt x matrixId (createMatrix drawn now name totalEntries m) =
      counterAt x matrixId m := by
  rw [createMatrix, counterAt_insert]
  split
  next heq =>
    rw [heq, counterAt, hnone]
    rcases hx with rfl | rfl <;> rfl
  next =>
    rfl

theorem counterAt_setMatrixStatus (hx : Judged x) (other : Uuid) (status : MatrixStatus)
    (now : DateTime) :
    counterAt x matrixId (setMatrixStatus other status now m).2 =
      counterAt x matrixId m := by
  cases hlookup : m.matrices.lookup other with
  | none =>
      simp [setMatrixStatus, hlookup]
  | some matrix =>
      simp only [setMatrixStatus, hlookup, counterAt_insert]
      split
      next heq =>
        rw [heq, counterAt, hlookup]
        rcases hx with rfl | rfl <;> rfl
      next =>
        rfl

/-- A report counts for the matrix of its entry. -/
theorem counterAt_updateEntryStatus (hx : Judged x) {id : Uuid} {entry : MatrixEntry V}
    (hlookup : m.entries.lookup id = some entry)
    (howned : (m.matrices.lookup entry.matrixId).isSome) (status : EntryStatus)
    (execTimeMs : Option Int) (evidence : Option (HashMap GoString V)) (now : DateTime) :
    counterAt x matrixId (updateEntryStatus id status execTimeMs evidence now m).2 =
      counterAt x matrixId m +
        (counts x matrixId (reported status execTimeMs evidence now entry)).toNat := by
  obtain ⟨matrix, hmatrix⟩ := Option.isSome_iff_exists.mp howned
  simp only [updateEntryStatus, hlookup, HashMap.modify, hmatrix, counterAt_insert,
    counts_reported]
  by_cases heq : matrixId = entry.matrixId
  · rw [if_pos heq, counterOf_counted hx, counterAt, heq, hmatrix]
    simp
  · rw [if_neg heq]
    simp [Ne.symm heq]

/-- What a call adds to a counter it adds to the entries that have the status,
or else it reports on an entry that had it. -/
theorem balance_step (matrixId : Uuid) (hx : Judged x) (h : Ready m (call :: calls)) :
    counterAt x matrixId (step m call) + count x matrixId m =
      counterAt x matrixId m + count x matrixId (step m call) +
        rejudged x matrixId m call := by
  cases call with
  | createMatrix drawn now name totalEntries =>
      have hnone := (h.unused drawn (by simp [Call.drawnId])).1
      simp only [step, counterAt_createMatrix hx hnone, rejudged]
      rfl
  | setMatrixStatus other status now =>
      have hentries : (setMatrixStatus other status now m).2.entries = m.entries := by
        unfold setMatrixStatus
        split <;> rfl
      simp only [step, counterAt_setMatrixStatus hx, rejudged, count, hentries]
      rfl
  | addEntry drawn owner layer backend feature category =>
      cases hlookup : m.matrices.lookup owner with
      | none =>
          simp [step, addEntry, hlookup, rejudged]
      | some matrix =>
          have hnone := (h.unused drawn (by simp [Call.drawnId])).2
          have hweight : (counts x matrixId (newEntry (V := V) drawn owner layer
              backend feature category)).toNat = 0 := by
            rcases hx with rfl | rfl <;> simp [counts, newEntry]
          simp only [step, addEntry, hlookup, rejudged, count,
            HashMap.total_insert hnone, hweight]
          rw [Nat.zero_add, Nat.add_zero]
          rfl
  | updateEntryStatus id status execTimeMs evidence now =>
      cases hlookup : m.entries.lookup id with
      | none =>
          simp [step, updateEntryStatus, hlookup, rejudged]
      | some entry =>
          have hentries := HashMap.total_replace hlookup
            (fun e => (counts x matrixId e).toNat)
            (reported status execTimeMs evidence now entry)
          have hcounter := @counterAt_updateEntryStatus _ _ _ matrixId hx _ _ hlookup
            (h.owned id entry hlookup) status execTimeMs evidence now
          simp only [step, hcounter, rejudged, hlookup]
          simp only [count, updateEntryStatus, hlookup]
          omega

theorem balance_run (matrixId : Uuid) (hx : Judged x) (h : Ready m calls) :
    counterAt x matrixId (calls.foldl step m) + count x matrixId m =
      counterAt x matrixId m + count x matrixId (calls.foldl step m) +
        excess x matrixId m calls := by
  induction calls generalizing m with
  | nil =>
      rfl
  | cons call calls ih =>
      have hstep := balance_step matrixId hx h
      have hrest := ih (ready_step h)
      simp only [List.foldl_cons, excess]
      omega

theorem ready_new (hids : (calls.filterMap Call.drawnId).Nodup) :
    Ready (new : MatrixManager V) calls where
  nodup := hids
  unused := fun _ _ => ⟨rfl, rfl⟩
  owned := fun id entry hentry => by cases hentry

/-- A counter exceeds the number of entries by the reports on entries that had
its status. -/
theorem counterAt_run (matrixId : Uuid) (hx : Judged x)
    (hids : (calls.filterMap Call.drawnId).Nodup) :
    counterAt x matrixId (run calls) =
      count x matrixId (run calls) + excess x matrixId new calls := by
  have hbalance := balance_run matrixId hx (ready_new hids)
  have hcounter : counterAt x matrixId (new : MatrixManager V) = 0 := rfl
  have hcount : count x matrixId (new : MatrixManager V) = 0 := rfl
  rw [hcounter, hcount] at hbalance
  simpa [run] using hbalance

end Balance

section Exactness

variable {order : IterOrder (Uuid × MatrixEntry V)}
variable {m : MatrixManager V} {call : Call V} {calls : List (Call V)}
variable {matrixId : Uuid}

theorem countP_listEntries (order : IterOrder (Uuid × MatrixEntry V))
    (x : EntryStatus) :
    (listEntries order matrixId m).countP (fun e => e.status = x) =
      count x matrixId m := by
  rw [listEntries, List.countP_filter]
  exact HashMap.countP_arrange order (counts x matrixId) m.entries

/-- Entries cannot have passed and failed. -/
theorem countP_add_countP_le (l : List (MatrixEntry V)) :
    (l.countP fun e => e.status = .pass) + (l.countP fun e => e.status = .fail) ≤
      l.length := by
  rw [List.length_eq_countP_add_countP (fun e : MatrixEntry V => e.status = .pass)]
  refine Nat.add_le_add_left (List.countP_mono_left fun e _ he => ?_) _
  have hfail : e.status = .fail := of_decide_eq_true he
  simp [hfail]

/-- The counters of a matrix are exact if they equal the counts. -/
theorem exact_iff {matrix : CompatibilityMatrix}
    (h : m.matrices.lookup matrixId = some matrix) :
    Exact order m matrix matrixId ↔
      ∀ x, Judged x → counterAt x matrixId m = count x matrixId m := by
  constructor
  · rintro ⟨hpassed, hfailed, -⟩ x (rfl | rfl)
    · rw [← countP_listEntries order, ← hpassed, counterAt, h]
      rfl
    · rw [← countP_listEntries order, ← hfailed, counterAt, h]
      rfl
  · intro heq
    have hpassed := heq .pass (Or.inl rfl)
    have hfailed := heq .fail (Or.inr rfl)
    rw [← countP_listEntries order, counterAt, h] at hpassed hfailed
    exact ⟨hpassed, hfailed, by
      have hle := countP_add_countP_le (listEntries order matrixId m)
      rwa [← hpassed, ← hfailed] at hle⟩

theorem rejudged_eq_zero_iff :
    (∀ x matrixId, Judged x → rejudged x matrixId m call = 0) ↔
      ¬ Rejudges m call := by
  constructor
  · rintro hzero ⟨id, status, execTimeMs, evidence, now, entry, rfl, hentry, hjudged⟩
    have h := hzero entry.status entry.matrixId hjudged
    simp [rejudged, hentry, counts] at h
  · intro h x matrixId hx
    cases call with
    | updateEntryStatus id status execTimeMs evidence now =>
        cases hentry : m.entries.lookup id with
        | none =>
            simp [rejudged, hentry]
        | some entry =>
            have hne : entry.status ≠ x := fun heq =>
              h ⟨id, status, execTimeMs, evidence, now, entry, rfl, hentry,
                heq ▸ hx⟩
            simp [rejudged, hentry, counts, hne]
    | _ =>
        rfl

theorem excess_eq_zero_iff :
    (∀ x matrixId, Judged x → excess x matrixId m calls = 0) ↔
      Always step (fun m call => ¬ Rejudges m call) m calls := by
  induction calls generalizing m with
  | nil =>
      simp [excess]
  | cons call calls ih =>
      rw [always_cons, ← ih, ← rejudged_eq_zero_iff]
      simp only [excess, Nat.add_eq_zero_iff, forall_and]

/-- The counters of every matrix are exact after a run, if and only if no call of
the run reports on an entry that passed or failed before. -/
theorem counters_exact_iff (order : IterOrder (Uuid × MatrixEntry V))
    (calls : List (Call V)) (hids : (calls.filterMap Call.drawnId).Nodup) :
    (∀ matrixId matrix, (run calls).matrices.lookup matrixId = some matrix →
        Exact order (run calls) matrix matrixId) ↔
      Always step (fun m call => ¬ Rejudges m call) new calls := by
  rw [← excess_eq_zero_iff]
  constructor
  · intro h x matrixId hx
    have hcounter := counterAt_run matrixId hx hids
    cases hlookup : (run calls).matrices.lookup matrixId with
    | none =>
        have hzero : counterAt x matrixId (run calls) = 0 := by
          rw [counterAt, hlookup]
        omega
    | some matrix =>
        have hexact := (exact_iff hlookup).mp (h matrixId matrix hlookup) x hx
        omega
  · intro h matrixId matrix hlookup
    rw [exact_iff hlookup]
    intro x hx
    rw [counterAt_run matrixId hx hids, h x matrixId hx, Nat.add_zero]

/-- An entry that passed and later failed. -/
def regressed : List (Call Unit) := [
  .createMatrix 1 0 [] 1,
  .addEntry 2 1 [] [] [] [],
  .updateEntryStatus 2 .pass none none 1,
  .updateEntryStatus 2 .fail none none 2]

/-- A matrix with one entry counts two. -/
theorem counters_not_exact :
    ¬ ∀ (order : IterOrder (Uuid × MatrixEntry Unit)) (calls : List (Call Unit)),
      (calls.filterMap Call.drawnId).Nodup →
        ∀ matrixId matrix, (run calls).matrices.lookup matrixId = some matrix →
          Exact order (run calls) matrix matrixId := by
  intro h
  have hids : (regressed.filterMap Call.drawnId).Nodup := by decide
  obtain ⟨matrix, hlookup, hpassed⟩ : ∃ matrix,
      (run regressed).matrices.lookup 1 = some matrix ∧ matrix.passedCount = 1 :=
    ⟨_, rfl, rfl⟩
  have hexact := h IterOrder.asStored regressed hids 1 matrix hlookup
  have hzero : (listEntries IterOrder.asStored 1 (run regressed)).countP
      (fun e => e.status = .pass) = 0 := by
    decide
  rw [hexact.passed, hzero] at hpassed
  cases hpassed

/-- An entry that is reported once. -/
theorem counters_exact_iff_single :
    ((regressed.take 3).filterMap Call.drawnId).Nodup ∧
      ∀ matrixId matrix,
        (run (regressed.take 3)).matrices.lookup matrixId = some matrix →
          Exact IterOrder.asStored (run (regressed.take 3)) matrix matrixId := by
  refine ⟨by decide,
    (counters_exact_iff IterOrder.asStored (regressed.take 3) (by decide)).mpr ?_⟩
  refine ⟨?_, ?_, ?_, trivial⟩
  · rintro ⟨id, status, execTimeMs, evidence, now, entry, hcall, -⟩
    cases hcall
  · rintro ⟨id, status, execTimeMs, evidence, now, entry, hcall, -⟩
    cases hcall
  · rintro ⟨id, status, execTimeMs, evidence, now, entry, hcall, hentry, hjudged⟩
    cases hcall
    cases hentry
    rcases hjudged with hpass | hfail
    · cases hpass
    · cases hfail

end Exactness

end MatrixManager
end Control
end HyperBackup
