import HyperBackup.Cluster.Raft
import HyperBackup.Lib.Runs
import Mathlib.Data.List.Sort

/-!
# Where the replicas of a chunk are

The manager keeps the nodes that are registered and, for every chunk, the
replicas that were written.  A node that leaves takes its replicas with it:
they are recorded as missing.  Repairing a chunk records its missing replicas
as complete, and does not look whether their nodes are registered.

A chunk counts as healthy if more than half of its replicas are complete.  The
number that is asked for exceeds the number of replicas if there is at most
one.
-/

namespace HyperBackup
namespace Cluster

open Lib Lib.Program Lib.Runs

inductive ReplicaStatus
  | complete
  | pending
  | missing
  | repairing
deriving DecidableEq

structure ChunkReplica where
  nodeId : NodeId
  status : ReplicaStatus
  writtenAt : DateTime
deriving DecidableEq

structure ChunkReplicaInfo where
  chunkHash : String
  replicas : List ChunkReplica
  minRequired : Nat

namespace ChunkReplicaInfo

def completeCount (info : ChunkReplicaInfo) : Nat :=
  (info.replicas.filter fun r => r.status = .complete).length

def isHealthy (info : ChunkReplicaInfo) : Bool :=
  info.completeCount ≥ info.minRequired

end ChunkReplicaInfo

structure ReplicaManager where
  replicationFactor : Nat
  replicas : HashMap String ChunkReplicaInfo
  availableNodes : List NodeId

inductive ReplicaError
  | insufficientNodes (needed available : Nat)
  | chunkNotFound (chunkHash : String)

namespace ReplicaManager

def new (replicationFactor : Nat) : ReplicaManager where
  replicationFactor := replicationFactor
  replicas := ∅
  availableNodes := []

def addNode (nodeId : NodeId) (m : ReplicaManager) : ReplicaManager :=
  if nodeId ∈ m.availableNodes then m
  else { m with availableNodes := m.availableNodes ++ [nodeId] }

/-- The replica as it is when a node has left. -/
def lose (nodeId : NodeId) (r : ChunkReplica) : ChunkReplica :=
  if r.nodeId = nodeId then { r with status := .missing } else r

def removeNode (nodeId : NodeId) (m : ReplicaManager) : ReplicaManager :=
  { m with
    availableNodes := m.availableNodes.filter fun n => n ≠ nodeId
    replicas := HashMap.mapValues
      (fun info => { info with replicas := info.replicas.map (lose nodeId) })
      m.replicas }

section Write

variable (blake3 : Bytes → HashDigest)

/-- The first eight bytes of the hash of the name of a chunk. -/
def seed (chunkHash : String) : UInt64 :=
  UInt64.ofNat (LittleEndian.decode
    ((blake3 chunkHash.toUTF8.toList).toList.take 8))

/-- The positions of the nodes, sorted by their product with the seed. -/
def sortedIndices (chunkHash : String) (count : Nat) : List Nat :=
  (List.range count).insertionSort fun i j =>
    UInt64.ofNat i * seed blake3 chunkHash ≤ UInt64.ofNat j * seed blake3 chunkHash

def selectReplicaNodes (chunkHash : String) (m : ReplicaManager) :
    Except ReplicaError (List NodeId) :=
  if m.availableNodes.length < m.replicationFactor then
    .error (.insufficientNodes m.replicationFactor m.availableNodes.length)
  else
    .ok (((sortedIndices blake3 chunkHash m.availableNodes.length).take
      m.replicationFactor).filterMap fun i => m.availableNodes[i]?)

/-- The replicas on some nodes, each written at its time. -/
def writtenInfo (chunkHash : String) (now : NodeId → DateTime) (factor : Nat)
    (targetNodes : List NodeId) : ChunkReplicaInfo where
  chunkHash := chunkHash
  replicas := targetNodes.map fun nodeId =>
    { nodeId := nodeId, status := .complete, writtenAt := now nodeId }
  minRequired := (factor + 1) / 2 + 1

def withInfo (info : ChunkReplicaInfo) (m : ReplicaManager) : ReplicaManager :=
  { m with replicas := m.replicas.insert info.chunkHash info }

def writeReplicas (chunkHash : String) (now : NodeId → DateTime) :
    EStateM ReplicaError ReplicaManager ChunkReplicaInfo := do
  let m ← get
  match selectReplicaNodes blake3 chunkHash m with
  | .error e => throw e
  | .ok targetNodes =>
      let info := writtenInfo chunkHash now m.replicationFactor targetNodes
      modify (withInfo info)
      return info

end Write

/-- The replica as it is after a repair. -/
def repaired (now : NodeId → DateTime) (r : ChunkReplica) : ChunkReplica :=
  if r.status = .missing then
    { r with status := .complete, writtenAt := now r.nodeId }
  else r

/-- The manager with other replicas of a chunk. -/
def withReplicas (chunkHash : String) (info : ChunkReplicaInfo)
    (replicas : List ChunkReplica) (m : ReplicaManager) : ReplicaManager :=
  { m with replicas := m.replicas.insert chunkHash { info with replicas := replicas } }

/-- The number of replicas that are repaired. -/
def repairReplicas (chunkHash : String) (now : NodeId → DateTime) :
    EStateM ReplicaError ReplicaManager Nat := do
  let m ← get
  match m.replicas.lookup chunkHash with
  | none => throw (.chunkNotFound chunkHash)
  | some info =>
      modify (withReplicas chunkHash info (info.replicas.map (repaired now)))
      return (info.replicas.filter fun r => r.status = .missing).length

def deleteReplicas (chunkHash : String) (m : ReplicaManager) : ReplicaManager :=
  { m with replicas := m.replicas.erase chunkHash }

/-- Whether a chunk is known and healthy. -/
def isHealthy (chunkHash : String) (m : ReplicaManager) : Bool :=
  match m.replicas.lookup chunkHash with
  | none => false
  | some info => info.isHealthy

/-- The calls on a manager, with the times that they read. -/
inductive Call
  | addNode (nodeId : NodeId)
  | removeNode (nodeId : NodeId)
  | writeReplicas (chunkHash : String) (now : NodeId → DateTime)
  | repairReplicas (chunkHash : String) (now : NodeId → DateTime)
  | deleteReplicas (chunkHash : String)

section Runs

variable (blake3 : Bytes → HashDigest)

def step (m : ReplicaManager) : Call → ReplicaManager
  | .addNode nodeId => addNode nodeId m
  | .removeNode nodeId => removeNode nodeId m
  | .writeReplicas chunkHash now => stateAfter (writeReplicas blake3 chunkHash now) m
  | .repairReplicas chunkHash now => stateAfter (repairReplicas chunkHash now) m
  | .deleteReplicas chunkHash => deleteReplicas chunkHash m

def run (factor : Nat) (calls : List Call) : ReplicaManager :=
  calls.foldl (step blake3) (new factor)

/-- A replica that is recorded as complete is on a registered node. -/
def Placed (m : ReplicaManager) : Prop :=
  ∀ chunkHash info, m.replicas.lookup chunkHash = some info →
    ∀ r ∈ info.replicas, r.status = .complete → r.nodeId ∈ m.availableNodes

/-- The replicas of a chunk are on different nodes. -/
def Apart (m : ReplicaManager) : Prop :=
  ∀ chunkHash info, m.replicas.lookup chunkHash = some info →
    (info.replicas.map ChunkReplica.nodeId).Nodup

/-- A call that writes replicas records as many as it should, and the chunk is
healthy then. -/
def WritesWell (m : ReplicaManager) (call : Call) : Prop :=
  ∀ chunkHash now info, call = .writeReplicas chunkHash now →
    outcome (writeReplicas blake3 chunkHash now) m = .ok info →
    info.replicas.length = m.replicationFactor ∧
      (step blake3 m call).replicas.lookup chunkHash = some info ∧
      (step blake3 m call).isHealthy chunkHash

/-- What holds along a run of calls. -/
structure PlacementLaw (factor : Nat) (calls : List Call) : Prop where
  placed : ∀ before, before <+: calls → Placed (run blake3 factor before)
  apart : ∀ before, before <+: calls → Apart (run blake3 factor before)
  written : ∀ before call later, calls = before ++ call :: later →
    WritesWell blake3 (run blake3 factor before) call

/-- The call writes with a factor of at least two, or repairs a chunk that
misses replicas on registered nodes only. -/
def Harmless (m : ReplicaManager) : Call → Prop
  | .writeReplicas _ _ =>
      m.replicationFactor ≤ m.availableNodes.length → 2 ≤ m.replicationFactor
  | .repairReplicas chunkHash _ =>
      ∀ info, m.replicas.lookup chunkHash = some info →
        ∀ r ∈ info.replicas, r.status = .missing → r.nodeId ∈ m.availableNodes
  | _ => True

end Runs

section Steps

variable {blake3 : Bytes → HashDigest} {m : ReplicaManager}

theorem nodup_sortedIndices (chunkHash : String) (count : Nat) :
    (sortedIndices blake3 chunkHash count).Nodup :=
  (List.perm_insertionSort _ _).nodup_iff.mpr List.nodup_range

theorem mem_sortedIndices {chunkHash : String} {count i : Nat} :
    i ∈ sortedIndices blake3 chunkHash count ↔ i < count :=
  (List.perm_insertionSort _ _).mem_iff.trans List.mem_range

theorem length_sortedIndices (chunkHash : String) (count : Nat) :
    (sortedIndices blake3 chunkHash count).length = count :=
  (List.perm_insertionSort _ _).length_eq.trans List.length_range

/-- Positions below the length pick as many elements. -/
theorem length_filterMap_getElem? {l : List NodeId} {indices : List Nat}
    (h : ∀ i ∈ indices, i < l.length) :
    (indices.filterMap fun i => l[i]?).length = indices.length := by
  induction indices with
  | nil =>
      rfl
  | cons i indices ih =>
      have hi := List.getElem?_eq_getElem (h i List.mem_cons_self)
      rw [List.filterMap_cons_some hi, List.length_cons, List.length_cons,
        ih fun j hj => h j (List.mem_cons_of_mem _ hj)]

/-- Distinct positions pick distinct elements of a list without repetitions. -/
theorem nodup_filterMap_getElem? {l : List NodeId} {indices : List Nat}
    (hl : l.Nodup) (h : indices.Nodup) :
    (indices.filterMap fun i => l[i]?).Nodup := by
  refine h.filterMap fun i j n hi hj => ?_
  have hlen := (List.getElem?_eq_some_iff.mp hi).1
  exact (List.getElem?_inj hlen hl).mp
    ((Option.mem_def.mp hi).trans (Option.mem_def.mp hj).symm)

/-- As many different registered nodes as there should be replicas. -/
theorem selectReplicaNodes_cases (chunkHash : String) (m : ReplicaManager) :
    (m.availableNodes.length < m.replicationFactor ∧
        selectReplicaNodes blake3 chunkHash m =
          .error (.insufficientNodes m.replicationFactor m.availableNodes.length)) ∨
      m.replicationFactor ≤ m.availableNodes.length ∧
        ∃ targetNodes, selectReplicaNodes blake3 chunkHash m = .ok targetNodes ∧
          targetNodes.length = m.replicationFactor ∧
          (∀ n ∈ targetNodes, n ∈ m.availableNodes) ∧
          (m.availableNodes.Nodup → targetNodes.Nodup) := by
  by_cases hfew : m.availableNodes.length < m.replicationFactor
  · exact Or.inl ⟨hfew, by simp [selectReplicaNodes, hfew]⟩
  · have hselect : selectReplicaNodes blake3 chunkHash m =
        .ok (((sortedIndices blake3 chunkHash m.availableNodes.length).take
          m.replicationFactor).filterMap fun i => m.availableNodes[i]?) := by
      simp only [selectReplicaNodes, hfew, if_false]
    refine Or.inr ⟨Nat.not_lt.mp hfew, _, hselect, ?_, ?_, ?_⟩
    · rw [length_filterMap_getElem?, List.length_take, length_sortedIndices]
      · exact Nat.min_eq_left (Nat.not_lt.mp hfew)
      · exact fun i hi => mem_sortedIndices.mp (List.mem_of_mem_take hi)
    · intro n hn
      obtain ⟨i, -, hi⟩ := List.mem_filterMap.mp hn
      exact List.mem_of_getElem? hi
    · intro hnodup
      exact nodup_filterMap_getElem? hnodup
        ((nodup_sortedIndices chunkHash _).sublist (List.take_sublist _ _))

/-- What a write does. -/
theorem writeReplicas_cases (chunkHash : String) (now : NodeId → DateTime)
    (m : ReplicaManager) :
    (m.availableNodes.length < m.replicationFactor ∧
        (writeReplicas blake3 chunkHash now).run m =
          .error (.insufficientNodes m.replicationFactor m.availableNodes.length) m) ∨
      m.replicationFactor ≤ m.availableNodes.length ∧
        ∃ targetNodes,
          (writeReplicas blake3 chunkHash now).run m =
            .ok (writtenInfo chunkHash now m.replicationFactor targetNodes)
              (withInfo (writtenInfo chunkHash now m.replicationFactor targetNodes) m) ∧
          targetNodes.length = m.replicationFactor ∧
          (∀ n ∈ targetNodes, n ∈ m.availableNodes) ∧
          (m.availableNodes.Nodup → targetNodes.Nodup) := by
  rcases @selectReplicaNodes_cases blake3 chunkHash m with
    ⟨hfew, hselect⟩ | ⟨henough, targetNodes, hselect, hnodes⟩
  · refine Or.inl ⟨hfew, ?_⟩
    simp only [writeReplicas, EStateM.run_bind, EStateM.run_get, hselect]
    rfl
  · refine Or.inr ⟨henough, targetNodes, ?_, hnodes⟩
    simp only [writeReplicas, EStateM.run_bind, EStateM.run_get, hselect]
    rfl

/-- Half of the replicas and one more are complete only if there are two. -/
theorem isHealthy_writtenInfo (chunkHash : String) (now : NodeId → DateTime)
    {factor : Nat} {targetNodes : List NodeId} (h : targetNodes.length = factor) :
    (writtenInfo chunkHash now factor targetNodes).isHealthy ↔ 2 ≤ factor := by
  have hall : (writtenInfo chunkHash now factor targetNodes).replicas.filter
      (fun r => r.status = .complete) =
      (writtenInfo chunkHash now factor targetNodes).replicas := by
    refine List.filter_eq_self.mpr fun r hr => ?_
    obtain ⟨n, -, rfl⟩ := List.mem_map.mp hr
    rfl
  have hcount : (writtenInfo chunkHash now factor targetNodes).completeCount =
      factor := by
    rw [ChunkReplicaInfo.completeCount, hall, writtenInfo, List.length_map, h]
  have hrequired : (writtenInfo chunkHash now factor targetNodes).minRequired =
      (factor + 1) / 2 + 1 :=
    rfl
  rw [ChunkReplicaInfo.isHealthy, hcount, hrequired, decide_eq_true_eq]
  omega

theorem step_writeReplicas (chunkHash : String) (now : NodeId → DateTime)
    (m : ReplicaManager) :
    (m.availableNodes.length < m.replicationFactor ∧
        step blake3 m (.writeReplicas chunkHash now) = m ∧
        ∀ info, outcome (writeReplicas blake3 chunkHash now) m ≠ .ok info) ∨
      m.replicationFactor ≤ m.availableNodes.length ∧
        ∃ targetNodes,
          step blake3 m (.writeReplicas chunkHash now) =
            withInfo (writtenInfo chunkHash now m.replicationFactor targetNodes) m ∧
          outcome (writeReplicas blake3 chunkHash now) m =
            .ok (writtenInfo chunkHash now m.replicationFactor targetNodes) ∧
          targetNodes.length = m.replicationFactor ∧
          (∀ n ∈ targetNodes, n ∈ m.availableNodes) ∧
          (m.availableNodes.Nodup → targetNodes.Nodup) := by
  rcases @writeReplicas_cases blake3 chunkHash now m with
    ⟨hfew, hrun⟩ | ⟨henough, targetNodes, hrun, hnodes⟩
  · exact Or.inl ⟨hfew, by simp [step, stateAfter, hrun], by simp [outcome, hrun]⟩
  · obtain ⟨houtcome, hstep⟩ := run_eq_ok_iff.mp hrun
    exact Or.inr ⟨henough, targetNodes, hstep, houtcome, hnodes⟩

theorem step_repairReplicas (chunkHash : String) (now : NodeId → DateTime)
    (m : ReplicaManager) :
    (m.replicas.lookup chunkHash = none ∧
        step blake3 m (.repairReplicas chunkHash now) = m) ∨
      ∃ info, m.replicas.lookup chunkHash = some info ∧
        step blake3 m (.repairReplicas chunkHash now) =
          withReplicas chunkHash info (info.replicas.map (repaired now)) m := by
  cases hinfo : m.replicas.lookup chunkHash with
  | none =>
      refine Or.inl ⟨rfl, ?_⟩
      simp only [step, stateAfter, repairReplicas, EStateM.run_bind, EStateM.run_get,
        hinfo]
      rfl
  | some info =>
      refine Or.inr ⟨info, rfl, ?_⟩
      simp only [step, stateAfter, repairReplicas, EStateM.run_bind, EStateM.run_get,
        hinfo]
      rfl

theorem addNode_replicas (nodeId : NodeId) (m : ReplicaManager) :
    (addNode nodeId m).replicas = m.replicas := by
  unfold addNode
  split <;> rfl

theorem mem_addNode {nodeId n : NodeId} (h : n ∈ m.availableNodes) :
    n ∈ (addNode nodeId m).availableNodes := by
  unfold addNode
  split
  · exact h
  · exact List.mem_append_left _ h

@[simp] theorem nodeId_lose (nodeId : NodeId) (r : ChunkReplica) :
    (lose nodeId r).nodeId = r.nodeId := by
  unfold lose
  split <;> rfl

@[simp] theorem nodeId_repaired (now : NodeId → DateTime) (r : ChunkReplica) :
    (repaired now r).nodeId = r.nodeId := by
  unfold repaired
  split <;> rfl

theorem nodup_step (call : Call) (h : m.availableNodes.Nodup) :
    (step blake3 m call).availableNodes.Nodup := by
  cases call with
  | addNode nodeId =>
      change (addNode nodeId m).availableNodes.Nodup
      unfold addNode
      split
      · exact h
      · next hnew =>
          refine List.nodup_append.mpr ⟨h, List.nodup_singleton nodeId, ?_⟩
          intro n hn n' hn'
          rw [List.mem_singleton.mp hn']
          exact fun heq => hnew (heq ▸ hn)
  | removeNode nodeId =>
      exact h.filter _
  | writeReplicas chunkHash now =>
      rcases @step_writeReplicas blake3 chunkHash now m with
        ⟨-, hstep, -⟩ | ⟨-, targetNodes, hstep, -⟩
      · rwa [hstep]
      · rw [hstep]
        exact h
  | repairReplicas chunkHash now =>
      rcases @step_repairReplicas blake3 chunkHash now m with
        ⟨-, hstep⟩ | ⟨info, -, hstep⟩
      · rwa [hstep]
      · rw [hstep]
        exact h
  | deleteReplicas chunkHash =>
      exact h

/-- A property of the replicas of each chunk, when one chunk gets others. -/
theorem forall_insert {P : ChunkReplicaInfo → Prop} {chunkHash : String}
    {new : ChunkReplicaInfo}
    (h : ∀ k info, m.replicas.lookup k = some info → P info) (hnew : P new) :
    ∀ k info, (m.replicas.insert chunkHash new).lookup k = some info → P info := by
  intro k info hk
  by_cases hkey : k = chunkHash
  · subst hkey
    rw [AList.lookup_insert] at hk
    exact Option.some.inj hk ▸ hnew
  · rw [AList.lookup_insert_ne hkey] at hk
    exact h k info hk

/-- A property of the replicas of each chunk, when they all change. -/
theorem forall_mapValues {P Q : ChunkReplicaInfo → Prop}
    {f : ChunkReplicaInfo → ChunkReplicaInfo}
    (h : ∀ k info, m.replicas.lookup k = some info → P info)
    (hf : ∀ info, P info → Q (f info)) :
    ∀ k info, (HashMap.mapValues f m.replicas).lookup k = some info → Q info := by
  intro k info hk
  rw [HashMap.lookup_mapValues] at hk
  obtain ⟨old, hold, rfl⟩ := Option.map_eq_some_iff.mp hk
  exact hf old (h k old hold)

/-- A property of the replicas of each chunk, when one chunk goes. -/
theorem forall_erase {P : ChunkReplicaInfo → Prop} {chunkHash : String}
    (h : ∀ k info, m.replicas.lookup k = some info → P info) :
    ∀ k info, (m.replicas.erase chunkHash).lookup k = some info → P info := by
  intro k info hk
  rw [HashMap.lookup_erase_of] at hk
  split at hk
  · cases hk
  · exact h k info hk

theorem apart_step (call : Call) (h : Apart m) (hnodes : m.availableNodes.Nodup) :
    Apart (step blake3 m call) := by
  cases call with
  | addNode nodeId =>
      change ∀ k info, (addNode nodeId m).replicas.lookup k = some info → _
      rw [addNode_replicas]
      exact h
  | removeNode nodeId =>
      refine forall_mapValues h fun info hinfo => ?_
      simpa [Function.comp_def] using hinfo
  | writeReplicas chunkHash now =>
      rcases @step_writeReplicas blake3 chunkHash now m with
        ⟨-, hstep, -⟩ | ⟨-, targetNodes, hstep, -, -, -, hnodup⟩
      · rwa [hstep]
      · rw [hstep]
        refine forall_insert h ?_
        simpa [writtenInfo, Function.comp_def] using hnodup hnodes
  | repairReplicas chunkHash now =>
      rcases @step_repairReplicas blake3 chunkHash now m with
        ⟨-, hstep⟩ | ⟨info, hinfo, hstep⟩
      · rwa [hstep]
      · rw [hstep]
        refine forall_insert h ?_
        simpa [Function.comp_def] using h chunkHash info hinfo
  | deleteReplicas chunkHash =>
      exact forall_erase h

/-- Every complete replica of the chunk is on a node of the list. -/
def OnNodes (nodes : List NodeId) (info : ChunkReplicaInfo) : Prop :=
  ∀ r ∈ info.replicas, r.status = .complete → r.nodeId ∈ nodes

theorem writesWell_of_ne {call : Call}
    (h : ∀ chunkHash now, call ≠ .writeReplicas chunkHash now) :
    WritesWell blake3 m call :=
  fun chunkHash now _ hcall _ => absurd hcall (h chunkHash now)

theorem onNodes_lose {nodes : List NodeId} (nodeId : NodeId) {info : ChunkReplicaInfo}
    (h : OnNodes nodes info) :
    OnNodes (nodes.filter fun n => n ≠ nodeId)
      { info with replicas := info.replicas.map (lose nodeId) } := by
  intro r hr hcomplete
  obtain ⟨old, hold, rfl⟩ := List.mem_map.mp hr
  unfold lose at hcomplete ⊢
  split at hcomplete
  · cases hcomplete
  · next hne =>
      rw [if_neg hne]
      exact List.mem_filter.mpr ⟨h old hold hcomplete, decide_eq_true hne⟩

/-- After a repair the replicas that were missing must be on registered nodes. -/
theorem onNodes_repaired_iff {nodes : List NodeId} (now : NodeId → DateTime)
    {info : ChunkReplicaInfo} (h : OnNodes nodes info) :
    OnNodes nodes { info with replicas := info.replicas.map (repaired now) } ↔
      ∀ r ∈ info.replicas, r.status = .missing → r.nodeId ∈ nodes := by
  constructor
  · intro hafter r hr hmissing
    have hrepaired := hafter (repaired now r) (List.mem_map_of_mem hr)
      (by simp [repaired, hmissing])
    rwa [nodeId_repaired] at hrepaired
  · intro hmissing r hr hcomplete
    obtain ⟨old, hold, rfl⟩ := List.mem_map.mp hr
    rw [nodeId_repaired]
    by_cases hstatus : old.status = .missing
    · exact hmissing old hold hstatus
    · rw [repaired, if_neg hstatus] at hcomplete
      exact h old hold hcomplete

theorem onNodes_writtenInfo (chunkHash : String) (now : NodeId → DateTime)
    {factor : Nat} {nodes targetNodes : List NodeId}
    (h : ∀ n ∈ targetNodes, n ∈ nodes) :
    OnNodes nodes (writtenInfo chunkHash now factor targetNodes) := by
  intro r hr _
  obtain ⟨n, hn, rfl⟩ := List.mem_map.mp hr
  exact h n hn

theorem lawfulStep_iff_harmless {call : Call} (hplaced : Placed m) :
    Placed (step blake3 m call) ∧ WritesWell blake3 m call ↔ Harmless m call := by
  cases call with
  | addNode nodeId =>
      refine iff_of_true ⟨?_, writesWell_of_ne nofun⟩ trivial
      intro chunkHash info hinfo r hr hcomplete
      rw [step, addNode_replicas] at hinfo
      exact mem_addNode (hplaced chunkHash info hinfo r hr hcomplete)
  | removeNode nodeId =>
      refine iff_of_true ⟨?_, writesWell_of_ne nofun⟩ trivial
      exact forall_mapValues hplaced fun info hinfo => onNodes_lose nodeId hinfo
  | writeReplicas chunkHash now =>
      rcases @step_writeReplicas blake3 chunkHash now m with
        ⟨hfew, hstep, hfails⟩ | ⟨henough, targetNodes, hstep, hok, hlen, hnodes, -⟩
      · refine iff_of_true ⟨by rwa [hstep], ?_⟩
          fun henough => absurd hfew (Nat.not_lt.mpr henough)
        intro k now' info hcall hinfo
        obtain ⟨rfl, rfl⟩ := Call.writeReplicas.inj hcall
        exact absurd hinfo (hfails info)
      · have hlookup : (step blake3 m (.writeReplicas chunkHash now)).replicas.lookup
            chunkHash =
            some (writtenInfo chunkHash now m.replicationFactor targetNodes) := by
          rw [hstep]
          exact AList.lookup_insert _
        have hafter : Placed (step blake3 m (.writeReplicas chunkHash now)) := by
          rw [hstep]
          exact forall_insert hplaced (onNodes_writtenInfo chunkHash now hnodes)
        have hhealthy : (step blake3 m (.writeReplicas chunkHash now)).isHealthy
            chunkHash ↔ 2 ≤ m.replicationFactor := by
          rw [isHealthy, hlookup]
          exact isHealthy_writtenInfo chunkHash now hlen
        rw [and_iff_right hafter]
        constructor
        · intro hwrites _
          exact hhealthy.mp (hwrites chunkHash now _ rfl hok).2.2
        · intro htwo k now' info hcall hinfo
          obtain ⟨rfl, rfl⟩ := Call.writeReplicas.inj hcall
          obtain rfl := Except.ok.inj (hok.symm.trans hinfo)
          refine ⟨?_, hlookup, hhealthy.mpr (htwo henough)⟩
          rw [writtenInfo, List.length_map, hlen]
  | repairReplicas chunkHash now =>
      have hwrites : WritesWell blake3 m (.repairReplicas chunkHash now) :=
        writesWell_of_ne fun _ _ h => by cases h
      rw [and_iff_left hwrites]
      rcases @step_repairReplicas blake3 chunkHash now m with
        ⟨hnone, hstep⟩ | ⟨info, hinfo, hstep⟩
      · refine iff_of_true (by rwa [hstep]) ?_
        intro info hinfo
        rw [hnone] at hinfo
        cases hinfo
      · have hrepaired := onNodes_repaired_iff now (hplaced chunkHash info hinfo)
        rw [hstep]
        constructor
        · intro hafter other hother
          obtain rfl := Option.some.inj (hinfo.symm.trans hother)
          exact hrepaired.mp (hafter chunkHash _ (AList.lookup_insert _))
        · intro hmissing
          exact forall_insert hplaced (hrepaired.mpr (hmissing info hinfo))
  | deleteReplicas chunkHash =>
      exact iff_of_true ⟨forall_erase hplaced, writesWell_of_ne fun _ _ h => by cases h⟩
        trivial

end Steps

section Laws

variable {blake3 : Bytes → HashDigest}

/-- What is known of every state of a run, whatever the repairs do. -/
structure Kept (m : ReplicaManager) : Prop where
  apart : Apart m
  nodup : m.availableNodes.Nodup

theorem kept_run (factor : Nat) (calls : List Call) :
    Kept (run blake3 factor calls) := by
  refine List.foldlRecOn calls _ (motive := Kept) ?_ fun m hm call _ =>
    ⟨apart_step call hm.apart hm.nodup, nodup_step call hm.nodup⟩
  exact ⟨(fun k info h => by cases h), List.nodup_nil⟩

/-- The replicas are where they are recorded to be, as many as there should be
and healthy, exactly if every write and every repair is harmless. -/
theorem placementLaw_iff_harmless (factor : Nat) (calls : List Call) :
    PlacementLaw blake3 factor calls ↔
      ∀ before call later, calls = before ++ call :: later →
        Harmless (run blake3 factor before) call := by
  have hnew : Placed (new factor) := fun k info h => by cases h
  have hcongr : Always (step blake3)
        (fun m call => Placed (step blake3 m call) ∧ WritesWell blake3 m call)
        (new factor) calls ↔
      Always (step blake3) Harmless (new factor) calls :=
    always_congr (fun m call hplaced => lawfulStep_iff_harmless hplaced)
      (fun m call _ h => h.1) hnew
  rw [always_and] at hcongr
  have hplaced : (∀ before, before <+: calls → Placed (run blake3 factor before)) ↔
      Always (step blake3) (fun m call => Placed (step blake3 m call))
        (new factor) calls :=
    forall_prefix_iff.trans (and_iff_right hnew)
  have hlaw : PlacementLaw blake3 factor calls ↔
      (∀ before, before <+: calls → Placed (run blake3 factor before)) ∧
        Always (step blake3) (WritesWell blake3) (new factor) calls := by
    constructor
    · exact fun h => ⟨h.placed, always_iff_split.mpr h.written⟩
    · exact fun h => ⟨h.1, fun before _ => (kept_run factor before).apart,
        always_iff_split.mp h.2⟩
  rw [hlaw, hplaced, hcongr, always_iff_split]
  rfl

/-- A node leaves and its replica is repaired. -/
def repairedAway : List Call := [
  .addNode "a",
  .addNode "b",
  .writeReplicas "c" fun _ => 0,
  .removeNode "a",
  .repairReplicas "c" fun _ => 1]

/-- The BLAKE3 hash of the name of the chunk. -/
def nameHash : HashDigest :=
  ⟨[
    0xea, 0x7a, 0xa1, 0xfc, 0x9e, 0xfd, 0xbe, 0x10,
    0x6d, 0xbb, 0x70, 0x36, 0x9a, 0x75, 0xe9, 0x67,
    0x1f, 0xa2, 0x9d, 0x52, 0xbd, 0x55, 0x53, 0x67,
    0x11, 0xbf, 0x19, 0x74, 0x77, 0xb8, 0xf0, 0x21], rfl⟩

theorem not_placementLaw_repairedAway :
    ¬ PlacementLaw (fun _ => nameHash) 2 repairedAway := by
  intro h
  have hcomplete : ((run (fun _ => nameHash) 2 repairedAway).replicas.lookup "c").map
      (fun info => info.replicas.any fun r => r.nodeId = "a" && r.status = .complete) =
        some true := by
    decide
  have hgone : "a" ∉ (run (fun _ => nameHash) 2 repairedAway).availableNodes := by
    decide
  obtain ⟨info, hinfo, hany⟩ := Option.map_eq_some_iff.mp hcomplete
  obtain ⟨r, hr, hboth⟩ := List.any_eq_true.mp hany
  rw [Bool.and_eq_true, decide_eq_true_eq, decide_eq_true_eq] at hboth
  refine hgone (hboth.1 ▸ ?_)
  exact h.placed repairedAway List.prefix_rfl "c" info hinfo r hr hboth.2

end Laws

end ReplicaManager
end Cluster
end HyperBackup
