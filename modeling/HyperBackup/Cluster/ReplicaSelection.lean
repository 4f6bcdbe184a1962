import HyperBackup.Cluster.Replica
import HyperBackup.Lib.StableSort

/-!
# Which nodes a chunk is written to

The hash of a chunk chooses positions in the list of the registered nodes, and
the list is in the order in which the nodes joined.  Two managers with the same
nodes write a chunk to the same ones exactly if each node stands in a chosen
position for both of them or for none.
-/

namespace HyperBackup
namespace Cluster
namespace ReplicaManager

open Lib Lib.Program

variable (blake3 : Bytes → HashDigest)

/-- What the positions are sorted by. -/
def positionKey (chunkHash : String) (i : Nat) : Nat :=
  (UInt64.ofNat i * seed blake3 chunkHash).toNat

/-- Of so many positions, fewer than `factor` come before this one. -/
def Chosen (chunkHash : String) (count factor i : Nat) : Prop :=
  ((List.range count).filter fun j =>
    StableSort.Before (positionKey blake3 chunkHash) j i).length < factor

/-- Both writes are refused, or they are on the same nodes. -/
def SameNodes : Except ReplicaError ChunkReplicaInfo →
    Except ReplicaError ChunkReplicaInfo → Prop
  | .ok info, .ok info' =>
      ∀ n, n ∈ info.replicas.map ChunkReplica.nodeId ↔
        n ∈ info'.replicas.map ChunkReplica.nodeId
  | .error _, .error _ => True
  | _, _ => False

variable {blake3}

theorem sortedIndices_eq (chunkHash : String) (count : Nat) :
    sortedIndices blake3 chunkHash count =
      (List.range count).insertionSort fun i j =>
        positionKey blake3 chunkHash i ≤ positionKey blake3 chunkHash j := by
  simp only [sortedIndices, UInt64.le_iff_toNat_le, positionKey]
  congr

/-- A node is selected if it stands in a chosen position. -/
theorem mem_selected_iff {chunkHash : String} {factor : Nat} {nodes : List NodeId}
    (hnodup : nodes.Nodup) (n : NodeId) :
    n ∈ ((sortedIndices blake3 chunkHash nodes.length).take factor).filterMap
        (fun i => nodes[i]?) ↔
      n ∈ nodes ∧ Chosen blake3 chunkHash nodes.length factor (nodes.idxOf n) := by
  have htake : ∀ i, i ∈ (sortedIndices blake3 chunkHash nodes.length).take factor ↔
      i < nodes.length ∧ Chosen blake3 chunkHash nodes.length factor i := by
    intro i
    rw [← List.mem_range, sortedIndices_eq]
    exact StableSort.mem_take_insertionSort (positionKey blake3 chunkHash)
      List.pairwise_lt_range factor
  constructor
  · intro hn
    obtain ⟨i, hi, hget⟩ := List.mem_filterMap.mp hn
    obtain ⟨hlt, rfl⟩ := List.getElem?_eq_some_iff.mp hget
    rw [hnodup.idxOf_getElem]
    exact ⟨List.getElem_mem hlt, ((htake i).mp hi).2⟩
  · rintro ⟨hn, hchosen⟩
    have hlt := List.idxOf_lt_length_iff.mpr hn
    exact List.mem_filterMap.mpr
      ⟨nodes.idxOf n, (htake _).mpr ⟨hlt, hchosen⟩, List.getElem?_idxOf hn⟩

theorem replicationFactor_step (m : ReplicaManager) (call : Call) :
    (step blake3 m call).replicationFactor = m.replicationFactor := by
  cases call with
  | addNode nodeId =>
      change (addNode nodeId m).replicationFactor = _
      unfold addNode
      split
      · rfl
      · rfl
  | removeNode nodeId =>
      rfl
  | writeReplicas chunkHash now =>
      rcases @step_writeReplicas blake3 chunkHash now m with
        ⟨-, hstep, -⟩ | ⟨-, targetNodes, hstep, -⟩
      · rw [hstep]
      · rw [hstep]
        rfl
  | repairReplicas chunkHash now =>
      rcases @step_repairReplicas blake3 chunkHash now m with
        ⟨-, hstep⟩ | ⟨info, -, hstep⟩
      · rw [hstep]
      · rw [hstep]
        rfl
  | deleteReplicas chunkHash =>
      rfl

theorem replicationFactor_run (factor : Nat) (calls : List Call) :
    (run blake3 factor calls).replicationFactor = factor := by
  refine List.foldlRecOn calls _
    (motive := fun m : ReplicaManager => m.replicationFactor = factor) rfl ?_
  intro m hm call _
  exact (replicationFactor_step m call).trans hm

/-- A write is refused only for lack of nodes. -/
theorem outcome_writeReplicas (chunkHash : String) (now : NodeId → DateTime)
    (m : ReplicaManager) :
    outcome (writeReplicas blake3 chunkHash now) m =
      if m.availableNodes.length < m.replicationFactor then
        .error (.insufficientNodes m.replicationFactor m.availableNodes.length)
      else
        .ok (writtenInfo chunkHash now m.replicationFactor
          (((sortedIndices blake3 chunkHash m.availableNodes.length).take
            m.replicationFactor).filterMap fun i => m.availableNodes[i]?)) := by
  by_cases hfew : m.availableNodes.length < m.replicationFactor
  · simp only [outcome, writeReplicas, EStateM.run_bind, EStateM.run_get, selectReplicaNodes,
      hfew, if_true]
    rfl
  · simp only [outcome, writeReplicas, EStateM.run_bind, EStateM.run_get, selectReplicaNodes,
      hfew, if_false]
    rfl

/-- The nodes of the replicas that are written. -/
theorem mem_writtenInfo_iff {chunkHash : String} {now : NodeId → DateTime} {factor : Nat}
    {targetNodes : List NodeId} (n : NodeId) :
    n ∈ (writtenInfo chunkHash now factor targetNodes).replicas.map ChunkReplica.nodeId ↔
      n ∈ targetNodes := by
  simp [writtenInfo, Function.comp_def]

/-- Two managers with the same nodes write a chunk to the same ones exactly if they
have too few of them, or each node stands in a chosen position for both or for none. -/
theorem sameNodes_iff (blake3 : Bytes → HashDigest) (factor : Nat) (chunkHash : String)
    (now now' : NodeId → DateTime) (calls calls' : List Call)
    (hset : ∀ n, n ∈ (run blake3 factor calls).availableNodes ↔
      n ∈ (run blake3 factor calls').availableNodes) :
    SameNodes (outcome (writeReplicas blake3 chunkHash now) (run blake3 factor calls))
        (outcome (writeReplicas blake3 chunkHash now') (run blake3 factor calls')) ↔
      (run blake3 factor calls).availableNodes.length < factor ∨
        ∀ n ∈ (run blake3 factor calls).availableNodes,
          Chosen blake3 chunkHash (run blake3 factor calls).availableNodes.length factor
              ((run blake3 factor calls).availableNodes.idxOf n) ↔
            Chosen blake3 chunkHash (run blake3 factor calls').availableNodes.length factor
              ((run blake3 factor calls').availableNodes.idxOf n) := by
  have hnodup := (@kept_run blake3 factor calls).nodup
  have hnodup' := (@kept_run blake3 factor calls').nodup
  have hlength : (run blake3 factor calls).availableNodes.length =
      (run blake3 factor calls').availableNodes.length :=
    ((List.perm_ext_iff_of_nodup hnodup hnodup').mpr hset).length_eq
  rw [outcome_writeReplicas, outcome_writeReplicas, replicationFactor_run,
    replicationFactor_run]
  by_cases hfew : (run blake3 factor calls).availableNodes.length < factor
  · rw [if_pos hfew, if_pos (hlength ▸ hfew)]
    exact iff_of_true trivial (Or.inl hfew)
  · rw [if_neg hfew, if_neg (hlength ▸ hfew), or_iff_right hfew]
    change (∀ n, n ∈ List.map _ _ ↔ n ∈ List.map _ _) ↔ _
    refine forall_congr' fun n => ?_
    rw [mem_writtenInfo_iff, mem_writtenInfo_iff, mem_selected_iff hnodup,
      mem_selected_iff hnodup', ← hset n]
    exact and_congr_right_iff

/-- Four nodes join in two orders. -/
def joins : List Call :=
  [.addNode "a", .addNode "b", .addNode "c", .addNode "d"]

def otherJoins : List Call :=
  [.addNode "d", .addNode "a", .addNode "b", .addNode "c"]

theorem sameNodes_iff_joins :
    SameNodes (outcome (writeReplicas (fun _ => nameHash) "c" fun _ => 0)
          (run (fun _ => nameHash) 3 joins))
        (outcome (writeReplicas (fun _ => nameHash) "c" fun _ => 1)
          (run (fun _ => nameHash) 3 otherJoins)) ↔
      (run (fun _ => nameHash) 3 joins).availableNodes.length < 3 ∨
        ∀ n ∈ (run (fun _ => nameHash) 3 joins).availableNodes,
          Chosen (fun _ => nameHash) "c"
              (run (fun _ => nameHash) 3 joins).availableNodes.length 3
              ((run (fun _ => nameHash) 3 joins).availableNodes.idxOf n) ↔
            Chosen (fun _ => nameHash) "c"
              (run (fun _ => nameHash) 3 otherJoins).availableNodes.length 3
              ((run (fun _ => nameHash) 3 otherJoins).availableNodes.idxOf n) :=
  sameNodes_iff (fun _ => nameHash) 3 "c" (fun _ => 0) (fun _ => 1) joins otherJoins
    (fun n => by
      have hperm : (run (fun _ => nameHash) 3 joins).availableNodes.Perm
          (run (fun _ => nameHash) 3 otherJoins).availableNodes := by decide
      exact hperm.mem_iff)

/-- The same four nodes, and other replicas. -/
theorem not_sameNodes_joins :
    (∀ n, n ∈ (run (fun _ => nameHash) 3 joins).availableNodes ↔
        n ∈ (run (fun _ => nameHash) 3 otherJoins).availableNodes) ∧
      ¬ SameNodes (outcome (writeReplicas (fun _ => nameHash) "c" fun _ => 0)
          (run (fun _ => nameHash) 3 joins))
        (outcome (writeReplicas (fun _ => nameHash) "c" fun _ => 1)
          (run (fun _ => nameHash) 3 otherJoins)) := by
  have hperm : (run (fun _ => nameHash) 3 joins).availableNodes.Perm
      (run (fun _ => nameHash) 3 otherJoins).availableNodes := by decide
  refine ⟨fun n => hperm.mem_iff, fun hsame => ?_⟩
  rw [outcome_writeReplicas, outcome_writeReplicas, if_neg (by decide),
    if_neg (by decide)] at hsame
  have hmem := hsame "c"
  rw [mem_writtenInfo_iff, mem_writtenInfo_iff] at hmem
  exact absurd (hmem.mp (by decide)) (by decide)

end ReplicaManager
end Cluster
end HyperBackup
