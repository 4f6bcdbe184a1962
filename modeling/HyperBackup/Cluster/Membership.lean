import HyperBackup.Cluster.Replica

/-!
# The members of a cluster

A node keeps its peers, its log and the nodes that hold replicas.  A node joins and
leaves through the scale manager, and the failover manager marks nodes as failed; each
of the two changes some of these records and not others.  A failed node loses its
replicas but stays a peer, so it cannot join again before it has left.

The main result says what these records have in common with the calls that were
made: who is a peer, who may get replicas, and who may join and leave.
-/

namespace HyperBackup
namespace Cluster

open Lib Lib.Program Lib.Runs RaftNode

structure ReplicaHealthSummary where
  totalChunks : Nat
  healthyChunks : Nat
  unhealthyChunks : Nat
  totalReplicas : Nat
  missingReplicas : Nat

def ReplicaManager.healthSummary (m : ReplicaManager) : ReplicaHealthSummary :=
  let infos := (HashMap.toList m.replicas).map Prod.snd
  let healthy := (infos.filter fun info => info.isHealthy).length
  { totalChunks := infos.length
    healthyChunks := healthy
    unhealthyChunks := infos.length - healthy
    totalReplicas := (infos.map fun info => info.replicas.length).sum
    missingReplicas := ((infos.flatMap ChunkReplicaInfo.replicas).filter fun r =>
      r.status = .missing).length }

/-- A node of the cluster with the replicas that it manages. -/
structure ClusterNode where
  raft : RaftNode
  replica : ReplicaManager

/-- An operation of the consensus in the whole node. -/
def onRaft {ε α : Type} (f : RaftError → ε) (x : EStateM RaftError RaftNode α) :
    EStateM ε ClusterNode α := fun c =>
  match x.run c.raft with
  | .ok a raft => .ok a { c with raft := raft }
  | .error e raft => .error (f e) { c with raft := raft }

inductive ScaleAction
  | joinCluster (nodeId : NodeId) (addr : String)
  | leaveCluster (nodeId : NodeId)
  | addDisk (nodeId : NodeId) (diskPath : String)
  | rebalanceData (fromNode toNode : NodeId)

structure ScaleRecord where
  action : ScaleAction
  startedAt : DateTime
  completedAt : Option DateTime
  success : Bool
  detail : String

inductive ScaleError
  | raft (e : RaftError)
  | nodeAlreadyExists (nodeId : NodeId)
  | nodeNotInCluster (nodeId : NodeId)
  | cannotRemoveLastNode

/-- Some peer has this name. -/
def RaftNode.hasPeer (nodeId : NodeId) (n : RaftNode) : Bool :=
  (HashMap.toList n.peers).any fun p => p.2.nodeId = nodeId

def RaftNode.clusterSize (n : RaftNode) : Nat :=
  n.peers.keys.length + 1

namespace ScaleManager

/-- A record of something that is done at once. -/
def done (now : DateTime) (action : ScaleAction) (detail : String) : ScaleRecord where
  action := action
  startedAt := now
  completedAt := some now
  success := true
  detail := detail

/-- Only a leader writes the change to its log. -/
def logChange (entry : RaftLogEntry) (now : DateTime) : EStateM ScaleError ClusterNode Unit := do
  if (← get).raft.role = .leader then
    let _ ← onRaft .raft (appendLog entry now)

def joinCluster (now : DateTime) (nodeId : NodeId) (addr : String) :
    EStateM ScaleError ClusterNode ScaleRecord := do
  if (← get).raft.hasPeer nodeId then
    throw (.nodeAlreadyExists nodeId)
  let nodeInfo : NodeInfo :=
    { nodeId := nodeId
      addr := addr
      role := .follower
      joinedAt := now
      lastHeartbeat := none }
  modify fun c =>
    { raft := c.raft.addPeer nodeInfo, replica := c.replica.addNode nodeId }
  logChange (.addNode nodeId addr) now
  return done now (.joinCluster nodeId addr) "node joined successfully"

def leaveCluster (now : DateTime) (nodeId : NodeId) :
    EStateM ScaleError ClusterNode ScaleRecord := do
  let c ← get
  if c.raft.clusterSize ≤ 1 then
    throw .cannotRemoveLastNode
  if ¬ c.raft.hasPeer nodeId ∧ c.raft.nodeId ≠ nodeId then
    throw (.nodeNotInCluster nodeId)
  modify fun c =>
    { raft := c.raft.removePeer nodeId, replica := c.replica.removeNode nodeId }
  logChange (.removeNode nodeId) now
  return done now (.leaveCluster nodeId) "node left cluster, data rebalanced"

end ScaleManager

inductive FailureType
  | nodeUnreachable
  | diskFailure
  | journalCorrupted
  | insufficientReplicas
deriving DecidableEq

structure FailureRecord where
  nodeId : NodeId
  failureType : FailureType
  detectedAt : DateTime
  resolved : Bool
  resolvedAt : Option DateTime

structure RecoveryReport where
  failuresDetected : List FailureRecord
  leaderReElected : Bool
  replicasRepaired : Nat
  journalRecovered : Bool
  success : Bool
  detail : String

namespace FailoverManager

def failure (now : DateTime) (nodeId : NodeId) (failureType : FailureType) : FailureRecord where
  nodeId := nodeId
  failureType := failureType
  detectedAt := now
  resolved := false
  resolvedAt := none

/-- A peer without a heartbeat in the last thirty seconds. -/
def isStale (now : DateTime) (peer : NodeInfo) : Bool :=
  match peer.lastHeartbeat with
  | none => true
  | some t => (now - t).tdiv 1000000000 > 30

def detectFailures (order : IterOrder (NodeId × NodeInfo)) (now : DateTime)
    (c : ClusterNode) : List FailureRecord :=
  let missing := if c.replica.healthSummary.missingReplicas > 0
    then [failure now "unknown" .insufficientReplicas] else []
  let stale := (order.arrange (HashMap.toList c.raft.peers)).filter fun p => isStale now p.2
  missing ++ stale.map fun p => failure now p.2.nodeId .nodeUnreachable

/-- What the report says of one failure. -/
def noteFailure (summary : ReplicaHealthSummary) (report : RecoveryReport)
    (f : FailureRecord) : RecoveryReport :=
  if f.failureType = .insufficientReplicas then
    { report with
      replicasRepaired := summary.missingReplicas
      detail := report.detail ++ toString summary.missingReplicas ++
        " replicas need repair; " }
  else report

/-- A node that is not leader and has no peers is elected. -/
def elect : EStateM RaftError ClusterNode Bool := do
  let c ← get
  if c.raft.role ≠ .leader ∧ c.raft.peers.keys = [] then
    set { c with raft := c.raft.startElection }
    return true
  else
    return false

def recover (order : IterOrder (NodeId × NodeInfo)) (now : DateTime) :
    EStateM RaftError ClusterNode RecoveryReport := do
  let c ← get
  let failures := detectFailures order now c
  let elected ← elect
  let report : RecoveryReport :=
    { failuresDetected := failures
      leaderReElected := elected
      replicasRepaired := 0
      journalRecovered := false
      success := true
      detail := if elected then "leader re-elected; " else "" }
  let report := failures.foldl (noteFailure c.replica.healthSummary) report
  return { report with
    journalRecovered := true
    detail := report.detail ++ "journal recovered" }

def recoverFromRestart (fromSlice : Bytes → Except String (List RaftLog)) (files : Files)
    (logPath : String) (order : IterOrder (NodeId × NodeInfo)) (now : DateTime) :
    EStateM RaftError ClusterNode RecoveryReport := do
  onRaft id (restoreLogs fromSlice logPath files)
  let report ← recover order now
  return { report with detail := "restarted and recovered: " ++ report.detail }

def markNodeFailed (now : DateTime) (nodeId : NodeId) (failureType : FailureType)
    (c : ClusterNode) : FailureRecord × ClusterNode :=
  (failure now nodeId failureType, { c with replica := c.replica.removeNode nodeId })

end FailoverManager

/-- The calls on a node. -/
inductive Call
  | joinCluster (now : DateTime) (nodeId : NodeId) (addr : String)
  | leaveCluster (now : DateTime) (nodeId : NodeId)
  | markNodeFailed (now : DateTime) (nodeId : NodeId) (failureType : FailureType)
  | recover (order : IterOrder (NodeId × NodeInfo)) (now : DateTime)
  | recoverFromRestart (files : Files) (logPath : String)
      (order : IterOrder (NodeId × NodeInfo)) (now : DateTime)
  | appendLog (entry : RaftLogEntry) (now : DateTime)
  | startElection
  | receiveHeartbeat (leaderId : NodeId) (leaderTerm : UInt64)
  | writeReplicas (chunkHash : String) (now : NodeId → DateTime)
  | repairReplicas (chunkHash : String) (now : NodeId → DateTime)
  | deleteReplicas (chunkHash : String)

namespace ClusterNode

variable (blake3 : Bytes → HashDigest)
variable (fromSlice : Bytes → Except String (List RaftLog))

def onReplica (call : ReplicaManager.Call) (c : ClusterNode) : ClusterNode :=
  { c with replica := ReplicaManager.step blake3 c.replica call }

def step (c : ClusterNode) : Call → ClusterNode
  | .joinCluster now nodeId addr => stateAfter (ScaleManager.joinCluster now nodeId addr) c
  | .leaveCluster now nodeId => stateAfter (ScaleManager.leaveCluster now nodeId) c
  | .markNodeFailed now nodeId failureType =>
      (FailoverManager.markNodeFailed now nodeId failureType c).2
  | .recover order now => stateAfter (FailoverManager.recover order now) c
  | .recoverFromRestart files logPath order now =>
      stateAfter (FailoverManager.recoverFromRestart fromSlice files logPath order now) c
  | .appendLog entry now =>
      stateAfter (onRaft ScaleError.raft (RaftNode.appendLog entry now)) c
  | .startElection => { c with raft := c.raft.startElection }
  | .receiveHeartbeat leaderId leaderTerm =>
      { c with raft := c.raft.receiveHeartbeat leaderId leaderTerm }
  | .writeReplicas chunkHash now => c.onReplica blake3 (.writeReplicas chunkHash now)
  | .repairReplicas chunkHash now => c.onReplica blake3 (.repairReplicas chunkHash now)
  | .deleteReplicas chunkHash => c.onReplica blake3 (.deleteReplicas chunkHash)

/-- A node that starts alone. -/
def start (nodeId : NodeId) (addr : String) (factor : Nat) : ClusterNode where
  raft := newSingle nodeId addr
  replica := ReplicaManager.new factor

def run (c : ClusterNode) (calls : List Call) : ClusterNode :=
  calls.foldl (step blake3 fromSlice) c

end ClusterNode

section Calls

variable {c : ClusterNode} {now : DateTime} {nodeId : NodeId}

/-- The node, with the entry in its log if it is leader. -/
def RaftNode.logged (entry : RaftLogEntry) (now : DateTime) (n : RaftNode) : RaftNode :=
  if n.role = .leader then withLog (n.nextLog entry now) n else n

@[simp] theorem RaftNode.peers_logged (entry : RaftLogEntry) (now : DateTime)
    (n : RaftNode) : (n.logged entry now).peers = n.peers := by
  unfold RaftNode.logged
  split <;> rfl

theorem RaftNode.log_logged (entry : RaftLogEntry) (now : DateTime) (n : RaftNode) :
    (n.logged entry now).log =
      if n.role = .leader then n.log ++ [n.nextLog entry now] else n.log := by
  unfold RaftNode.logged
  split <;> rfl

theorem stateAfter_appendLog (entry : RaftLogEntry) (now : DateTime) (n : RaftNode) :
    stateAfter (RaftNode.appendLog entry now) n = n.logged entry now := by
  unfold RaftNode.logged
  split
  · next hrole =>
      simp only [stateAfter, RaftNode.appendLog, EStateM.run_bind, EStateM.run_get, hrole,
        if_true]
      rfl
  · next hrole =>
      simp only [stateAfter, RaftNode.appendLog, EStateM.run_bind, EStateM.run_get, hrole,
        if_false]
      rfl

theorem run_onRaft_ok {ε α : Type} {f : RaftError → ε} {x : EStateM RaftError RaftNode α}
    {a : α} {raft : RaftNode} (h : x.run c.raft = .ok a raft) :
    (onRaft f x).run c = .ok a { c with raft := raft } := by
  have hx : x c.raft = .ok a raft := h
  simp only [onRaft, EStateM.run, hx]

theorem run_onRaft_error {ε α : Type} {f : RaftError → ε}
    {x : EStateM RaftError RaftNode α} {e : RaftError} {raft : RaftNode}
    (h : x.run c.raft = .error e raft) :
    (onRaft f x).run c = .error (f e) { c with raft := raft } := by
  have hx : x c.raft = .error e raft := h
  simp only [onRaft, EStateM.run, hx]

theorem stateAfter_onRaft {ε α : Type} (f : RaftError → ε)
    (x : EStateM RaftError RaftNode α) (c : ClusterNode) :
    stateAfter (onRaft f x) c = { c with raft := stateAfter x c.raft } := by
  unfold stateAfter
  cases hx : x.run c.raft with
  | ok a raft => rw [run_onRaft_ok hx]
  | error e raft => rw [run_onRaft_error hx]

theorem run_logChange (entry : RaftLogEntry) (now : DateTime) (c : ClusterNode) :
    (ScaleManager.logChange entry now).run c =
      .ok () { c with raft := c.raft.logged entry now } := by
  unfold RaftNode.logged
  split
  · next hrole =>
      have happend : (RaftNode.appendLog entry now).run c.raft =
          .ok (c.raft.nextLog entry now) (withLog (c.raft.nextLog entry now) c.raft) := by
        simp only [RaftNode.appendLog, EStateM.run_bind, EStateM.run_get, hrole, if_true]
        rfl
      have hon := @run_onRaft_ok c ScaleError _ ScaleError.raft _ _ _ happend
      simp only [ScaleManager.logChange, EStateM.run_bind, EStateM.run_get, hrole, if_true,
        hon]
      rfl
  · next hrole =>
      simp only [ScaleManager.logChange, EStateM.run_bind, EStateM.run_get, hrole, if_false]
      rfl

/-- A node joins exactly if no peer has its name, and only a leader logs it. -/
theorem joinCluster_cases (now : DateTime) (nodeId : NodeId) (addr : String)
    (c : ClusterNode) :
    (c.raft.hasPeer nodeId ∧
        (ScaleManager.joinCluster now nodeId addr).run c =
          .error (.nodeAlreadyExists nodeId) c) ∨
      (¬ c.raft.hasPeer nodeId ∧ ∃ record info, info.nodeId = nodeId ∧
        (ScaleManager.joinCluster now nodeId addr).run c = .ok record
          { raft := (c.raft.addPeer info).logged (.addNode nodeId addr) now
            replica := c.replica.addNode nodeId }) := by
  by_cases hpeer : c.raft.hasPeer nodeId
  · refine Or.inl ⟨hpeer, ?_⟩
    simp only [ScaleManager.joinCluster, EStateM.run_bind, EStateM.run_get, hpeer, if_true]
    rfl
  · let info : NodeInfo :=
      { nodeId := nodeId
        addr := addr
        role := .follower
        joinedAt := now
        lastHeartbeat := none }
    refine Or.inr ⟨hpeer, ScaleManager.done now (.joinCluster nodeId addr)
      "node joined successfully", info, rfl, ?_⟩
    simp only [ScaleManager.joinCluster, EStateM.run_bind, EStateM.run_get, hpeer,
      Bool.false_eq_true, if_false, EStateM.run_modify, run_logChange, EStateM.run_pure]
    rfl

/-- A node leaves if it is a peer or the node itself, which must have a peer. -/
theorem leaveCluster_cases (now : DateTime) (nodeId : NodeId) (c : ClusterNode) :
    ((c.raft.clusterSize ≤ 1 ∨ ¬ c.raft.hasPeer nodeId ∧ c.raft.nodeId ≠ nodeId) ∧
        ∃ e, (ScaleManager.leaveCluster now nodeId).run c = .error e c) ∨
      (1 < c.raft.clusterSize ∧ (c.raft.hasPeer nodeId ∨ c.raft.nodeId = nodeId) ∧
        ∃ record, (ScaleManager.leaveCluster now nodeId).run c = .ok record
          { raft := (c.raft.removePeer nodeId).logged (.removeNode nodeId) now
            replica := c.replica.removeNode nodeId }) := by
  by_cases hlast : c.raft.clusterSize ≤ 1
  · refine Or.inl ⟨Or.inl hlast, .cannotRemoveLastNode, ?_⟩
    simp only [ScaleManager.leaveCluster, EStateM.run_bind, EStateM.run_get, hlast, if_true]
    rfl
  · by_cases habsent : ¬ c.raft.hasPeer nodeId ∧ c.raft.nodeId ≠ nodeId
    · refine Or.inl ⟨Or.inr habsent, .nodeNotInCluster nodeId, ?_⟩
      simp only [ScaleManager.leaveCluster, EStateM.run_bind, EStateM.run_get, hlast,
        if_false]
      rw [if_pos habsent]
      rfl
    · have hmember : c.raft.hasPeer nodeId ∨ c.raft.nodeId = nodeId := by
        by_contra hneither
        exact habsent (not_or.mp hneither)
      refine Or.inr ⟨Nat.lt_of_not_le hlast, hmember,
        ScaleManager.done now (.leaveCluster nodeId) "node left cluster, data rebalanced", ?_⟩
      simp only [ScaleManager.leaveCluster, EStateM.run_bind, EStateM.run_get, hlast,
        if_false]
      rw [if_neg habsent]
      simp only [EStateM.run_bind, EStateM.run_modify, run_logChange]
      rfl

/-- A recovery elects a node that is alone, and does nothing else. -/
theorem stateAfter_recover (order : IterOrder (NodeId × NodeInfo)) (now : DateTime)
    (c : ClusterNode) :
    stateAfter (FailoverManager.recover order now) c =
      if c.raft.role ≠ .leader ∧ c.raft.peers.keys = [] then
        { c with raft := c.raft.startElection }
      else c := by
  have hget : (get : EStateM RaftError ClusterNode ClusterNode).run c = .ok c c :=
    rfl
  rw [FailoverManager.recover, stateAfter_bind_of_run hget, stateAfter_bind_pure,
    FailoverManager.elect, stateAfter_bind_of_run hget]
  split <;> rfl

variable (fromSlice : Bytes → Except String (List RaftLog))

/-- A restart reads the log if it can, and recovers unless the log cannot be read. -/
theorem stateAfter_recoverFromRestart (files : Files) (logPath : String)
    (order : IterOrder (NodeId × NodeInfo)) (now : DateTime) (c : ClusterNode) :
    stateAfter (FailoverManager.recoverFromRestart fromSlice files logPath order now) c =
      match files.lookup logPath with
      | none => stateAfter (FailoverManager.recover order now) c
      | some data =>
          match fromSlice data with
          | .error _ => c
          | .ok logs =>
              stateAfter (FailoverManager.recover order now)
                { c with raft := withLogs logs c.raft } := by
  cases hfile : files.lookup logPath with
  | none =>
      have hrun : (restoreLogs fromSlice logPath files).run c.raft = .ok () c.raft := by
        simp only [restoreLogs, hfile]
        rfl
      rw [FailoverManager.recoverFromRestart,
        stateAfter_bind_of_run (run_onRaft_ok hrun), stateAfter_bind_pure]
  | some data =>
      cases hread : fromSlice data with
      | error message =>
          have hrun : (restoreLogs fromSlice logPath files).run c.raft =
              .error (.serde message) c.raft := by
            simp only [restoreLogs, hfile, hread]
            rfl
          rw [FailoverManager.recoverFromRestart,
            stateAfter_bind_of_error (run_onRaft_error hrun)]
          simp only [hread]
      | ok logs =>
          have hrun : (restoreLogs fromSlice logPath files).run c.raft =
              .ok () (withLogs logs c.raft) := by
            simp only [restoreLogs, hfile, hread]
            rfl
          rw [FailoverManager.recoverFromRestart,
            stateAfter_bind_of_run (run_onRaft_ok hrun), stateAfter_bind_pure]
          simp only [hread]

end Calls

section Members

/-- What a node is that has joined and not left. -/
inductive Standing
  | active
  | failed
deriving DecidableEq

/-- What a call makes of a node, that has joined or not. -/
def standing (nodeId : NodeId) (s : Option Standing) : Call → Option Standing
  | .joinCluster _ joining _ => if joining = nodeId then some (s.getD .active) else s
  | .leaveCluster _ leaving => if leaving = nodeId then none else s
  | .markNodeFailed _ failing _ =>
      if failing = nodeId then s.map fun _ => .failed else s
  | _ => s

/-- What some calls make of a node. -/
def membership (calls : List Call) (nodeId : NodeId) : Option Standing :=
  calls.foldl (standing nodeId) none

/-- The records of a node agree with what its peers are. -/
structure Matches (members : NodeId → Option Standing) (c : ClusterNode) : Prop where
  peers : ∀ n, (c.raft.peers.lookup n).isSome ↔ (members n).isSome
  named : ∀ n info, c.raft.peers.lookup n = some info → info.nodeId = n
  active : ∀ n, n ∈ c.replica.availableNodes ↔ members n = some .active

/-- What a node with this name does, given what its peers are. -/
structure MembershipLaw (self : NodeId) (members : NodeId → Option Standing)
    (c : ClusterNode) : Prop where
  peers : ∀ n, (c.raft.peers.lookup n).isSome ↔ (members n).isSome
  active : ∀ n, n ∈ c.replica.availableNodes ↔ members n = some .active
  joins : ∀ n now addr,
    (∃ record, outcome (ScaleManager.joinCluster now n addr) c = .ok record) ↔
      members n = none
  leaves : ∀ n now,
    (∃ record, outcome (ScaleManager.leaveCluster now n) c = .ok record) ↔
      (members n).isSome ∨ n = self ∧ ∃ peer, (members peer).isSome

variable {members : NodeId → Option Standing} {c : ClusterNode} {nodeId : NodeId}

theorem hasPeer_iff (h : Matches members c) (nodeId : NodeId) :
    c.raft.hasPeer nodeId ↔ (members nodeId).isSome := by
  rw [← h.peers nodeId, RaftNode.hasPeer, List.any_eq_true]
  constructor
  · rintro ⟨⟨key, info⟩, hmem, hname⟩
    have hlookup := HashMap.mem_toList.mp hmem
    have hkey : key = nodeId := (h.named key info hlookup).symm.trans (of_decide_eq_true hname)
    rw [← hkey, hlookup]
    rfl
  · intro hsome
    obtain ⟨info, hlookup⟩ := Option.isSome_iff_exists.mp hsome
    exact ⟨(nodeId, info), HashMap.mem_toList.mpr hlookup,
      decide_eq_true (h.named nodeId info hlookup)⟩

/-- A node with a peer is not the last one. -/
theorem one_lt_clusterSize (h : (members nodeId).isSome) (hmatch : Matches members c) :
    1 < c.raft.clusterSize := by
  have hkey : nodeId ∈ c.raft.peers.keys :=
    AList.lookup_isSome.mp ((hmatch.peers nodeId).mpr h)
  have hpos := List.length_pos_of_mem hkey
  rw [RaftNode.clusterSize]
  omega

theorem mem_addNode_iff (nodeId n : NodeId) (m : ReplicaManager) :
    n ∈ (m.addNode nodeId).availableNodes ↔ n = nodeId ∨ n ∈ m.availableNodes := by
  unfold ReplicaManager.addNode
  split
  · next hmem =>
      exact ⟨Or.inr, fun h => h.elim (fun heq => heq ▸ hmem) id⟩
  · rw [List.mem_append, List.mem_singleton, or_comm]

theorem mem_removeNode_iff (nodeId n : NodeId) (m : ReplicaManager) :
    n ∈ (m.removeNode nodeId).availableNodes ↔ n ∈ m.availableNodes ∧ n ≠ nodeId := by
  rw [ReplicaManager.removeNode, List.mem_filter, decide_eq_true_eq]

theorem lookup_addPeer (info : NodeInfo) (n : NodeId) (raft : RaftNode) :
    (raft.addPeer info).peers.lookup n =
      if n = info.nodeId then some info else raft.peers.lookup n :=
  HashMap.lookup_insert_of _ _ _ _

theorem lookup_removePeer (peerId n : NodeId) (raft : RaftNode) :
    (raft.removePeer peerId).peers.lookup n =
      if n = peerId then none else raft.peers.lookup n :=
  HashMap.lookup_erase_of _ _ _

/-- What neither the peers nor the registered nodes depend on may change. -/
theorem Matches.of_eq {c' : ClusterNode} (h : Matches members c)
    (hpeers : c'.raft.peers = c.raft.peers)
    (hnodes : c'.replica.availableNodes = c.replica.availableNodes) :
    Matches members c' where
  peers := by
    rw [hpeers]
    exact h.peers
  named := by
    rw [hpeers]
    exact h.named
  active := by
    rw [hnodes]
    exact h.active

theorem matches_joinCluster (now : DateTime) (nodeId : NodeId) (addr : String)
    (h : Matches members c) :
    Matches (fun n => standing n (members n) (.joinCluster now nodeId addr))
      (stateAfter (ScaleManager.joinCluster now nodeId addr) c) := by
  rcases joinCluster_cases now nodeId addr c with
    ⟨hpeer, hrun⟩ | ⟨hnew, record, info, hname, hrun⟩
  · have hmembers : (fun n => standing n (members n) (.joinCluster now nodeId addr)) =
        members := by
      funext n
      rw [standing]
      split
      · next heq =>
          obtain ⟨s, hs⟩ := Option.isSome_iff_exists.mp ((hasPeer_iff h nodeId).mp hpeer)
          rw [← heq, hs]
          rfl
      · rfl
    rw [hmembers, stateAfter, hrun]
    exact h
  · have hnone : members nodeId = none := by
      rw [hasPeer_iff h nodeId, Option.not_isSome_iff_eq_none] at hnew
      exact hnew
    rw [stateAfter, hrun]
    refine ⟨fun n => ?_, fun n info' => ?_, fun n => ?_⟩
    · rw [RaftNode.peers_logged, lookup_addPeer, hname, standing]
      by_cases heq : nodeId = n
      · rw [if_pos heq.symm, if_pos heq]
        exact iff_of_true rfl rfl
      · rw [if_neg (Ne.symm heq), if_neg heq]
        exact h.peers n
    · rw [RaftNode.peers_logged, lookup_addPeer, hname]
      split
      · next heq =>
          intro hinfo
          rw [← Option.some.inj hinfo, hname, heq]
      · exact h.named n info'
    · rw [mem_addNode_iff, standing, h.active n]
      by_cases heq : nodeId = n
      · rw [if_pos heq, ← heq, hnone]
        exact iff_of_true (Or.inl rfl) rfl
      · rw [if_neg heq]
        exact or_iff_right fun h => heq h.symm

theorem matches_leaveCluster (now : DateTime) (nodeId : NodeId) (h : Matches members c) :
    Matches (fun n => standing n (members n) (.leaveCluster now nodeId))
      (stateAfter (ScaleManager.leaveCluster now nodeId) c) := by
  rcases leaveCluster_cases now nodeId c with
    ⟨hcannot, e, hrun⟩ | ⟨-, -, record, hrun⟩
  · have hnone : members nodeId = none := by
      by_contra hsome
      have hmember := Option.isSome_iff_ne_none.mpr hsome
      rcases hcannot with hlast | ⟨habsent, -⟩
      · exact absurd (one_lt_clusterSize hmember h) (Nat.not_lt.mpr hlast)
      · exact habsent ((hasPeer_iff h nodeId).mpr hmember)
    have hmembers : (fun n => standing n (members n) (.leaveCluster now nodeId)) =
        members := by
      funext n
      rw [standing]
      split
      · next heq =>
          rw [← heq, hnone]
      · rfl
    rw [hmembers, stateAfter, hrun]
    exact h
  · rw [stateAfter, hrun]
    refine ⟨fun n => ?_, fun n info => ?_, fun n => ?_⟩
    · rw [RaftNode.peers_logged, lookup_removePeer, standing]
      by_cases heq : nodeId = n
      · rw [if_pos heq.symm, if_pos heq]
        exact Iff.rfl
      · rw [if_neg (Ne.symm heq), if_neg heq]
        exact h.peers n
    · rw [RaftNode.peers_logged, lookup_removePeer]
      split
      · intro hinfo
        cases hinfo
      · exact h.named n info
    · rw [mem_removeNode_iff, standing, h.active n]
      by_cases heq : nodeId = n
      · rw [if_pos heq]
        exact iff_of_false (fun hboth => hboth.2 heq.symm) (fun hnone => by cases hnone)
      · rw [if_neg heq]
        exact and_iff_left fun h => heq h.symm

theorem matches_markNodeFailed (now : DateTime) (nodeId : NodeId)
    (failureType : FailureType) (h : Matches members c) :
    Matches (fun n => standing n (members n) (.markNodeFailed now nodeId failureType))
      (FailoverManager.markNodeFailed now nodeId failureType c).2 := by
  refine ⟨fun n => ?_, h.named, fun n => ?_⟩
  · rw [standing]
    split
    · rw [Option.isSome_map]
      exact h.peers n
    · exact h.peers n
  · change n ∈ (c.replica.removeNode nodeId).availableNodes ↔ _
    rw [mem_removeNode_iff, standing, h.active n]
    by_cases heq : nodeId = n
    · rw [if_pos heq]
      refine iff_of_false (fun hboth => hboth.2 heq.symm) fun hactive => ?_
      obtain ⟨s, -, hs⟩ := Option.map_eq_some_iff.mp hactive
      cases hs
    · rw [if_neg heq]
      exact and_iff_left fun h => heq h.symm

variable {blake3 : Bytes → HashDigest}
variable {fromSlice : Bytes → Except String (List RaftLog)}

theorem peers_startElection (raft : RaftNode) : raft.startElection.peers = raft.peers := by
  unfold startElection
  split <;> rfl

theorem peers_receiveHeartbeat (leaderId : NodeId) (leaderTerm : UInt64) (raft : RaftNode) :
    (raft.receiveHeartbeat leaderId leaderTerm).peers = raft.peers := by
  unfold receiveHeartbeat
  split <;> rfl

theorem matches_recover (order : IterOrder (NodeId × NodeInfo)) (now : DateTime)
    (h : Matches members c) :
    Matches members (stateAfter (FailoverManager.recover order now) c) := by
  rw [stateAfter_recover]
  split
  · exact h.of_eq (peers_startElection c.raft) rfl
  · exact h

theorem matches_recoverFromRestart (files : Files) (logPath : String)
    (order : IterOrder (NodeId × NodeInfo)) (now : DateTime) (h : Matches members c) :
    Matches members (stateAfter
      (FailoverManager.recoverFromRestart fromSlice files logPath order now) c) := by
  rw [stateAfter_recoverFromRestart]
  split
  · exact matches_recover order now h
  · split
    · exact h
    · next logs hread =>
        have hlogs : Matches members { c with raft := withLogs logs c.raft } :=
          h.of_eq rfl rfl
        exact matches_recover order now hlogs

/-- Writing, repairing and deleting replicas registers no node. -/
theorem availableNodes_step (m : ReplicaManager) {call : ReplicaManager.Call}
    (hadd : ∀ n, call ≠ .addNode n) (hremove : ∀ n, call ≠ .removeNode n) :
    (ReplicaManager.step blake3 m call).availableNodes = m.availableNodes := by
  cases call with
  | addNode n =>
      exact absurd rfl (hadd n)
  | removeNode n =>
      exact absurd rfl (hremove n)
  | writeReplicas chunkHash now =>
      rcases @ReplicaManager.step_writeReplicas blake3 chunkHash now m with
        ⟨-, hstep, -⟩ | ⟨-, targetNodes, hstep, -⟩
      · rw [hstep]
      · rw [hstep]
        rfl
  | repairReplicas chunkHash now =>
      rcases @ReplicaManager.step_repairReplicas blake3 chunkHash now m with
        ⟨-, hstep⟩ | ⟨info, -, hstep⟩
      · rw [hstep]
      · rw [hstep]
        rfl
  | deleteReplicas chunkHash =>
      rfl

/-- Every call changes the records of a node as it changes what its peers are. -/
theorem matches_step (call : Call) (h : Matches members c) :
    Matches (fun n => standing n (members n) call)
      (ClusterNode.step blake3 fromSlice c call) := by
  cases call with
  | joinCluster now nodeId addr =>
      exact matches_joinCluster now nodeId addr h
  | leaveCluster now nodeId =>
      exact matches_leaveCluster now nodeId h
  | markNodeFailed now nodeId failureType =>
      exact matches_markNodeFailed now nodeId failureType h
  | recover order now =>
      exact matches_recover order now h
  | recoverFromRestart files logPath order now =>
      exact matches_recoverFromRestart files logPath order now h
  | appendLog entry now =>
      refine h.of_eq ?_ ?_
      · rw [ClusterNode.step, stateAfter_onRaft, stateAfter_appendLog]
        exact RaftNode.peers_logged entry now c.raft
      · rw [ClusterNode.step, stateAfter_onRaft]
  | startElection =>
      exact h.of_eq (peers_startElection c.raft) rfl
  | receiveHeartbeat leaderId leaderTerm =>
      exact h.of_eq (peers_receiveHeartbeat leaderId leaderTerm c.raft) rfl
  | writeReplicas chunkHash now =>
      exact h.of_eq rfl (availableNodes_step c.replica (fun n h => by cases h)
        (fun n h => by cases h))
  | repairReplicas chunkHash now =>
      exact h.of_eq rfl (availableNodes_step c.replica (fun n h => by cases h)
        (fun n h => by cases h))
  | deleteReplicas chunkHash =>
      exact h.of_eq rfl rfl

theorem matches_start (self : NodeId) (addr : String) (factor : Nat) :
    Matches (membership []) (ClusterNode.start self addr factor) where
  peers := fun n => Iff.rfl
  named := fun n info h => by cases h
  active := fun n => iff_of_false List.not_mem_nil (fun h => by cases h)

theorem matches_run (self : NodeId) (addr : String) (factor : Nat) (calls : List Call) :
    Matches (membership calls)
      ((ClusterNode.start self addr factor).run blake3 fromSlice calls) := by
  induction calls using List.reverseRecOn with
  | nil =>
      exact matches_start self addr factor
  | append_singleton calls call ih =>
      have hmembers : membership (calls ++ [call]) =
          fun n => standing n (membership calls n) call := by
        funext n
        exact List.foldl_append
      have hrun : (ClusterNode.start self addr factor).run blake3 fromSlice
          (calls ++ [call]) =
          ClusterNode.step blake3 fromSlice
            ((ClusterNode.start self addr factor).run blake3 fromSlice calls) call :=
        List.foldl_append
      rw [hmembers, hrun]
      exact matches_step call ih

theorem nodeId_logged (entry : RaftLogEntry) (now : DateTime) (n : RaftNode) :
    (n.logged entry now).nodeId = n.nodeId := by
  unfold RaftNode.logged
  split <;> rfl

theorem nodeId_startElection (n : RaftNode) : n.startElection.nodeId = n.nodeId := by
  unfold startElection
  split <;> rfl

theorem nodeId_recover (order : IterOrder (NodeId × NodeInfo)) (now : DateTime)
    (c : ClusterNode) :
    (stateAfter (FailoverManager.recover order now) c).raft.nodeId = c.raft.nodeId := by
  rw [stateAfter_recover]
  split
  · exact nodeId_startElection c.raft
  · rfl

/-- No call renames the node itself. -/
theorem nodeId_step (call : Call) (c : ClusterNode) :
    (ClusterNode.step blake3 fromSlice c call).raft.nodeId = c.raft.nodeId := by
  cases call with
  | joinCluster now nodeId addr =>
      rw [ClusterNode.step, stateAfter]
      rcases joinCluster_cases now nodeId addr c with ⟨-, hrun⟩ | ⟨-, record, info, -, hrun⟩
      · rw [hrun]
      · rw [hrun]
        exact nodeId_logged _ _ _
  | leaveCluster now nodeId =>
      rw [ClusterNode.step, stateAfter]
      rcases leaveCluster_cases now nodeId c with ⟨-, e, hrun⟩ | ⟨-, -, record, hrun⟩
      · rw [hrun]
      · rw [hrun]
        exact nodeId_logged _ _ _
  | recover order now =>
      exact nodeId_recover order now c
  | recoverFromRestart files logPath order now =>
      rw [ClusterNode.step, stateAfter_recoverFromRestart]
      split
      · exact nodeId_recover order now c
      · split
        · rfl
        · exact nodeId_recover order now _
  | appendLog entry now =>
      rw [ClusterNode.step, stateAfter_onRaft, stateAfter_appendLog]
      exact nodeId_logged entry now c.raft
  | startElection =>
      exact nodeId_startElection c.raft
  | receiveHeartbeat leaderId leaderTerm =>
      change (c.raft.receiveHeartbeat leaderId leaderTerm).nodeId = c.raft.nodeId
      unfold receiveHeartbeat
      split <;> rfl
  | markNodeFailed | writeReplicas | repairReplicas | deleteReplicas =>
      rfl

theorem nodeId_run (self : NodeId) (addr : String) (factor : Nat) (calls : List Call) :
    ((ClusterNode.start self addr factor).run blake3 fromSlice calls).raft.nodeId = self := by
  refine List.foldlRecOn calls _ 
    (motive := fun c : ClusterNode => c.raft.nodeId = self) rfl ?_
  intro c hc call _
  rw [nodeId_step, hc]

theorem joinCluster_ok_iff (now : DateTime) (nodeId : NodeId) (addr : String)
    (h : Matches members c) :
    (∃ record, outcome (ScaleManager.joinCluster now nodeId addr) c = .ok record) ↔
      members nodeId = none := by
  rw [← Option.not_isSome_iff_eq_none, ← hasPeer_iff h nodeId, outcome]
  rcases joinCluster_cases now nodeId addr c with
    ⟨hpeer, hrun⟩ | ⟨hnew, record, info, -, hrun⟩
  · rw [hrun]
    refine iff_of_false ?_ (not_not_intro hpeer)
    rintro ⟨record, hok⟩
    cases hok
  · rw [hrun]
    exact iff_of_true ⟨record, rfl⟩ hnew

theorem one_lt_clusterSize_iff (h : Matches members c) :
    1 < c.raft.clusterSize ↔ ∃ n, (members n).isSome := by
  constructor
  · intro hsize
    rw [RaftNode.clusterSize] at hsize
    obtain ⟨n, hn⟩ := List.exists_mem_of_length_pos (l := c.raft.peers.keys) (by omega)
    exact ⟨n, (h.peers n).mp (AList.lookup_isSome.mpr hn)⟩
  · rintro ⟨n, hn⟩
    exact one_lt_clusterSize hn h

theorem leaveCluster_ok_iff (now : DateTime) (nodeId : NodeId) (h : Matches members c) :
    (∃ record, outcome (ScaleManager.leaveCluster now nodeId) c = .ok record) ↔
      (members nodeId).isSome ∨ c.raft.nodeId = nodeId ∧ ∃ n, (members n).isSome := by
  rw [← one_lt_clusterSize_iff h, ← hasPeer_iff h nodeId, outcome]
  rcases leaveCluster_cases now nodeId c with
    ⟨hcannot, e, hrun⟩ | ⟨hsize, hmember, record, hrun⟩
  · rw [hrun]
    refine iff_of_false ?_ ?_
    · rintro ⟨record, hok⟩
      cases hok
    · rintro (hpeer | ⟨hself, hsize⟩)
      · rcases hcannot with hlast | ⟨habsent, -⟩
        · exact absurd (one_lt_clusterSize ((hasPeer_iff h nodeId).mp hpeer) h)
            (Nat.not_lt.mpr hlast)
        · exact habsent hpeer
      · rcases hcannot with hlast | ⟨-, hother⟩
        · exact absurd hsize (Nat.not_lt.mpr hlast)
        · exact hother hself
  · rw [hrun]
    exact iff_of_true ⟨record, rfl⟩ (hmember.imp id fun hself => ⟨hself, hsize⟩)

/-- The peers are the nodes that have joined and not left, those among them that have
not failed may get replicas, and a failed node has to leave before it can join again. -/
theorem run_membership (self : NodeId) (addr : String) (factor : Nat) (calls : List Call) :
    MembershipLaw self (membership calls)
      ((ClusterNode.start self addr factor).run blake3 fromSlice calls) := by
  have hmatch := @matches_run blake3 fromSlice self addr factor calls
  refine ⟨hmatch.peers, hmatch.active, fun n now addr => joinCluster_ok_iff now n addr hmatch,
    fun n now => ?_⟩
  rw [leaveCluster_ok_iff now n hmatch, nodeId_run, @eq_comm _ self n]

end Members

end Cluster
end HyperBackup
