import HyperBackup.Domain
import HyperBackup.Lib.HashMap
import HyperBackup.Lib.Program

/-!
# A node of the simplified Raft

A node has a role, a term and a log.  There are no votes: an election raises
the term, and a node without peers becomes leader at once.  A heartbeat of a
term that is not smaller makes the node a follower.  The log can be written to
a file and read by a new node.

Terms are 64-bit and wrap around.  A log is shorter than that, so indices are
natural numbers.  The text form of a log comes from outside.
-/

namespace HyperBackup
namespace Cluster

open Lib Lib.Program

/-- The text that names a node. -/
abbrev NodeId : Type :=
  String

inductive NodeRole
  | leader
  | follower
  | candidate
deriving DecidableEq

structure NodeInfo where
  nodeId : NodeId
  addr : String
  role : NodeRole
  joinedAt : DateTime
  lastHeartbeat : Option DateTime

inductive RaftLogEntry
  | createRepository (repoId name : String)
  | deleteRepository (repoId : String)
  | createVersion (repoId versionId : String) (parentVersionId : Option String)
  | sealVersion (repoId versionId : String)
  | deleteVersion (repoId versionId : String)
  | updateChunkRef (repoId chunkHash : String) (refCount : UInt32)
  | addNode (nodeId : NodeId) (addr : String)
  | removeNode (nodeId : NodeId)
deriving DecidableEq

structure RaftLog where
  term : UInt64
  index : Nat
  entry : RaftLogEntry
  committed : Bool
  timestamp : DateTime
deriving DecidableEq

structure RaftNode where
  nodeId : NodeId
  addr : String
  role : NodeRole
  term : UInt64
  leaderId : Option NodeId
  peers : HashMap NodeId NodeInfo
  log : List RaftLog
  commitIndex : Nat
  lastApplied : Nat

inductive RaftError
  | notLeader (role : NodeRole)
  | serde (message : String)

namespace RaftNode

def newSingle (nodeId : NodeId) (addr : String) : RaftNode where
  nodeId := nodeId
  addr := addr
  role := .leader
  term := 1
  leaderId := some nodeId
  peers := ∅
  log := []
  commitIndex := 0
  lastApplied := 0

/-- The address of the leader is not used. -/
def newFollower (nodeId : NodeId) (addr _leaderAddr : String) : RaftNode where
  nodeId := nodeId
  addr := addr
  role := .follower
  term := 1
  leaderId := none
  peers := ∅
  log := []
  commitIndex := 0
  lastApplied := 0

/-- The entry that a leader appends. -/
def nextLog (n : RaftNode) (entry : RaftLogEntry) (now : DateTime) : RaftLog where
  term := n.term
  index := n.log.length + 1
  entry := entry
  committed := true
  timestamp := now

/-- The node with one more entry. -/
def withLog (raftLog : RaftLog) (n : RaftNode) : RaftNode :=
  { n with
    log := n.log ++ [raftLog]
    commitIndex := raftLog.index
    lastApplied := raftLog.index }

def appendLog (entry : RaftLogEntry) (now : DateTime) :
    EStateM RaftError RaftNode RaftLog := do
  let n ← get
  if n.role = .leader then
    modify (withLog (n.nextLog entry now))
    return n.nextLog entry now
  else
    throw (.notLeader n.role)

def addPeer (info : NodeInfo) (n : RaftNode) : RaftNode :=
  { n with peers := n.peers.insert info.nodeId info }

def removePeer (peerId : NodeId) (n : RaftNode) : RaftNode :=
  { n with peers := n.peers.erase peerId }

/-- A node is a candidate, and without peers it is elected. -/
def startElection (n : RaftNode) : RaftNode :=
  if n.peers.keys = [] then
    { n with role := .leader, term := n.term + 1, leaderId := some n.nodeId }
  else
    { n with role := .candidate, term := n.term + 1 }

def receiveHeartbeat (leaderId : NodeId) (leaderTerm : UInt64) (n : RaftNode) :
    RaftNode :=
  if n.term ≤ leaderTerm then
    { n with role := .follower, term := leaderTerm, leaderId := some leaderId }
  else n

/-- The files by their paths. -/
abbrev Files : Type :=
  HashMap String Bytes

def persistLogs (toVecPretty : List RaftLog → Bytes) (path : String)
    (n : RaftNode) (files : Files) : Files :=
  files.insert path (toVecPretty n.log)

/-- The largest index in a log, zero if it is empty. -/
def maxIndex (logs : List RaftLog) : Nat :=
  (logs.map RaftLog.index).foldl max 0

/-- The node with the log from a file, all of it committed. -/
def withLogs (logs : List RaftLog) (n : RaftNode) : RaftNode :=
  { n with
    log := logs
    commitIndex := maxIndex logs
    lastApplied := maxIndex logs }

/-- A file that is not there leaves the node as it is. -/
def restoreLogs (fromSlice : Bytes → Except String (List RaftLog)) (path : String)
    (files : Files) : EStateM RaftError RaftNode Unit :=
  match files.lookup path with
  | none => return
  | some data =>
      match fromSlice data with
      | .error message => throw (.serde message)
      | .ok logs => modify (withLogs logs)

section Steps

variable {n : RaftNode}

@[simp] theorem term_startElection (n : RaftNode) :
    n.startElection.term = n.term + 1 := by
  unfold startElection
  split <;> rfl

@[simp] theorem log_startElection (n : RaftNode) :
    n.startElection.log = n.log := by
  unfold startElection
  split <;> rfl

/-- A node is leader after an election exactly if it has no peers. -/
theorem role_startElection (n : RaftNode) :
    n.startElection.role = .leader ↔ n.peers.keys = [] := by
  unfold startElection
  split
  · next h =>
      exact iff_of_true rfl h
  · next h =>
      exact iff_of_false NodeRole.noConfusion h

theorem log_receiveHeartbeat (leaderId : NodeId) (leaderTerm : UInt64) (n : RaftNode) :
    (n.receiveHeartbeat leaderId leaderTerm).log = n.log := by
  unfold receiveHeartbeat
  split <;> rfl

/-- A heartbeat does not lower the term. -/
theorem term_le_receiveHeartbeat (leaderId : NodeId) (leaderTerm : UInt64)
    (n : RaftNode) : n.term ≤ (n.receiveHeartbeat leaderId leaderTerm).term := by
  unfold receiveHeartbeat
  split
  · next h =>
      exact h
  · exact UInt64.le_refl n.term

/-- A node that is leader after a heartbeat has ignored it. -/
theorem receiveHeartbeat_of_leader {leaderId : NodeId} {leaderTerm : UInt64}
    (h : (n.receiveHeartbeat leaderId leaderTerm).role = .leader) :
    n.receiveHeartbeat leaderId leaderTerm = n := by
  unfold receiveHeartbeat at h ⊢
  split at h
  · cases h
  · next hterm =>
      rw [if_neg hterm]

end Steps

end RaftNode
end Cluster
end HyperBackup
