import HyperBackup.Cluster.Raft
import HyperBackup.Lib.Runs

/-!
# The leaders of a cluster

One node starts as a single leader and the others as followers.  Leaders send
heartbeats, which arrive in any order, at any time, and possibly more than once.

Nodes stop being leader by heartbeats, and become leader only by an election
without peers.  A node that has not yet been told of its peers takes itself for
a single node.  So there is one leader for each term exactly as long as no such
election meets a leader of the next term.
-/

namespace HyperBackup
namespace Cluster

open Lib Lib.Runs RaftNode

/-- The identifier and the term of a leader when it sent the heartbeat. -/
structure Heartbeat where
  leaderId : NodeId
  leaderTerm : UInt64
deriving DecidableEq

/-- What a new follower is made from. -/
structure FollowerArgs where
  nodeId : NodeId
  addr : String
  leaderAddr : String

/-- The nodes by their identifiers, and the heartbeats that were sent. -/
structure Nodes where
  nodes : HashMap NodeId RaftNode
  sent : List Heartbeat

inductive ClusterEvent
  | startElection (nodeId : NodeId)
  | sendHeartbeat (nodeId : NodeId)
  | deliver (nodeId : NodeId) (heartbeat : Heartbeat)
  | addPeer (nodeId : NodeId) (info : NodeInfo)
  | removePeer (nodeId peerId : NodeId)

namespace Nodes

/-- A single node and its followers. -/
def start (nodeId : NodeId) (addr : String) (followers : List FollowerArgs) :
    Nodes where
  nodes := HashMap.collect
    (followers.map (fun f => (f.nodeId, newFollower f.nodeId f.addr f.leaderAddr)) ++
      [(nodeId, newSingle nodeId addr)])
  sent := []

/-- A node changes. -/
def update (nodeId : NodeId) (f : RaftNode → RaftNode) (c : Nodes) : Nodes :=
  { c with nodes := HashMap.modify c.nodes nodeId f }

def step (c : Nodes) : ClusterEvent → Nodes
  | .startElection nodeId => c.update nodeId startElection
  | .sendHeartbeat nodeId =>
      match c.nodes.lookup nodeId with
      | none => c
      | some n =>
          if n.role = .leader then
            { c with sent := { leaderId := n.nodeId, leaderTerm := n.term } :: c.sent }
          else c
  | .deliver nodeId heartbeat =>
      if heartbeat ∈ c.sent then
        c.update nodeId (receiveHeartbeat heartbeat.leaderId heartbeat.leaderTerm)
      else c
  | .addPeer nodeId info => c.update nodeId (addPeer info)
  | .removePeer nodeId peerId => c.update nodeId (removePeer peerId)

def run (nodeId : NodeId) (addr : String) (followers : List FollowerArgs)
    (events : List ClusterEvent) : Nodes :=
  events.foldl step (start nodeId addr followers)

/-- The node is leader, in the given term. -/
def LeaderOf (c : Nodes) (nodeId : NodeId) (term : UInt64) : Prop :=
  ∃ n, c.nodes.lookup nodeId = some n ∧ n.role = .leader ∧ n.term = term

/-- No two nodes are leader in the same term. -/
def OneLeader (c : Nodes) : Prop :=
  ∀ id id' term, c.LeaderOf id term → c.LeaderOf id' term → id = id'

/-- There is one leader for each term in every state of a run. -/
def LeaderLaw (nodeId : NodeId) (addr : String) (followers : List FollowerArgs)
    (events : List ClusterEvent) : Prop :=
  ∀ before, before <+: events → OneLeader (run nodeId addr followers before)

/-- A node that starts an election has peers, or no other node is leader of the
term that it gets. -/
def Unopposed (c : Nodes) : ClusterEvent → Prop
  | .startElection nodeId =>
      ∀ n, c.nodes.lookup nodeId = some n → n.peers.keys = [] →
        ∀ other, other ≠ nodeId → ¬ c.LeaderOf other (n.term + 1)
  | _ => True

section Steps

variable {c : Nodes} {nodeId id : NodeId} {term : UInt64}
variable {f : RaftNode → RaftNode}

/-- Only the node that changes can become leader. -/
theorem leaderOf_update_iff :
    (c.update nodeId f).LeaderOf id term ↔
      if id = nodeId then
        ∃ n, c.nodes.lookup nodeId = some n ∧ (f n).role = .leader ∧ (f n).term = term
      else c.LeaderOf id term := by
  unfold LeaderOf update
  simp only [HashMap.lookup_modify]
  by_cases hid : id = nodeId
  · simp [hid]
  · simp [hid]

/-- A change that makes no leader and leaves the term of a leader. -/
theorem oneLeader_update (h : OneLeader c)
    (hf : ∀ n, (f n).role = .leader → n.role = .leader ∧ (f n).term = n.term) :
    OneLeader (c.update nodeId f) := by
  have hold : ∀ id term, (c.update nodeId f).LeaderOf id term → c.LeaderOf id term := by
    intro id term hleader
    rw [leaderOf_update_iff] at hleader
    split at hleader
    · next hid =>
        obtain ⟨n, hn, hrole, hterm⟩ := hleader
        obtain ⟨hbefore, hsame⟩ := hf n hrole
        exact ⟨n, hid ▸ hn, hbefore, hsame.symm.trans hterm⟩
    · exact hleader
  exact fun id id' term hid hid' => h id id' term (hold id term hid) (hold id' term hid')

theorem oneLeader_startElection_iff (h : OneLeader c) :
    OneLeader (c.update nodeId startElection) ↔
      Unopposed c (.startElection nodeId) := by
  constructor
  · intro hafter n hn hpeers other hother hleader
    refine hother (hafter other nodeId (n.term + 1) ?_ ?_)
    · rw [leaderOf_update_iff, if_neg hother]
      exact hleader
    · rw [leaderOf_update_iff, if_pos rfl]
      exact ⟨n, hn, (role_startElection n).mpr hpeers, term_startElection n⟩
  · intro hunopposed
    have hself : ∀ other term, other ≠ nodeId →
        (c.update nodeId startElection).LeaderOf nodeId term →
        ¬ c.LeaderOf other term := by
      intro other term hother hleader
      rw [leaderOf_update_iff, if_pos rfl] at hleader
      obtain ⟨n, hn, hrole, rfl⟩ := hleader
      rw [term_startElection]
      exact hunopposed n hn ((role_startElection n).mp hrole) other hother
    intro id id' term hid hid'
    by_cases hleft : id = nodeId
    · by_cases hright : id' = nodeId
      · rw [hleft, hright]
      · rw [leaderOf_update_iff, if_neg hright] at hid'
        exact absurd hid' (hself id' term hright (hleft ▸ hid))
    · rw [leaderOf_update_iff, if_neg hleft] at hid
      by_cases hright : id' = nodeId
      · exact absurd hid (hself id term hleft (hright ▸ hid'))
      · rw [leaderOf_update_iff, if_neg hright] at hid'
        exact h id id' term hid hid'

theorem oneLeader_of_nodes_eq {c' : Nodes} (hnodes : c'.nodes = c.nodes)
    (h : OneLeader c) : OneLeader c' := by
  unfold OneLeader LeaderOf at h ⊢
  rwa [hnodes]

/-- Sending changes no node. -/
theorem nodes_sendHeartbeat (c : Nodes) (nodeId : NodeId) :
    (step c (.sendHeartbeat nodeId)).nodes = c.nodes := by
  cases hn : c.nodes.lookup nodeId with
  | none =>
      simp only [step, hn]
  | some n =>
      by_cases hrole : n.role = .leader
      · simp only [step, hn, hrole, if_true]
      · simp only [step, hn, hrole, if_false]

theorem oneLeader_step_iff (event : ClusterEvent) (h : OneLeader c) :
    OneLeader (step c event) ↔ Unopposed c event := by
  cases event with
  | startElection nodeId =>
      exact oneLeader_startElection_iff h
  | sendHeartbeat nodeId =>
      exact iff_of_true (oneLeader_of_nodes_eq (nodes_sendHeartbeat c nodeId) h) trivial
  | deliver nodeId heartbeat =>
      refine iff_of_true ?_ trivial
      by_cases hsent : heartbeat ∈ c.sent
      · rw [step, if_pos hsent]
        refine oneLeader_update h fun n hrole => ?_
        have hsame := receiveHeartbeat_of_leader hrole
        rw [hsame] at hrole ⊢
        exact ⟨hrole, rfl⟩
      · rw [step, if_neg hsent]
        exact h
  | addPeer nodeId info =>
      exact iff_of_true (oneLeader_update h fun n hrole => ⟨hrole, rfl⟩) trivial
  | removePeer nodeId peerId =>
      exact iff_of_true (oneLeader_update h fun n hrole => ⟨hrole, rfl⟩) trivial

/-- In the beginning the single node is the only leader. -/
theorem oneLeader_start (nodeId : NodeId) (addr : String)
    (followers : List FollowerArgs) : OneLeader (start nodeId addr followers) := by
  have honly : ∀ id term, (start nodeId addr followers).LeaderOf id term →
      id = nodeId := by
    rintro id term ⟨n, hn, hrole, -⟩
    have hmem := HashMap.mem_of_lookup_collect hn
    rcases List.mem_append.mp hmem with hmem | hmem
    · obtain ⟨f, -, heq⟩ := List.mem_map.mp hmem
      rw [← (Prod.mk.inj heq).2] at hrole
      cases hrole
    · exact (Prod.mk.inj (List.mem_singleton.mp hmem)).1
  exact fun id id' term hid hid' => (honly id term hid).trans (honly id' term hid').symm

/-- There is one leader for each term along a run exactly if every election
without peers is unopposed. -/
theorem leaderLaw_iff_unopposed (nodeId : NodeId) (addr : String)
    (followers : List FollowerArgs) (events : List ClusterEvent) :
    LeaderLaw nodeId addr followers events ↔
      ∀ before event later, events = before ++ event :: later →
        Unopposed (run nodeId addr followers before) event := by
  have hstart := oneLeader_start nodeId addr followers
  have hcongr : Always step (fun c event => OneLeader (step c event))
        (start nodeId addr followers) events ↔
      Always step Unopposed (start nodeId addr followers) events :=
    always_congr (fun c event h => oneLeader_step_iff event h)
      (fun c event _ hafter => hafter) hstart
  have hlaw : LeaderLaw nodeId addr followers events ↔
      Always step (fun c event => OneLeader (step c event))
        (start nodeId addr followers) events :=
    (forall_prefix_iff (I := OneLeader)).trans (and_iff_right hstart)
  rw [hlaw, hcongr, always_iff_split]
  rfl

/-- A follower holds an election before it is told of its peers, and the leader
holds one after it. -/
def bothElected : List ClusterEvent :=
  [.startElection "b", .startElection "a"]

theorem not_leaderLaw_bothElected :
    ¬ LeaderLaw "a" "127.0.0.1:9000"
      [{ nodeId := "b", addr := "127.0.0.1:9001", leaderAddr := "127.0.0.1:9000" }]
      bothElected := by
  intro h
  have hone := h bothElected List.prefix_rfl
  have hne : ("a" : NodeId) ≠ "b" := by
    decide
  exact hne (hone "a" "b" 2 ⟨_, rfl, rfl, rfl⟩ ⟨_, rfl, rfl, rfl⟩)

end Steps

end Nodes
end Cluster
end HyperBackup
