import HyperBackup.Cluster.Membership

/-!
# What a node records of its members

The replicas of a chunk are on active members, and the log of the node names its
peers, as long as the calls that were made keep them so.  A repair does not look
whether a node is still there, and a node that is not leader changes its peers
without a word in its log.  Both results say exactly which calls do harm.
-/

namespace HyperBackup
namespace Cluster

open Lib Lib.Program Lib.Runs RaftNode

section Placement

variable {blake3 : Bytes → HashDigest}
variable {fromSlice : Bytes → Except String (List RaftLog)}
variable {c : ClusterNode} {m : ReplicaManager}

/-- Every replica of the chunk that has the status is on an active member. -/
def OnActive (members : NodeId → Option Standing) (status : ReplicaStatus)
    (chunkHash : String) (m : ReplicaManager) : Prop :=
  ∀ info, m.replicas.lookup chunkHash = some info →
    ∀ r ∈ info.replicas, r.status = status → members r.nodeId = some .active

/-- The missing replicas of the chunk are on registered nodes. -/
def MissingHere (chunkHash : String) (m : ReplicaManager) : Prop :=
  ∀ info, m.replicas.lookup chunkHash = some info →
    ∀ r ∈ info.replicas, r.status = .missing → r.nodeId ∈ m.availableNodes

/-- A step of the replicas leaves them where they are recorded to be exactly if it
does not repair a replica on a node that is gone. -/
theorem placed_step_iff {call : ReplicaManager.Call} (h : m.Placed) :
    (ReplicaManager.step blake3 m call).Placed ↔
      ∀ chunkHash now, call = .repairReplicas chunkHash now → MissingHere chunkHash m := by
  have hlaw := @ReplicaManager.lawfulStep_iff_harmless blake3 m call h
  cases call with
  | writeReplicas chunkHash now =>
      refine iff_of_true ?_ fun k now' hcall => by cases hcall
      rcases @ReplicaManager.step_writeReplicas blake3 chunkHash now m with
        ⟨-, hstep, -⟩ | ⟨-, targetNodes, hstep, -, -, hnodes, -⟩
      · rwa [hstep]
      · rw [hstep]
        exact ReplicaManager.forall_insert h
          (ReplicaManager.onNodes_writtenInfo chunkHash now hnodes)
  | repairReplicas chunkHash now =>
      have hwrites := @ReplicaManager.writesWell_of_ne blake3 m
        (.repairReplicas chunkHash now) fun _ _ h => by cases h
      refine (and_iff_left hwrites).symm.trans (hlaw.trans ⟨fun hmissing k now' hcall => ?_,
        fun hmissing => hmissing chunkHash now rfl⟩)
      obtain ⟨rfl, -⟩ := ReplicaManager.Call.repairReplicas.inj hcall
      exact hmissing
  | addNode nodeId =>
      exact iff_of_true (hlaw.mpr trivial).1 fun k now hcall => by cases hcall
  | removeNode nodeId =>
      exact iff_of_true (hlaw.mpr trivial).1 fun k now hcall => by cases hcall
  | deleteReplicas chunkHash =>
      exact iff_of_true (hlaw.mpr trivial).1 fun k now hcall => by cases hcall

/-- The call on the replicas that a call on the node makes, if it makes one. -/
def replicaCall (c : ClusterNode) : Call → Option ReplicaManager.Call
  | .joinCluster _ nodeId _ =>
      if c.raft.hasPeer nodeId then none else some (.addNode nodeId)
  | .leaveCluster _ nodeId =>
      if c.raft.clusterSize ≤ 1 ∨ ¬ c.raft.hasPeer nodeId ∧ c.raft.nodeId ≠ nodeId then
        none
      else some (.removeNode nodeId)
  | .markNodeFailed _ nodeId _ => some (.removeNode nodeId)
  | .writeReplicas chunkHash now => some (.writeReplicas chunkHash now)
  | .repairReplicas chunkHash now => some (.repairReplicas chunkHash now)
  | .deleteReplicas chunkHash => some (.deleteReplicas chunkHash)
  | _ => none

theorem replica_recover (order : IterOrder (NodeId × NodeInfo)) (now : DateTime)
    (c : ClusterNode) :
    (stateAfter (FailoverManager.recover order now) c).replica = c.replica := by
  rw [stateAfter_recover]
  split <;> rfl

/-- The replicas of a node change by calls on them only. -/
theorem replica_step (call : Call) (c : ClusterNode) :
    (ClusterNode.step blake3 fromSlice c call).replica =
      (replicaCall c call).elim c.replica (ReplicaManager.step blake3 c.replica) := by
  cases call with
  | joinCluster now nodeId addr =>
      rw [ClusterNode.step, stateAfter, replicaCall]
      rcases joinCluster_cases now nodeId addr c with
        ⟨hpeer, hrun⟩ | ⟨hnew, record, info, -, hrun⟩
      · rw [hrun, if_pos hpeer]
        rfl
      · rw [hrun, if_neg hnew]
        rfl
  | leaveCluster now nodeId =>
      rw [ClusterNode.step, stateAfter, replicaCall]
      rcases leaveCluster_cases now nodeId c with
        ⟨hcannot, e, hrun⟩ | ⟨hsize, hmember, record, hrun⟩
      · rw [hrun, if_pos hcannot]
        rfl
      · rw [hrun, if_neg]
        · rfl
        · rintro (hlast | ⟨habsent, hother⟩)
          · exact absurd hsize (Nat.not_lt.mpr hlast)
          · exact hmember.elim habsent hother
  | recover order now =>
      exact replica_recover order now c
  | recoverFromRestart files logPath order now =>
      rw [ClusterNode.step, stateAfter_recoverFromRestart]
      split
      · exact replica_recover order now c
      · split
        · rfl
        · exact replica_recover order now _
  | appendLog entry now =>
      rw [ClusterNode.step, stateAfter_onRaft]
      rfl
  | markNodeFailed | startElection | receiveHeartbeat | writeReplicas | repairReplicas |
    deleteReplicas =>
      rfl

theorem replicaCall_eq_repair_iff {call : Call} {chunkHash : String}
    {now : NodeId → DateTime} :
    replicaCall c call = some (.repairReplicas chunkHash now) ↔
      call = .repairReplicas chunkHash now := by
  cases call with
  | joinCluster | leaveCluster =>
      rw [replicaCall]
      split <;> simp
  | _ =>
      simp [replicaCall]

theorem placed_clusterStep_iff {call : Call} (h : c.replica.Placed) :
    (ClusterNode.step blake3 fromSlice c call).replica.Placed ↔
      ∀ chunkHash now, call = .repairReplicas chunkHash now →
        MissingHere chunkHash c.replica := by
  rw [replica_step]
  cases hcall : replicaCall c call with
  | none =>
      refine iff_of_true h fun chunkHash now hrepair => ?_
      have hsome := (@replicaCall_eq_repair_iff c call chunkHash now).mpr hrepair
      rw [hcall] at hsome
      cases hsome
  | some replica =>
      rw [Option.elim_some, placed_step_iff h]
      refine forall₂_congr fun chunkHash now => ?_
      rw [← @replicaCall_eq_repair_iff c call chunkHash now, hcall, Option.some.injEq]

/-- In the terms of the calls, what the node records of a chunk. -/
theorem onActive_iff {members : NodeId → Option Standing} (hmatch : Matches members c)
    (status : ReplicaStatus) (chunkHash : String) :
    OnActive members status chunkHash c.replica ↔
      ∀ info, c.replica.replicas.lookup chunkHash = some info →
        ∀ r ∈ info.replicas, r.status = status → r.nodeId ∈ c.replica.availableNodes := by
  refine forall₄_congr fun info _ r _ => ?_
  rw [hmatch.active]

/-- The replicas that are recorded as complete are on active members as long as no
chunk is repaired while it misses a replica on a node that failed or left. -/
theorem completeOnActive_run_iff (self : NodeId) (addr : String) (factor : Nat)
    (calls : List Call) :
    (∀ before, before <+: calls → ∀ chunkHash,
        OnActive (membership before) .complete chunkHash
          ((ClusterNode.start self addr factor).run blake3 fromSlice before).replica) ↔
      ∀ before chunkHash now later,
        calls = before ++ .repairReplicas chunkHash now :: later →
          OnActive (membership before) .missing chunkHash
            ((ClusterNode.start self addr factor).run blake3 fromSlice before).replica := by
  have hmatch := fun before => @matches_run blake3 fromSlice self addr factor before
  have hplaced : ∀ before, (∀ chunkHash, OnActive (membership before) .complete chunkHash
      ((ClusterNode.start self addr factor).run blake3 fromSlice before).replica) ↔
      ((ClusterNode.start self addr factor).run blake3 fromSlice before).replica.Placed :=
    fun before => forall_congr' fun chunkHash => onActive_iff (hmatch before) _ chunkHash
  have hstart : (ClusterNode.start self addr factor).replica.Placed :=
    fun chunkHash info h => by cases h
  have hcongr : Always (ClusterNode.step blake3 fromSlice)
        (fun c call => (ClusterNode.step blake3 fromSlice c call).replica.Placed)
        (ClusterNode.start self addr factor) calls ↔
      Always (ClusterNode.step blake3 fromSlice)
        (fun c call => ∀ chunkHash now, call = .repairReplicas chunkHash now →
          MissingHere chunkHash c.replica)
        (ClusterNode.start self addr factor) calls :=
    always_congr (I := fun c : ClusterNode => c.replica.Placed)
      (fun c call h => placed_clusterStep_iff h) (fun c call _ h => h) hstart
  simp only [hplaced]
  have hsplit := @forall_prefix_iff _ _ (ClusterNode.step blake3 fromSlice)
    (ClusterNode.start self addr factor) calls (fun c => c.replica.Placed)
  refine hsplit.trans ((and_iff_right hstart).trans (hcongr.trans ?_))
  rw [always_iff_split]
  constructor
  · intro h before chunkHash now later hcalls
    exact (onActive_iff (hmatch before) _ chunkHash).mpr
      (h before _ later hcalls chunkHash now rfl)
  · intro h before call later hcalls chunkHash now hcall
    exact (onActive_iff (hmatch before) _ chunkHash).mp
      (h before chunkHash now later (hcall ▸ hcalls))

end Placement

section Replay

variable {blake3 : Bytes → HashDigest}
variable {fromSlice : Bytes → Except String (List RaftLog)}
variable {c : ClusterNode} {members : NodeId → Option Standing}

/-- Whether a node is a peer after an entry. -/
def replayEntry (nodeId : NodeId) (peer : Bool) : RaftLogEntry → Bool
  | .addNode added _ => if added = nodeId then true else peer
  | .removeNode removed => if removed = nodeId then false else peer
  | _ => peer

/-- Whether a node is a peer after all entries of a log. -/
def replay (logs : List RaftLog) (nodeId : NodeId) : Bool :=
  (logs.map RaftLog.entry).foldl (replayEntry nodeId) false

/-- The log names exactly the peers. -/
def Replays (c : ClusterNode) : Prop :=
  ∀ n, replay c.raft.log n = (c.raft.peers.lookup n).isSome

/-- The call changes the log and the peers alike: only a leader lets others join and
leave, no other entry is about a node, and a log that is read names the peers. -/
def Logged (fromSlice : Bytes → Except String (List RaftLog)) (c : ClusterNode) :
    Call → Prop
  | .joinCluster _ nodeId _ => ¬ c.raft.hasPeer nodeId → c.raft.role = .leader
  | .leaveCluster _ nodeId => c.raft.hasPeer nodeId → c.raft.role = .leader
  | .appendLog entry _ => c.raft.role = .leader →
      ∀ n, replayEntry n (c.raft.peers.lookup n).isSome entry =
        (c.raft.peers.lookup n).isSome
  | .recoverFromRestart files logPath _ _ =>
      ∀ data logs, files.lookup logPath = some data → fromSlice data = .ok logs →
        ∀ n, replay logs n = (c.raft.peers.lookup n).isSome
  | _ => True

theorem role_addPeer (info : NodeInfo) (raft : RaftNode) :
    (raft.addPeer info).role = raft.role :=
  rfl

theorem role_removePeer (peerId : NodeId) (raft : RaftNode) :
    (raft.removePeer peerId).role = raft.role :=
  rfl

theorem replay_logged (entry : RaftLogEntry) (now : DateTime) (raft : RaftNode)
    (n : NodeId) :
    replay (raft.logged entry now).log n =
      if raft.role = .leader then replayEntry n (replay raft.log n) entry
      else replay raft.log n := by
  rw [RaftNode.log_logged]
  split
  · rw [replay, List.map_append, List.foldl_append]
    rfl
  · rfl

theorem replays_appendLog_iff (entry : RaftLogEntry) (now : DateTime) (h : Replays c) :
    Replays { c with raft := c.raft.logged entry now } ↔
      (c.raft.role = .leader → ∀ n, replayEntry n (c.raft.peers.lookup n).isSome entry =
        (c.raft.peers.lookup n).isSome) := by
  have hafter : ∀ n, replay (c.raft.logged entry now).log n =
      ((c.raft.logged entry now).peers.lookup n).isSome ↔
      (c.raft.role = .leader → replayEntry n (c.raft.peers.lookup n).isSome entry =
        (c.raft.peers.lookup n).isSome) := by
    intro n
    rw [replay_logged, RaftNode.peers_logged, h n]
    split
    · next hleader =>
        exact (imp_iff_right hleader).symm
    · next hother =>
        exact iff_of_true rfl fun hleader => absurd hleader hother
  exact (forall_congr' hafter).trans forall_comm

theorem replays_joinCluster_iff (now : DateTime) (nodeId : NodeId) (addr : String)
    (hmatch : Matches members c) (h : Replays c) :
    Replays (stateAfter (ScaleManager.joinCluster now nodeId addr) c) ↔
      (¬ c.raft.hasPeer nodeId → c.raft.role = .leader) := by
  rw [stateAfter]
  rcases joinCluster_cases now nodeId addr c with
    ⟨hpeer, hrun⟩ | ⟨hnew, record, info, hname, hrun⟩
  · rw [hrun]
    exact iff_of_true h fun hnew => absurd hpeer hnew
  · rw [hrun, imp_iff_right hnew]
    have hbefore : replay c.raft.log nodeId = false := by
      rw [h nodeId, Bool.eq_false_iff]
      exact fun hsome => hnew ((hasPeer_iff hmatch nodeId).mpr ((hmatch.peers nodeId).mp hsome))
    constructor
    · intro hafter
      by_contra hother
      have hsame := hafter nodeId
      rw [replay_logged, role_addPeer, RaftNode.peers_logged, lookup_addPeer, hname, if_pos rfl,
        if_neg hother] at hsame
      cases hbefore.symm.trans hsame
    · intro hleader n
      rw [replay_logged, role_addPeer, RaftNode.peers_logged, lookup_addPeer, hname,
        if_pos hleader, replayEntry]
      by_cases heq : nodeId = n
      · rw [if_pos heq, if_pos heq.symm]
        rfl
      · rw [if_neg heq, if_neg (Ne.symm heq)]
        exact h n

theorem replays_leaveCluster_iff (now : DateTime) (nodeId : NodeId)
    (hmatch : Matches members c) (h : Replays c) :
    Replays (stateAfter (ScaleManager.leaveCluster now nodeId) c) ↔
      (c.raft.hasPeer nodeId → c.raft.role = .leader) := by
  rw [stateAfter]
  rcases leaveCluster_cases now nodeId c with
    ⟨hcannot, e, hrun⟩ | ⟨hsize, -, record, hrun⟩
  · rw [hrun]
    refine iff_of_true h fun hpeer => ?_
    rcases hcannot with hlast | ⟨habsent, -⟩
    · exact absurd (one_lt_clusterSize ((hasPeer_iff hmatch nodeId).mp hpeer) hmatch)
        (Nat.not_lt.mpr hlast)
    · exact absurd hpeer habsent
  · rw [hrun]
    have hbefore : replay c.raft.log nodeId ↔ c.raft.hasPeer nodeId := by
      rw [h nodeId, hmatch.peers nodeId, hasPeer_iff hmatch nodeId]
    constructor
    · intro hafter hpeer
      by_contra hother
      have hsame := hafter nodeId
      rw [replay_logged, role_removePeer, RaftNode.peers_logged, lookup_removePeer, if_pos rfl,
        if_neg hother] at hsame
      cases (hbefore.mpr hpeer).symm.trans hsame
    · intro hleader n
      rw [replay_logged, role_removePeer, RaftNode.peers_logged, lookup_removePeer]
      by_cases heq : nodeId = n
      · rw [if_pos heq.symm]
        split
        · rw [replayEntry, if_pos heq]
          rfl
        · next hother =>
            have habsent := fun hpeer => hother (hleader hpeer)
            rw [← heq]
            exact Bool.eq_false_iff.mpr fun hmember => habsent (hbefore.mp hmember)
      · rw [if_neg (Ne.symm heq), replayEntry, if_neg heq]
        split
        · exact h n
        · exact h n

theorem replays_recover (order : IterOrder (NodeId × NodeInfo)) (now : DateTime)
    (c : ClusterNode) :
    Replays (stateAfter (FailoverManager.recover order now) c) ↔ Replays c := by
  rw [stateAfter_recover]
  split
  · rw [Replays, log_startElection, peers_startElection]
    rfl
  · rfl

theorem replays_recoverFromRestart_iff (files : Files) (logPath : String)
    (order : IterOrder (NodeId × NodeInfo)) (now : DateTime) (h : Replays c) :
    Replays (stateAfter
        (FailoverManager.recoverFromRestart fromSlice files logPath order now) c) ↔
      ∀ data logs, files.lookup logPath = some data → fromSlice data = .ok logs →
        ∀ n, replay logs n = (c.raft.peers.lookup n).isSome := by
  rw [stateAfter_recoverFromRestart]
  cases hfile : files.lookup logPath with
  | none =>
      refine iff_of_true ((replays_recover order now c).mpr h) ?_
      intro data logs hdata
      cases hdata
  | some data =>
      cases hread : fromSlice data with
      | error message =>
          simp only [hread]
          refine iff_of_true h ?_
          intro data' logs hdata hlogs
          rw [← Option.some.inj hdata, hread] at hlogs
          cases hlogs
      | ok logs =>
          simp only [hread]
          refine (replays_recover order now _).trans ⟨?_, ?_⟩
          · intro hafter data' logs' hdata hlogs
            rw [← Option.some.inj hdata, hread] at hlogs
            rw [← Except.ok.inj hlogs]
            exact hafter
          · intro hall
            exact hall data logs rfl hread

/-- A call keeps what the log says of the peers exactly if it logs what it does. -/
theorem replays_step_iff {call : Call} (hmatch : Matches members c) (h : Replays c) :
    Replays (ClusterNode.step blake3 fromSlice c call) ↔ Logged fromSlice c call := by
  cases call with
  | joinCluster now nodeId addr =>
      exact replays_joinCluster_iff now nodeId addr hmatch h
  | leaveCluster now nodeId =>
      exact replays_leaveCluster_iff now nodeId hmatch h
  | recover order now =>
      exact iff_of_true ((replays_recover order now c).mpr h) trivial
  | recoverFromRestart files logPath order now =>
      exact replays_recoverFromRestart_iff files logPath order now h
  | appendLog entry now =>
      rw [ClusterNode.step, stateAfter_onRaft, stateAfter_appendLog]
      exact replays_appendLog_iff entry now h
  | startElection =>
      refine iff_of_true (fun n => ?_) trivial
      rw [ClusterNode.step, log_startElection, peers_startElection]
      exact h n
  | receiveHeartbeat leaderId leaderTerm =>
      refine iff_of_true (fun n => ?_) trivial
      rw [ClusterNode.step, log_receiveHeartbeat, peers_receiveHeartbeat]
      exact h n
  | markNodeFailed | writeReplicas | repairReplicas | deleteReplicas =>
      exact iff_of_true h trivial

/-- The peers of a node are what its log says in every state of a run exactly if every
call logs what it does to the peers. -/
theorem replays_run_iff (self : NodeId) (addr : String) (factor : Nat)
    (calls : List Call) :
    (∀ before, before <+: calls →
        Replays ((ClusterNode.start self addr factor).run blake3 fromSlice before)) ↔
      ∀ before call later, calls = before ++ call :: later →
        Logged fromSlice ((ClusterNode.start self addr factor).run blake3 fromSlice before)
          call := by
  have hstart : Replays (ClusterNode.start self addr factor) := fun n => rfl
  have hcongr : Always (ClusterNode.step blake3 fromSlice)
        (fun c call => Replays (ClusterNode.step blake3 fromSlice c call))
        (ClusterNode.start self addr factor) calls ↔
      Always (ClusterNode.step blake3 fromSlice) (Logged fromSlice)
        (ClusterNode.start self addr factor) calls :=
    always_congr (I := fun c => Replays c ∧ ∃ members, Matches members c)
      (fun c call h => h.2.elim fun members hmatch => replays_step_iff hmatch h.1)
      (fun c call h hafter => ⟨hafter, h.2.elim fun members hmatch =>
        ⟨_, matches_step call hmatch⟩⟩)
      ⟨hstart, _, matches_start self addr factor⟩
  have hsplit := @forall_prefix_iff _ _ (ClusterNode.step blake3 fromSlice)
    (ClusterNode.start self addr factor) calls Replays
  exact hsplit.trans ((and_iff_right hstart).trans (hcongr.trans always_iff_split))

end Replay

end Cluster
end HyperBackup
