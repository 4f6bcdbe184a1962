import HyperBackup.Cluster.Raft
import HyperBackup.Lib.Runs

/-!
# The log of a node and of those that come after it

A node appends to its log, takes part in elections and writes its log to files.
After a restart there is a new node, which has read a file.  It has the log of
the old node but not its term: it starts in term one.

The invariant of the log holds as long as no restart reads an entry of a later
term, and no election makes the term wrap around.
-/

namespace HyperBackup
namespace Cluster

open Lib Lib.Program Lib.Runs RaftNode

/-- A new node, as the first of a cluster or as one that joins it. -/
inductive FreshNode
  | single (nodeId : NodeId) (addr : String)
  | follower (nodeId : NodeId) (addr leaderAddr : String)

def FreshNode.node : FreshNode → RaftNode
  | .single nodeId addr => newSingle nodeId addr
  | .follower nodeId addr leaderAddr => newFollower nodeId addr leaderAddr

inductive LogEvent
  | appendLog (entry : RaftLogEntry) (now : DateTime)
  | startElection
  | receiveHeartbeat (leaderId : NodeId) (leaderTerm : UInt64)
  | persistLogs (path : String)
  | restart (fresh : FreshNode) (path : String)

/-- The node that runs, and the files. -/
structure LogWorld where
  node : RaftNode
  files : Files

namespace LogWorld

/-- A first node, without any files. -/
def start (fresh : FreshNode) : LogWorld where
  node := fresh.node
  files := ∅

variable (toVecPretty : List RaftLog → Bytes)
variable (fromSlice : Bytes → Except String (List RaftLog))

def step (w : LogWorld) : LogEvent → LogWorld
  | .appendLog entry now => { w with node := stateAfter (appendLog entry now) w.node }
  | .startElection => { w with node := w.node.startElection }
  | .receiveHeartbeat leaderId leaderTerm =>
      { w with node := w.node.receiveHeartbeat leaderId leaderTerm }
  | .persistLogs path =>
      { w with files := persistLogs toVecPretty path w.node w.files }
  | .restart fresh path =>
      { w with node := stateAfter (restoreLogs fromSlice path w.files) fresh.node }

def run (fresh : FreshNode) (events : List LogEvent) : LogWorld :=
  events.foldl (step toVecPretty fromSlice) (start fresh)

end LogWorld

/-- The entries are numbered from one on, and their terms do not decrease. -/
structure WellFormed (logs : List RaftLog) : Prop where
  indices : logs.map RaftLog.index = List.range' 1 logs.length
  terms : (logs.map RaftLog.term).Pairwise (· ≤ ·)

/-- The invariant of a node with its log. -/
structure LogInvariant (n : RaftNode) : Prop where
  wellFormed : WellFormed n.log
  bounded : ∀ e ∈ n.log, e.term ≤ n.term
  commitIndex : n.commitIndex = n.log.length
  lastApplied : n.lastApplied = n.log.length

/-- The invariant of the log in every state of a run. -/
def LogLaw (toVecPretty : List RaftLog → Bytes)
    (fromSlice : Bytes → Except String (List RaftLog)) (fresh : FreshNode)
    (events : List LogEvent) : Prop :=
  ∀ before, before <+: events →
    LogInvariant (LogWorld.run toVecPretty fromSlice fresh before).node

/-- No election makes the term of a node with a log wrap around, and no restart
reads an entry of a term after the first. -/
def KeepsTerm (fromSlice : Bytes → Except String (List RaftLog)) (w : LogWorld) :
    LogEvent → Prop
  | .startElection =>
      w.node.term.toNat + 1 < 2 ^ 64 ∨ ∀ e ∈ w.node.log, e.term = 0
  | .restart _ path =>
      ∀ data logs, w.files.lookup path = some data → fromSlice data = .ok logs →
        ∀ e ∈ logs, e.term ≤ 1
  | _ => True

section Logs

variable {logs : List RaftLog} {n : RaftNode}

theorem wellFormed_nil : WellFormed [] :=
  ⟨rfl, List.Pairwise.nil⟩

theorem wellFormed_concat {e : RaftLog} (h : WellFormed logs)
    (hindex : e.index = logs.length + 1) (hterm : ∀ e' ∈ logs, e'.term ≤ e.term) :
    WellFormed (logs ++ [e]) where
  indices := by
    rw [List.map_append, h.indices, List.length_append, List.length_singleton,
      List.range'_concat, List.map_singleton, hindex, Nat.one_mul, Nat.add_comm]
  terms := by
    rw [List.map_append, List.pairwise_append]
    refine ⟨h.terms, List.pairwise_singleton _ _, ?_⟩
    intro t ht t' ht'
    obtain ⟨e', he', rfl⟩ := List.mem_map.mp ht
    rw [List.mem_singleton.mp ht']
    exact hterm e' he'

/-- The largest index of a log that is numbered from one on is its length. -/
theorem maxIndex_of_wellFormed (h : WellFormed logs) : maxIndex logs = logs.length := by
  have hrange : ∀ count start : Nat, (List.range' 1 count).foldl max start =
      max start count := by
    intro count
    induction count with
    | zero =>
        intro start
        exact (Nat.max_eq_left (Nat.zero_le start)).symm
    | succ count ih =>
        intro start
        rw [List.range'_concat, List.foldl_append, ih]
        simp only [List.foldl_cons, List.foldl_nil]
        omega
  rw [maxIndex, h.indices, hrange, Nat.max_eq_right (Nat.zero_le _)]

theorem logInvariant_fresh (fresh : FreshNode) : LogInvariant fresh.node := by
  cases fresh with
  | single nodeId addr =>
      exact ⟨wellFormed_nil, nofun, rfl, rfl⟩
  | follower nodeId addr leaderAddr =>
      exact ⟨wellFormed_nil, nofun, rfl, rfl⟩

/-- A new node starts in term one. -/
theorem term_fresh (fresh : FreshNode) : fresh.node.term = 1 := by
  cases fresh <;> rfl

theorem logInvariant_appendLog (entry : RaftLogEntry) (now : DateTime)
    (h : LogInvariant n) : LogInvariant (stateAfter (appendLog entry now) n) := by
  by_cases hrole : n.role = .leader
  · have hafter : stateAfter (appendLog entry now) n =
        withLog (n.nextLog entry now) n := by
      simp only [stateAfter, appendLog, EStateM.run_bind, EStateM.run_get, hrole,
        if_true]
      rfl
    rw [hafter]
    refine ⟨wellFormed_concat h.wellFormed rfl h.bounded, ?_, ?_, ?_⟩
    · intro e he
      rcases List.mem_append.mp he with he | he
      · exact h.bounded e he
      · rw [List.mem_singleton.mp he]
        exact UInt64.le_refl n.term
    · simp [withLog, nextLog]
    · simp [withLog, nextLog]
  · have hafter : stateAfter (appendLog entry now) n = n := by
      simp only [stateAfter, appendLog, EStateM.run_bind, EStateM.run_get, hrole,
        if_false]
      rfl
    rwa [hafter]

/-- An election leaves everything of the log as it was but the bound. -/
theorem logInvariant_startElection_iff (h : LogInvariant n) :
    LogInvariant n.startElection ↔
      n.term.toNat + 1 < 2 ^ 64 ∨ ∀ e ∈ n.log, e.term = 0 := by
  have hindices : n.startElection.commitIndex = n.commitIndex ∧
      n.startElection.lastApplied = n.lastApplied := by
    unfold startElection
    split <;> exact ⟨rfl, rfl⟩
  have hbounded : LogInvariant n.startElection ↔
      ∀ e ∈ n.log, e.term ≤ n.term + 1 := by
    constructor
    · intro hafter
      simpa using hafter.bounded
    · intro hle
      refine ⟨?_, by simpa using hle, ?_, ?_⟩
      · rw [log_startElection]
        exact h.wellFormed
      · rw [hindices.1, log_startElection, h.commitIndex]
      · rw [hindices.2, log_startElection, h.lastApplied]
  have hsum : (n.term + 1).toNat = (n.term.toNat + 1) % 2 ^ 64 :=
    UInt64.toNat_add n.term 1
  rw [hbounded]
  by_cases hwrap : n.term.toNat + 1 < 2 ^ 64
  · refine iff_of_true (fun e he => ?_) (Or.inl hwrap)
    have hle := UInt64.le_iff_toNat_le.mp (h.bounded e he)
    rw [UInt64.le_iff_toNat_le, hsum, Nat.mod_eq_of_lt hwrap]
    omega
  · have hzero : n.term + 1 = 0 := by
      have hlt := n.term.toNat_lt
      have hmax : n.term.toNat + 1 = 2 ^ 64 := by omega
      refine UInt64.toNat_inj.mp ?_
      rw [hsum, hmax, Nat.mod_self]
      rfl
    rw [hzero, or_iff_right hwrap]
    exact forall₂_congr fun e _ => UInt64.le_zero_iff

theorem logInvariant_receiveHeartbeat (leaderId : NodeId) (leaderTerm : UInt64)
    (h : LogInvariant n) : LogInvariant (n.receiveHeartbeat leaderId leaderTerm) := by
  have hindices : (n.receiveHeartbeat leaderId leaderTerm).commitIndex =
        n.commitIndex ∧
      (n.receiveHeartbeat leaderId leaderTerm).lastApplied = n.lastApplied := by
    unfold receiveHeartbeat
    split <;> exact ⟨rfl, rfl⟩
  have hlog := log_receiveHeartbeat leaderId leaderTerm n
  refine ⟨?_, ?_, ?_, ?_⟩
  · rw [hlog]
    exact h.wellFormed
  · rw [hlog]
    exact fun e he => UInt64.le_trans (h.bounded e he)
      (term_le_receiveHeartbeat leaderId leaderTerm n)
  · rw [hindices.1, hlog, h.commitIndex]
  · rw [hindices.2, hlog, h.lastApplied]

/-- A new node with a log that it has read. -/
theorem logInvariant_withLogs_iff (fresh : FreshNode) (h : WellFormed logs) :
    LogInvariant (withLogs logs fresh.node) ↔ ∀ e ∈ logs, e.term ≤ 1 := by
  have hterm : (withLogs logs fresh.node).term = 1 := term_fresh fresh
  constructor
  · intro hafter
    rw [← hterm]
    exact hafter.bounded
  · intro hle
    refine ⟨h, ?_, maxIndex_of_wellFormed h, maxIndex_of_wellFormed h⟩
    rw [hterm]
    exact hle

end Logs

section Runs

variable {toVecPretty : List RaftLog → Bytes}
variable {fromSlice : Bytes → Except String (List RaftLog)}
variable {w : LogWorld}

/-- A log that is written to a file can be read back. -/
def ReadsBack (toVecPretty : List RaftLog → Bytes)
    (fromSlice : Bytes → Except String (List RaftLog)) (w : LogWorld) :
    LogEvent → Prop
  | .persistLogs _ => fromSlice (toVecPretty w.node.log) = .ok w.node.log
  | _ => True

/-- Every file holds a log that is numbered from one on. -/
def FilesWellFormed (fromSlice : Bytes → Except String (List RaftLog))
    (files : Files) : Prop :=
  ∀ path data, files.lookup path = some data →
    ∃ logs, fromSlice data = .ok logs ∧ WellFormed logs

/-- The invariant of the node and of the files. -/
structure WorldInvariant (fromSlice : Bytes → Except String (List RaftLog))
    (w : LogWorld) : Prop where
  node : LogInvariant w.node
  files : FilesWellFormed fromSlice w.files

theorem stateAfter_restoreLogs {path : String} {files : Files} {data : Bytes}
    {logs : List RaftLog} (n : RaftNode) (hdata : files.lookup path = some data)
    (hread : fromSlice data = .ok logs) :
    stateAfter (restoreLogs fromSlice path files) n = withLogs logs n := by
  simp only [restoreLogs, hdata, hread]
  rfl

theorem logInvariant_restart_iff (fresh : FreshNode) (path : String)
    (hfiles : FilesWellFormed fromSlice w.files) :
    LogInvariant (stateAfter (restoreLogs fromSlice path w.files) fresh.node) ↔
      KeepsTerm fromSlice w (.restart fresh path) := by
  cases hdata : w.files.lookup path with
  | none =>
      refine iff_of_true ?_ ?_
      · simp only [restoreLogs, hdata]
        exact logInvariant_fresh fresh
      · intro data logs hsome
        rw [hdata] at hsome
        cases hsome
  | some data =>
      obtain ⟨logs, hread, hlogs⟩ := hfiles path data hdata
      rw [stateAfter_restoreLogs fresh.node hdata hread,
        logInvariant_withLogs_iff fresh hlogs]
      constructor
      · intro hle data' logs' hsome hparsed
        obtain rfl := Option.some.inj (hdata.symm.trans hsome)
        obtain rfl := Except.ok.inj (hread.symm.trans hparsed)
        exact hle
      · exact fun hkeeps => hkeeps data logs hdata hread

theorem logInvariant_step_iff (event : LogEvent) (h : WorldInvariant fromSlice w) :
    LogInvariant (LogWorld.step toVecPretty fromSlice w event).node ↔
      KeepsTerm fromSlice w event := by
  cases event with
  | appendLog entry now =>
      exact iff_of_true (logInvariant_appendLog entry now h.node) trivial
  | startElection =>
      exact logInvariant_startElection_iff h.node
  | receiveHeartbeat leaderId leaderTerm =>
      exact iff_of_true (logInvariant_receiveHeartbeat leaderId leaderTerm h.node)
        trivial
  | persistLogs path =>
      exact iff_of_true h.node trivial
  | restart fresh path =>
      exact logInvariant_restart_iff fresh path h.files

theorem filesWellFormed_step (event : LogEvent) (h : WorldInvariant fromSlice w)
    (hread : ReadsBack toVecPretty fromSlice w event) :
    FilesWellFormed fromSlice
      (LogWorld.step toVecPretty fromSlice w event).files := by
  cases event with
  | appendLog entry now =>
      exact h.files
  | startElection =>
      exact h.files
  | receiveHeartbeat leaderId leaderTerm =>
      exact h.files
  | persistLogs path =>
      intro other data hdata
      change (w.files.insert path (toVecPretty w.node.log)).lookup other = some data
        at hdata
      rw [HashMap.lookup_insert_of] at hdata
      split at hdata
      · rw [← Option.some.inj hdata]
        exact ⟨w.node.log, hread, h.node.wellFormed⟩
      · exact h.files other data hdata
  | restart fresh path =>
      exact h.files

/-- The invariant of the log holds in every state of a run exactly if every
election and every restart keeps the term above the log. -/
theorem logLaw_iff_keepsTerm (fresh : FreshNode) (events : List LogEvent)
    (hread : ∀ before event later, events = before ++ event :: later →
      ReadsBack toVecPretty fromSlice
        (LogWorld.run toVecPretty fromSlice fresh before) event) :
    LogLaw toVecPretty fromSlice fresh events ↔
      ∀ before event later, events = before ++ event :: later →
        KeepsTerm fromSlice (LogWorld.run toVecPretty fromSlice fresh before)
          event := by
  let step := LogWorld.step toVecPretty fromSlice
  have hreads : Always step (ReadsBack toVecPretty fromSlice)
      (LogWorld.start fresh) events :=
    always_iff_split.mpr hread
  have hstart : WorldInvariant fromSlice (LogWorld.start fresh) :=
    ⟨logInvariant_fresh fresh, fun path data h => by cases h⟩
  have hcongr : Always step
        (fun w event => ReadsBack toVecPretty fromSlice w event ∧
          LogInvariant (step w event).node) (LogWorld.start fresh) events ↔
      Always step
        (fun w event => ReadsBack toVecPretty fromSlice w event ∧
          KeepsTerm fromSlice w event) (LogWorld.start fresh) events :=
    always_congr
      (fun w event h => and_congr_right fun _ => logInvariant_step_iff event h)
      (fun w event h hboth => ⟨hboth.2, filesWellFormed_step event h hboth.1⟩) hstart
  rw [always_and, always_and, and_iff_right hreads, and_iff_right hreads] at hcongr
  have hlaw : LogLaw toVecPretty fromSlice fresh events ↔
      Always step (fun w event => LogInvariant (step w event).node)
        (LogWorld.start fresh) events :=
    (forall_prefix_iff (I := fun w : LogWorld => LogInvariant w.node)).trans
      (and_iff_right hstart.node)
  rw [hlaw, hcongr, always_iff_split]
  rfl

end Runs

section Example

/-- One entry, of the given term. -/
def oneEntry (term : UInt64) : List RaftLog :=
  [{ term := term
     index := 1
     entry := .deleteRepository "r1"
     committed := true
     timestamp := 0 }]

/-- The text of the file with the entry. -/
def oneEntryText (term : String) : Bytes :=
  ("[\n  \x7b\n    \"term\": " ++ term ++ ",\n    \"index\": 1,\n    " ++
    "\"entry\": \x7b\n      \"DeleteRepository\": \x7b\n        " ++
    "\"repo_id\": \"r1\"\n      \x7d\n    \x7d,\n    \"committed\": true,\n    " ++
    "\"timestamp\": \"1970-01-01T00:00:00Z\"\n  \x7d\n]").toUTF8.toList

/-- A reader that knows one file. -/
def oneEntryRead (term : UInt64) (text data : Bytes) :
    Except String (List RaftLog) :=
  if data = text then .ok (oneEntry term)
  else .error "EOF while parsing a value at line 1 column 0"

/-- A first node of term one is restarted. -/
def restarted : List LogEvent := [
  .appendLog (.deleteRepository "r1") 0,
  .persistLogs "raft_log.json",
  .restart (.single "m" "127.0.0.1:9001") "raft_log.json"]

/-- A first node that held an election before. -/
def restartedLater : List LogEvent :=
  .startElection :: restarted

theorem read_oneEntryText (term : UInt64) (text : Bytes) :
    oneEntryRead term text text = .ok (oneEntry term) :=
  if_pos rfl

theorem logLaw_restarted :
    LogLaw (fun _ => oneEntryText "1") (oneEntryRead 1 (oneEntryText "1"))
      (.single "n" "127.0.0.1:9000") restarted := by
  refine (logLaw_iff_keepsTerm _ restarted ?_).mpr ?_
  · intro before event later heq
    rcases before with _ | ⟨a, _ | ⟨b, _ | ⟨c, before⟩⟩⟩
    · cases heq
      trivial
    · cases heq
      exact read_oneEntryText 1 _
    · cases heq
      trivial
    · simp [restarted] at heq
  · intro before event later heq
    rcases before with _ | ⟨a, _ | ⟨b, _ | ⟨c, before⟩⟩⟩
    · cases heq
      trivial
    · cases heq
      trivial
    · cases heq
      intro data logs hdata hparsed
      have htext : data = oneEntryText "1" := (Option.some.inj hdata).symm
      rw [htext, read_oneEntryText] at hparsed
      rw [← Except.ok.inj hparsed]
      decide
    · simp [restarted] at heq

theorem not_logLaw_restartedLater :
    ¬ LogLaw (fun _ => oneEntryText "2") (oneEntryRead 2 (oneEntryText "2"))
      (.single "n" "127.0.0.1:9000") restartedLater := by
  intro h
  have hinvariant := h restartedLater List.prefix_rfl
  have hnode : (LogWorld.run (fun _ => oneEntryText "2")
      (oneEntryRead 2 (oneEntryText "2")) (.single "n" "127.0.0.1:9000")
      restartedLater).node =
      withLogs (oneEntry 2) (newSingle "m" "127.0.0.1:9001") :=
    stateAfter_restoreLogs _ rfl (read_oneEntryText 2 _)
  rw [hnode] at hinvariant
  have hle := hinvariant.bounded _ List.mem_cons_self
  exact absurd hle (by decide)

end Example

end Cluster
end HyperBackup
