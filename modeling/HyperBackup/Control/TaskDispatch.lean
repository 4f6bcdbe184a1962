import HyperBackup.Executor.TaskExecutor
import HyperBackup.Lib.BatchQueue
import Mathlib.Data.List.Sort

/-!
# How tasks reach the agents

The control server keeps devices, jobs, tasks and results in tables.  A job that is
triggered becomes a task of the agent that was heard of last.  An agent asks for its
tasks with every heartbeat and gets at most five; they are marked as dispatched before
the answer is sent.  It executes them one after the other and reports how each ended.

A machine runs one process of the agent at a time, and every process registers under a
new identifier.  Requests and answers take any time and may get lost.  The system keeps
a history of what was executed and of the tasks that nobody has any more.

Statements on the tables are atomic and do not fail.  Columns that repeat the text of a
task, the address of the storage server and what is written to the audit log are left
out.
-/

namespace HyperBackup
namespace Control
namespace Dispatch

open Lib Lib.Program Executor Executor.TaskExecutor

structure DeviceRow where
  status : String
  lastHeartbeatAt : Option DateTime

/-- What a name stands for in the configuration of a job. -/
inductive ConfigValue
  | str (text : String)
  | other

/-- A configuration that can be read maps names to values. -/
abbrev SourceConfig : Type :=
  Option (HashMap String ConfigValue)

structure JobRow where
  deviceId : Uuid
  sourceConfig : SourceConfig

inductive TaskStatus
  | pending
  | dispatched
  | completed
  | failed
deriving DecidableEq

structure PendingTask where
  taskId : Uuid
  agentId : Option Uuid
  spec : TaskSpec
  status : TaskStatus
  createdAt : DateTime
  dispatchedAt : Option DateTime
deriving DecidableEq

/-- The tables of the control server. -/
structure Tables where
  devices : HashMap Uuid DeviceRow
  jobs : HashMap Uuid JobRow
  pendingTasks : List PendingTask
  taskResults : List TaskResultRequest

namespace Tables

def empty : Tables where
  devices := ∅
  jobs := ∅
  pendingTasks := []
  taskResults := []

def insertDevice (deviceId : Uuid) (row : DeviceRow) (c : Tables) : Tables :=
  match c.devices.lookup deviceId with
  | some _ => c
  | none => { c with devices := c.devices.insert deviceId row }

/-- A device that an administrator creates is offline. -/
def createDevice (deviceId : Uuid) (c : Tables) : Tables :=
  c.insertDevice deviceId { status := "offline", lastHeartbeatAt := none }

def agentRegister (agentId : Uuid) (now : DateTime) (c : Tables) : Tables :=
  c.insertDevice agentId { status := "online", lastHeartbeatAt := some now }

/-- The jobs of a device go with it, its tasks do not. -/
def deleteDevice (deviceId : Uuid) (c : Tables) : Tables :=
  { c with
    devices := c.devices.erase deviceId
    jobs := HashMap.retain (fun _ job => job.deviceId ≠ deviceId) c.jobs }

/-- A job must name a device. -/
def createJob (jobId deviceId : Uuid) (sourceConfig : SourceConfig) (c : Tables) : Tables :=
  match c.devices.lookup deviceId, c.jobs.lookup jobId with
  | some _, none =>
      { c with jobs := c.jobs.insert jobId ⟨deviceId, sourceConfig⟩ }
  | _, _ => c

/-- The text that a name stands for, empty if it stands for none. -/
def configText (sourceConfig : SourceConfig) (name : String) : String :=
  match sourceConfig.bind fun m => m.lookup name with
  | some (.str text) => text
  | _ => ""

def specOf (taskId : Uuid) (id : String) (sourceConfig : SourceConfig) : TaskSpec where
  taskId := uuidText taskId
  jobId := id
  repoId :=
    if configText sourceConfig "repo_id" = "" then "default"
    else configText sourceConfig "repo_id"
  taskType :=
    if configText sourceConfig "backup_type" = "" then "backup"
    else configText sourceConfig "backup_type"
  sourcePath := configText sourceConfig "source_path"
  targetPath := configText sourceConfig "target_path"

/-- Devices without a heartbeat come first, then those with later ones. -/
def comesFirst : Option DateTime → Option DateTime → Bool
  | none, _ => true
  | some _, none => false
  | some s, some t => t ≤ s

/-- The device that was heard of last, among those that may work. -/
def availableAgent (order : IterOrder (Uuid × DeviceRow)) (c : Tables) : Option Uuid :=
  (((order.arrange (HashMap.toList c.devices)).filter fun d =>
      d.2.status = "online" ∨ d.2.status = "idle").insertionSort fun d e =>
        comesFirst d.2.lastHeartbeatAt e.2.lastHeartbeatAt).head?.map Prod.fst

def insertTask (task : PendingTask) (c : Tables) : Tables :=
  if (c.pendingTasks.map PendingTask.taskId).contains task.taskId then c
  else { c with pendingTasks := c.pendingTasks ++ [task] }

/-- A task for a job, whose name is a text that may be that of an identifier.  The device
of the job plays no part. -/
def triggerJob (id : String) (jobUUID : Option Uuid) (taskId : Uuid)
    (order : IterOrder (Uuid × DeviceRow)) (now : DateTime) (c : Tables) : Tables :=
  match jobUUID.bind fun uuid => c.jobs.lookup uuid with
  | none => c
  | some job =>
      match c.availableAgent order with
      | none => c
      | some agentId => c.insertTask
          { taskId := taskId
            agentId := some agentId
            spec := specOf taskId id job.sourceConfig
            status := .pending
            createdAt := now
            dispatchedAt := none }

/-- The tasks that an agent may get. -/
def waitingFor (agentId : Uuid) (c : Tables) : List PendingTask :=
  c.pendingTasks.filter fun t =>
    (t.agentId = some agentId ∨ t.agentId = none) ∧ t.status = .pending

/-- The oldest five of them. -/
def nextTasks (order : IterOrder PendingTask) (agentId : Uuid) (c : Tables) :
    List PendingTask :=
  BatchQueue.batch PendingTask.createdAt 5 order (c.waitingFor agentId)

def dispatchTasks (taskIds : List Uuid) (now : DateTime) (c : Tables) : Tables :=
  { c with
    pendingTasks := c.pendingTasks.map fun t =>
      if taskIds.contains t.taskId then
        { t with status := .dispatched, dispatchedAt := some now }
      else t }

/-- The device is idle, and its tasks are dispatched. -/
def agentHeartbeat (order : IterOrder PendingTask) (agentId : Uuid) (now : DateTime)
    (c : Tables) : Tables :=
  let seen : Tables :=
    { c with
      devices := HashMap.modify c.devices agentId fun _ =>
        { status := "idle", lastHeartbeatAt := some now } }
  seen.dispatchTasks ((seen.nextTasks order agentId).map PendingTask.taskId) now

def agentTaskResult (result : TaskResultRequest) (c : Tables) : Tables :=
  { c with taskResults := c.taskResults ++ [result] }

end Tables

/-- A process of the agent: its identifier once it has registered, the call that it
waits for, and the tasks that it has yet to execute. -/
structure AgentProcess where
  agentId : Option Uuid
  waiting : Option Nat
  commands : List TaskSpec

def AgentProcess.new : AgentProcess where
  agentId := none
  waiting := none
  commands := []

/-- A task and the agent that it is for. -/
structure Consignment where
  agentId : Uuid
  spec : TaskSpec
deriving DecidableEq

def consign (agentId : Uuid) (specs : List TaskSpec) : List Consignment :=
  specs.map fun spec => { agentId := agentId, spec := spec }

/-- The tasks that a process has, as those of its agent. -/
def AgentProcess.held (p : AgentProcess) : List Consignment :=
  match p.agentId with
  | none => []
  | some agentId => consign agentId p.commands

/-- The calls that are on their way, with the machine that waits for the answer. -/
inductive Message
  | heartbeatRequest (machine : String) (call : Nat) (agentId : Uuid)
  | heartbeatResponse (machine : String) (call : Nat) (agentId : Uuid)
      (commands : List TaskSpec)
  | taskResult (result : TaskResultRequest)

/-- The control server, the processes by their machines, what is on its way, and the
history. -/
structure Network where
  tables : Tables
  agents : HashMap String AgentProcess
  inFlight : List Message
  calls : Nat
  executed : List Consignment
  lost : List Consignment

inductive Event
  | createDevice (deviceId : Uuid)
  | deleteDevice (deviceId : Uuid)
  | createJob (jobId deviceId : Uuid) (sourceConfig : SourceConfig)
  | triggerJob (id : String) (jobUUID : Option Uuid) (taskId : Uuid)
      (order : IterOrder (Uuid × DeviceRow)) (now : DateTime)
  | start (machine : String)
  | register (machine : String) (agentId : Uuid) (now : DateTime) (answered : Bool)
  | heartbeat (machine : String)
  | giveUp (machine : String)
  | work (machine : String) (setting : Setting) (world : World)
  | deliver (i : Nat) (order : IterOrder PendingTask) (returned : IterOrder TaskSpec)
      (now : DateTime)
  | lose (i : Nat)

namespace Network

def empty : Network where
  tables := .empty
  agents := ∅
  inFlight := []
  calls := 0
  executed := []
  lost := []

def withTables (f : Tables → Tables) (n : Network) : Network :=
  { n with tables := f n.tables }

def withAgent (machine : String) (p : AgentProcess) (n : Network) : Network :=
  { n with agents := n.agents.insert machine p }

def send (m : Message) (n : Network) : Network :=
  { n with inFlight := n.inFlight ++ [m] }

/-- A new process, without what the last one had. -/
def start (machine : String) (n : Network) : Network :=
  { n.withAgent machine .new with
    lost := n.lost ++ ((n.agents.lookup machine).elim [] AgentProcess.held) }

/-- A new device, even if no process gets the answer. -/
def register (machine : String) (agentId : Uuid) (now : DateTime) (answered : Bool)
    (n : Network) : Network :=
  match n.tables.devices.lookup agentId with
  | some _ => n
  | none =>
      let registered := n.withTables (Tables.agentRegister agentId now)
      match answered, n.agents.lookup machine with
      | true, some ⟨none, waiting, commands⟩ =>
          registered.withAgent machine ⟨some agentId, waiting, commands⟩
      | _, _ => registered

/-- A process that has nothing to do asks for tasks. -/
def heartbeat (machine : String) (n : Network) : Network :=
  match n.agents.lookup machine with
  | some ⟨some agentId, none, []⟩ =>
      { (n.withAgent machine ⟨some agentId, some n.calls, []⟩).send
          (.heartbeatRequest machine n.calls agentId) with
        calls := n.calls + 1 }
  | _ => n

/-- The call of a process fails. -/
def giveUp (machine : String) (n : Network) : Network :=
  match n.agents.lookup machine with
  | some p => n.withAgent machine { p with waiting := none }
  | none => n

/-- A process executes its next task and reports how it ended. -/
def work (machine : String) (setting : Setting) (world : World) (n : Network) : Network :=
  match n.agents.lookup machine with
  | some ⟨some agentId, waiting, spec :: commands⟩ =>
      { (n.withAgent machine ⟨some agentId, waiting, commands⟩).send
          (.taskResult (taskResult setting (uuidText agentId) spec
            (outcome (executeTask setting spec) world))) with
        executed := n.executed ++ [{ agentId := agentId, spec := spec }] }
  | _ => n

def lostMessage (m : Message) (n : Network) : Network :=
  match m with
  | .heartbeatResponse _ _ agentId commands =>
      { n with lost := n.lost ++ consign agentId commands }
  | _ => n

/-- A message arrives.  An answer that nobody waits for is lost. -/
def receive (order : IterOrder PendingTask) (returned : IterOrder TaskSpec)
    (now : DateTime) (m : Message) (n : Network) : Network :=
  match m with
  | .heartbeatRequest machine call agentId =>
      (n.withTables (Tables.agentHeartbeat order agentId now)).send
        (.heartbeatResponse machine call agentId
          (returned.arrange ((n.tables.nextTasks order agentId).map PendingTask.spec)))
  | .heartbeatResponse machine call agentId commands =>
      match n.agents.lookup machine with
      | some p =>
          if p.waiting = some call then
            n.withAgent machine { p with waiting := none, commands := commands }
          else lostMessage (.heartbeatResponse machine call agentId commands) n
      | none => lostMessage (.heartbeatResponse machine call agentId commands) n
  | .taskResult result => n.withTables (Tables.agentTaskResult result)

/-- Take a message that is on its way. -/
def take (i : Nat) (f : Message → Network → Network) (n : Network) : Network :=
  match n.inFlight[i]? with
  | some m => f m { n with inFlight := n.inFlight.eraseIdx i }
  | none => n

def step (n : Network) : Event → Network
  | .createDevice deviceId => n.withTables (Tables.createDevice deviceId)
  | .deleteDevice deviceId => n.withTables (Tables.deleteDevice deviceId)
  | .createJob jobId deviceId sourceConfig =>
      n.withTables (Tables.createJob jobId deviceId sourceConfig)
  | .triggerJob id jobUUID taskId order now =>
      n.withTables (Tables.triggerJob id jobUUID taskId order now)
  | .start machine => n.start machine
  | .register machine agentId now answered => n.register machine agentId now answered
  | .heartbeat machine => n.heartbeat machine
  | .giveUp machine => n.giveUp machine
  | .work machine setting world => n.work machine setting world
  | .deliver i order returned now => n.take i (receive order returned now)
  | .lose i => n.take i lostMessage

def run (events : List Event) : Network :=
  events.foldl step empty

end Network

end Dispatch
end Control
end HyperBackup
