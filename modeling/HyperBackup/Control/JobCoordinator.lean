import HyperBackup.Domain
import HyperBackup.Lib.HashMap
import HyperBackup.Lib.Program
import HyperBackup.Lib.Runs

/-!
# The life of a job

The coordinator keeps the jobs, the commands that wait for each device, and the
results that the agents report.  A job is triggered while it is pending, and
cancelled unless it is completed or failed.  A result is recorded whatever the
status of the job is.

The law of the job is a relation between a job and what a call makes of it.
`Fits` says when a result may be recorded, and the main result is that the law
holds along a run exactly if every recorded result fits.
-/

namespace HyperBackup
namespace Control

open Lib Lib.Program Lib.Runs

/-- The status of a job is a string.  Five are named. -/
inductive JobStatus
  | pending
  | running
  | completed
  | failed
  | cancelled
  | other (text : String)
      (h : text ∉ ["pending", "running", "completed", "failed", "cancelled"])
deriving DecidableEq

def JobStatus.text : JobStatus → String
  | .pending => "pending"
  | .running => "running"
  | .completed => "completed"
  | .failed => "failed"
  | .cancelled => "cancelled"
  | .other text _ => text

inductive CommandType
  | policyUpdate
  | triggerBackup
  | upgradeAgent
  | pauseTask
  | resumeTask
deriving DecidableEq

/-- A map from names to values that the coordinator does not look into. -/
abbrev Config (V : Type) : Type :=
  Option (HashMap GoString V)

structure Job (V : Type) where
  id : Uuid
  deviceId : Uuid
  name : GoString
  policyId : Option Uuid
  status : JobStatus
  sourceConfig : Config V
  destConfig : Config V
  createdAt : DateTime
  startedAt : Option DateTime
  completedAt : Option DateTime
  errorMsg : GoString

/-- The ratio is a 64-bit float; its bits are kept. -/
structure TaskResult where
  jobId : Uuid
  deviceId : Uuid
  status : JobStatus
  bytesProcessed : UInt64
  bytesStored : UInt64
  fileCount : UInt32
  chunkCount : UInt32
  dedupRatio : UInt64
  versionId : Option GoString
  errorMsg : GoString
  completedAt : DateTime

/-- A value in the payload of a command. -/
inductive PayloadValue (V : Type)
  | text (s : String)
  | config (c : Config V)

structure Command (V : Type) where
  id : Uuid
  deviceId : Uuid
  type : CommandType
  payload : HashMap String (PayloadValue V)
  createdAt : DateTime

structure Coordinator (V : Type) where
  jobs : HashMap Uuid (Job V)
  commands : HashMap Uuid (List (Command V))
  results : HashMap Uuid (List TaskResult)

namespace Coordinator

variable {V : Type}

def new : Coordinator V where
  jobs := ∅
  commands := ∅
  results := ∅

/-- The commands that wait for a device. -/
def commandsOf (c : Coordinator V) (deviceId : Uuid) : List (Command V) :=
  (c.commands.lookup deviceId).getD []

/-- The results recorded for a job. -/
def resultsOf (c : Coordinator V) (jobId : Uuid) : List TaskResult :=
  (c.results.lookup jobId).getD []

/-- The coordinator with a job stored under an identifier. -/
def withJob (id : Uuid) (job : Job V) (c : Coordinator V) : Coordinator V where
  jobs := c.jobs.insert id job
  commands := c.commands
  results := c.results

/-- The coordinator with one more command for a device. -/
def withCommand (cmd : Command V) (c : Coordinator V) : Coordinator V where
  jobs := c.jobs
  commands := c.commands.insert cmd.deviceId (c.commandsOf cmd.deviceId ++ [cmd])
  results := c.results

/-- The coordinator with one more result for a job. -/
def withResult (result : TaskResult) (c : Coordinator V) : Coordinator V where
  jobs := c.jobs
  commands := c.commands
  results := c.results.insert result.jobId (c.resultsOf result.jobId ++ [result])

/-- The coordinator after a device has taken its commands. -/
def withoutCommands (deviceId : Uuid) (c : Coordinator V) : Coordinator V where
  jobs := c.jobs
  commands := c.commands.insert deviceId []
  results := c.results

def newJob (id : Uuid) (now : DateTime) (deviceId : Uuid) (name : GoString)
    (sourceConfig destConfig : Config V) : Job V where
  id := id
  deviceId := deviceId
  name := name
  policyId := none
  status := .pending
  sourceConfig := sourceConfig
  destConfig := destConfig
  createdAt := now
  startedAt := none
  completedAt := none
  errorMsg := []

def createJob (id : Uuid) (now : DateTime) (deviceId : Uuid) (name : GoString)
    (sourceConfig destConfig : Config V) :
    EStateM String (Coordinator V) (Job V) := do
  if name = [] then
    throw "job name is required"
  else
    let job := newJob id now deviceId name sourceConfig destConfig
    modify (withJob id job)
    return job

/-- The command that starts a job on its device. -/
def triggerCommand (cmdId : Uuid) (createdAt : DateTime) (jobId deviceId : Uuid) :
    Command V where
  id := cmdId
  deviceId := deviceId
  type := .triggerBackup
  payload := HashMap.collect [("job_id", .text (uuidText jobId))]
  createdAt := createdAt

/-- The clock is read for the command and for the job. -/
def triggerJob (cmdId : Uuid) (createdAt startedAt : DateTime) (jobId : Uuid) :
    EStateM String (Coordinator V) (Command V) := do
  let c ← get
  match c.jobs.lookup jobId with
  | none => throw "job not found"
  | some job =>
      if job.status = .pending then
        let cmd := triggerCommand cmdId createdAt jobId job.deviceId
        modify (withCommand cmd)
        modify (withJob jobId
          { job with status := .running, startedAt := some startedAt })
        return cmd
      else
        throw ("job is not pending (current: " ++ job.status.text ++ ")")

/-- The job as a result leaves it. -/
def recorded (job : Job V) (result : TaskResult) : Job V :=
  { job with
    status := result.status
    completedAt := some result.completedAt
    errorMsg := result.errorMsg }

def recordResult (result : TaskResult) :
    EStateM String (Coordinator V) Unit := do
  let c ← get
  match c.jobs.lookup result.jobId with
  | none => throw "job not found"
  | some job =>
      modify (withJob result.jobId (recorded job result))
      modify (withResult result)

/-- The commands of a device; it has none afterwards. -/
def getPendingCommands (deviceId : Uuid) :
    EStateM String (Coordinator V) (List (Command V)) := do
  let c ← get
  modify (withoutCommands deviceId)
  return c.commandsOf deviceId

/-- The command that gives a policy to a device. -/
def policyCommand (cmdId : Uuid) (createdAt : DateTime) (deviceId policyId : Uuid)
    (policyPayload : Config V) : Command V where
  id := cmdId
  deviceId := deviceId
  type := .policyUpdate
  payload := HashMap.collect [
    ("policy_id", .text (uuidText policyId)),
    ("policy", .config policyPayload)]
  createdAt := createdAt

def distributePolicy (cmdId : Uuid) (createdAt : DateTime)
    (deviceId policyId : Uuid) (policyPayload : Config V) :
    EStateM String (Coordinator V) (Command V) := do
  let cmd := policyCommand cmdId createdAt deviceId policyId policyPayload
  modify (withCommand cmd)
  return cmd

def cancelJob (jobId : Uuid) : EStateM String (Coordinator V) Unit := do
  let c ← get
  match c.jobs.lookup jobId with
  | none => throw "job not found"
  | some job =>
      if job.status = .completed ∨ job.status = .failed then
        throw "cannot cancel finished job"
      else
        modify (withJob jobId { job with status := .cancelled })

/-- The calls on a coordinator, with what they draw. -/
inductive Call (V : Type)
  | createJob (id : Uuid) (now : DateTime) (deviceId : Uuid) (name : GoString)
      (sourceConfig destConfig : Config V)
  | triggerJob (cmdId : Uuid) (createdAt startedAt : DateTime) (jobId : Uuid)
  | recordResult (result : TaskResult)
  | cancelJob (jobId : Uuid)
  | getPendingCommands (deviceId : Uuid)
  | distributePolicy (cmdId : Uuid) (createdAt : DateTime)
      (deviceId policyId : Uuid) (policyPayload : Config V)

namespace Call

/-- A call; the commands that it puts into a queue. -/
def perform : Call V → EStateM String (Coordinator V) (List (Command V))
  | .createJob id now deviceId name sourceConfig destConfig => do
      let _ ← Coordinator.createJob id now deviceId name sourceConfig destConfig
      return []
  | .triggerJob cmdId createdAt startedAt jobId => do
      let cmd ← Coordinator.triggerJob cmdId createdAt startedAt jobId
      return [cmd]
  | .recordResult result => do
      Coordinator.recordResult result
      return []
  | .cancelJob jobId => do
      Coordinator.cancelJob jobId
      return []
  | .getPendingCommands deviceId => do
      let _ ← Coordinator.getPendingCommands deviceId
      return []
  | .distributePolicy cmdId createdAt deviceId policyId policyPayload => do
      let cmd ← Coordinator.distributePolicy cmdId createdAt deviceId policyId
        policyPayload
      return [cmd]

/-- The identifier drawn for a new job. -/
def drawnId : Call V → Option Uuid
  | .createJob id _ _ _ _ _ => some id
  | .triggerJob _ _ _ _ => none
  | .recordResult _ => none
  | .cancelJob _ => none
  | .getPendingCommands _ => none
  | .distributePolicy _ _ _ _ _ => none

end Call

def step (c : Coordinator V) (call : Call V) : Coordinator V :=
  stateAfter call.perform c

def run (calls : List (Call V)) : Coordinator V :=
  calls.foldl step new

/-- The commands that a call puts into a queue; none if it fails. -/
def queuedBy (c : Coordinator V) (call : Call V) : List (Command V) :=
  match outcome call.perform c with
  | .ok cmds => cmds
  | .error _ => []

/-- The commands that are ever put into a queue. -/
def queued : Coordinator V → List (Call V) → List (Command V)
  | _, [] => []
  | c, call :: calls => queuedBy c call ++ queued (step c call) calls

/-- The command starts a backup for the job. -/
def isBackupOf (jobId : Uuid) (cmd : Command V) : Bool :=
  cmd.type = .triggerBackup &&
    match cmd.payload.lookup "job_id" with
    | some (.text text) => text = uuidText jobId
    | _ => false

/-- A job in this status does not change any more. -/
def Terminal (s : JobStatus) : Prop :=
  s = .completed ∨ s = .failed ∨ s = .cancelled

/-- The status stays or moves on. -/
def Moves (s s' : JobStatus) : Prop :=
  s' = s ∨ (s = .pending ∧ (s' = .running ∨ s' = .cancelled)) ∨
    s = .running ∧ (s' = .completed ∨ s' = .failed ∨ s' = .cancelled)

/-- What a call may do to the jobs. -/
structure LawfulStep (c : Coordinator V) (call : Call V) : Prop where
  moves : ∀ id job, c.jobs.lookup id = some job →
    ∃ job', (step c call).jobs.lookup id = some job' ∧
      Moves job.status job'.status ∧ (Terminal job.status → job' = job)
  starts : ∀ id job, c.jobs.lookup id = none →
    (step c call).jobs.lookup id = some job → job.status = .pending

/-- What calls may do to the jobs and to the queues. -/
structure Lawful (calls : List (Call V)) : Prop where
  steps : ∀ before call later, calls = before ++ call :: later →
    LawfulStep (run before) call
  once : ∀ id, (queued new calls).countP (isBackupOf id) ≤ 1

/-- The result is one that the job may get in its status. -/
def Fits (job : Job V) (result : TaskResult) : Prop :=
  match job.status with
  | .pending =>
      result.status = .pending ∨ result.status = .running ∨
        result.status = .cancelled
  | .running => result.status = .running ∨ Terminal result.status
  | status =>
      result.status = status ∧ job.completedAt = some result.completedAt ∧
        result.errorMsg = job.errorMsg

/-- A recorded result fits the job it is for. -/
def StepFits (c : Coordinator V) (call : Call V) : Prop :=
  ∀ result job, call = .recordResult result →
    c.jobs.lookup result.jobId = some job → Fits job result

section Effects

/-- What a call can do. -/
inductive Effect (c : Coordinator V) (call : Call V) : Prop
  | refused :
      step c call = c → queuedBy c call = [] →
      (∀ result, call = .recordResult result →
        c.jobs.lookup result.jobId = none) →
      Effect c call
  | created (id : Uuid) (job : Job V) :
      call.drawnId = some id → job.status = .pending →
      step c call = withJob id job c → queuedBy c call = [] →
      (∀ result, call ≠ .recordResult result) → Effect c call
  | triggered (cmdId : Uuid) (createdAt startedAt : DateTime) (id : Uuid)
      (job : Job V) :
      c.jobs.lookup id = some job → job.status = .pending →
      step c call =
        withJob id { job with status := .running, startedAt := some startedAt }
          (withCommand (triggerCommand cmdId createdAt id job.deviceId) c) →
      queuedBy c call = [triggerCommand cmdId createdAt id job.deviceId] →
      (∀ result, call ≠ .recordResult result) → Effect c call
  | recorded (result : TaskResult) (job : Job V) :
      call = .recordResult result → c.jobs.lookup result.jobId = some job →
      step c call = withResult result
        (withJob result.jobId (Coordinator.recorded job result) c) →
      queuedBy c call = [] → Effect c call
  | cancelled (id : Uuid) (job : Job V) :
      c.jobs.lookup id = some job → job.status ≠ .completed →
      job.status ≠ .failed →
      step c call = withJob id { job with status := .cancelled } c →
      queuedBy c call = [] →
      (∀ result, call ≠ .recordResult result) → Effect c call
  | taken (deviceId : Uuid) :
      call = .getPendingCommands deviceId →
      step c call = withoutCommands deviceId c → queuedBy c call = [] →
      Effect c call
  | distributed (cmd : Command V) :
      cmd.type ≠ .triggerBackup → step c call = withCommand cmd c →
      queuedBy c call = [cmd] → (∀ result, call ≠ .recordResult result) →
      Effect c call

variable {c c' : Coordinator V} {call : Call V} {cmds : List (Command V)}

theorem step_of_run (h : call.perform.run c = .ok cmds c') :
    step c call = c' ∧ queuedBy c call = cmds := by
  obtain ⟨houtcome, hstep⟩ := run_eq_ok_iff.mp h
  exact ⟨hstep, by rw [queuedBy, houtcome]⟩

theorem step_of_error {e : String} (h : call.perform.run c = .error e c) :
    step c call = c ∧ queuedBy c call = [] := by
  constructor
  · simp [step, stateAfter, h]
  · simp [queuedBy, outcome, h]

theorem effect_of_error {e : String} (h : call.perform.run c = .error e c)
    (hresult : ∀ result, call = .recordResult result →
      c.jobs.lookup result.jobId = none) :
    Effect c call := by
  obtain ⟨hstep, hqueued⟩ := step_of_error h
  exact Effect.refused hstep hqueued hresult

theorem effect_createJob (id : Uuid) (now : DateTime) (deviceId : Uuid)
    (name : GoString) (sourceConfig destConfig : Config V) :
    Effect c (.createJob id now deviceId name sourceConfig destConfig) := by
  by_cases hname : name = []
  · refine effect_of_error (e := "job name is required") ?_
      (fun result h => by cases h)
    simp only [Call.perform, createJob, hname, if_true]
    rfl
  · have hrun : (Call.perform (.createJob id now deviceId name sourceConfig
        destConfig)).run c = .ok [] (withJob id
          (newJob id now deviceId name sourceConfig destConfig) c) := by
      simp only [Call.perform, createJob, hname, if_false]
      rfl
    obtain ⟨hstep, hqueued⟩ := step_of_run hrun
    exact Effect.created id _ rfl rfl hstep hqueued
      (fun result h => by cases h)

theorem effect_triggerJob (cmdId : Uuid) (createdAt startedAt : DateTime)
    (jobId : Uuid) :
    Effect c (.triggerJob cmdId createdAt startedAt jobId) := by
  cases hjob : c.jobs.lookup jobId with
  | none =>
      refine effect_of_error (e := "job not found") ?_
        (fun result h => by cases h)
      simp only [Call.perform, triggerJob, EStateM.run_bind, EStateM.run_get,
        hjob]
      rfl
  | some job =>
      by_cases hstatus : job.status = .pending
      · have hrun : (Call.perform (.triggerJob cmdId createdAt startedAt
            jobId)).run c =
            .ok [triggerCommand cmdId createdAt jobId job.deviceId]
              (withJob jobId
                { job with status := .running, startedAt := some startedAt }
                (withCommand
                  (triggerCommand cmdId createdAt jobId job.deviceId) c)) := by
          simp only [Call.perform, triggerJob, EStateM.run_bind,
            EStateM.run_get, hjob, hstatus, if_true]
          rfl
        obtain ⟨hstep, hqueued⟩ := step_of_run hrun
        exact Effect.triggered cmdId createdAt startedAt jobId job hjob hstatus
          hstep hqueued (fun result h => by cases h)
      · refine effect_of_error
          (e := "job is not pending (current: " ++ job.status.text ++ ")") ?_
          (fun result h => by cases h)
        simp only [Call.perform, triggerJob, EStateM.run_bind,
          EStateM.run_get, hjob, hstatus, if_false]
        rfl

theorem effect_recordResult (result : TaskResult) :
    Effect c (.recordResult result) := by
  cases hjob : c.jobs.lookup result.jobId with
  | none =>
      refine effect_of_error (e := "job not found") ?_ ?_
      · simp only [Call.perform, recordResult, EStateM.run_bind,
          EStateM.run_get, hjob]
        rfl
      · intro r h
        cases h
        exact hjob
  | some job =>
      have hrun : (Call.perform (.recordResult result)).run c =
          .ok [] (withResult result
            (withJob result.jobId (Coordinator.recorded job result) c)) := by
        simp only [Call.perform, recordResult, EStateM.run_bind,
          EStateM.run_get, hjob]
        rfl
      obtain ⟨hstep, hqueued⟩ := step_of_run hrun
      exact Effect.recorded result job rfl hjob hstep hqueued

theorem effect_cancelJob (jobId : Uuid) :
    Effect c (.cancelJob jobId) := by
  cases hjob : c.jobs.lookup jobId with
  | none =>
      refine effect_of_error (e := "job not found") ?_
        (fun result h => by cases h)
      simp only [Call.perform, cancelJob, EStateM.run_bind, EStateM.run_get,
        hjob]
      rfl
  | some job =>
      by_cases hstatus : job.status = .completed ∨ job.status = .failed
      · refine effect_of_error (e := "cannot cancel finished job") ?_
          (fun result h => by cases h)
        simp only [Call.perform, cancelJob, EStateM.run_bind, EStateM.run_get,
          hjob, hstatus, if_true]
        rfl
      · have hrun : (Call.perform (.cancelJob jobId)).run c =
            .ok [] (withJob jobId { job with status := .cancelled } c) := by
          simp only [Call.perform, cancelJob, EStateM.run_bind,
            EStateM.run_get, hjob, hstatus, if_false]
          rfl
        obtain ⟨hstep, hqueued⟩ := step_of_run hrun
        rw [not_or] at hstatus
        exact Effect.cancelled jobId job hjob hstatus.1 hstatus.2
          hstep hqueued (fun result h => by cases h)

theorem effect (c : Coordinator V) (call : Call V) : Effect c call := by
  cases call with
  | createJob id now deviceId name sourceConfig destConfig =>
      exact effect_createJob id now deviceId name sourceConfig destConfig
  | triggerJob cmdId createdAt startedAt jobId =>
      exact effect_triggerJob cmdId createdAt startedAt jobId
  | recordResult result =>
      exact effect_recordResult result
  | cancelJob jobId =>
      exact effect_cancelJob jobId
  | getPendingCommands deviceId =>
      have hrun : (Call.perform (.getPendingCommands deviceId)).run c =
          .ok [] (withoutCommands deviceId c) :=
        rfl
      obtain ⟨hstep, hqueued⟩ := step_of_run hrun
      exact Effect.taken deviceId rfl hstep hqueued
  | distributePolicy cmdId createdAt deviceId policyId policyPayload =>
      have hrun : (Call.perform (.distributePolicy cmdId createdAt deviceId
          policyId policyPayload)).run c =
          .ok [policyCommand cmdId createdAt deviceId policyId policyPayload]
            (withCommand (policyCommand cmdId createdAt deviceId policyId
              policyPayload) c) :=
        rfl
      obtain ⟨hstep, hqueued⟩ := step_of_run hrun
      exact Effect.distributed _ CommandType.noConfusion hstep hqueued
        (fun result h => by cases h)

theorem commandsOf_withCommand (cmd : Command V) (deviceId : Uuid) :
    (withCommand cmd c).commandsOf deviceId =
      c.commandsOf deviceId ++ [cmd].filter (fun cmd => cmd.deviceId = deviceId) := by
  by_cases hid : deviceId = cmd.deviceId
  · subst hid
    simp [commandsOf, withCommand]
  · have hne : ¬ cmd.deviceId = deviceId := fun h => hid h.symm
    simp [commandsOf, withCommand, hid, hne]

/-- A call appends what it queues to the queue of each device, and only taking
the commands of a device empties its queue. -/
theorem commandsOf_step (c : Coordinator V) (call : Call V) (deviceId : Uuid) :
    (step c call).commandsOf deviceId =
        c.commandsOf deviceId ++
          (queuedBy c call).filter (fun cmd => cmd.deviceId = deviceId) ∨
      call = .getPendingCommands deviceId ∧
        (step c call).commandsOf deviceId = [] := by
  have hkept : (step c call).commands = c.commands → queuedBy c call = [] →
      (step c call).commandsOf deviceId = c.commandsOf deviceId ++
        (queuedBy c call).filter (fun cmd => cmd.deviceId = deviceId) := by
    intro hcommands hqueued
    rw [commandsOf, hcommands, hqueued]
    simp [commandsOf]
  cases effect c call with
  | refused hstep hqueued _ =>
      exact Or.inl (hkept (by rw [hstep]) hqueued)
  | created _ _ _ _ hstep hqueued _ =>
      exact Or.inl (hkept (by rw [hstep]; rfl) hqueued)
  | triggered _ _ _ _ _ _ _ hstep hqueued _ =>
      rw [hstep, hqueued]
      exact Or.inl (commandsOf_withCommand _ deviceId)
  | recorded _ _ _ _ hstep hqueued =>
      exact Or.inl (hkept (by rw [hstep]; rfl) hqueued)
  | cancelled _ _ _ _ _ hstep hqueued _ =>
      exact Or.inl (hkept (by rw [hstep]; rfl) hqueued)
  | taken k hcall hstep hqueued =>
      by_cases hid : deviceId = k
      · subst hid
        refine Or.inr ⟨hcall, ?_⟩
        rw [hstep]
        simp [commandsOf, withoutCommands]
      · refine Or.inl ?_
        rw [hstep, hqueued]
        simp [commandsOf, withoutCommands, hid]
  | distributed cmd _ hstep hqueued _ =>
      rw [hstep, hqueued]
      exact Or.inl (commandsOf_withCommand cmd deviceId)

end Effects

section Laws

variable {c : Coordinator V} {call : Call V}

/-- A job that is there gets another value. -/
theorem lawfulStep_of_insert {id : Uuid} {job job' : Job V}
    (hold : c.jobs.lookup id = some job)
    (hjobs : (step c call).jobs = c.jobs.insert id job') :
    LawfulStep c call ↔
      Moves job.status job'.status ∧ (Terminal job.status → job' = job) := by
  constructor
  · intro h
    obtain ⟨new, hnew, hmoves⟩ := h.moves id job hold
    rw [hjobs, AList.lookup_insert] at hnew
    rw [Option.some.inj hnew]
    exact hmoves
  · intro h
    constructor
    · intro k old hk
      by_cases hid : k = id
      · subst hid
        obtain rfl := Option.some.inj (hold.symm.trans hk)
        exact ⟨job', by rw [hjobs, AList.lookup_insert], h⟩
      · refine ⟨old, ?_, Or.inl rfl, fun _ => rfl⟩
        rw [hjobs, AList.lookup_insert_ne hid, hk]
    · intro k new hnone hnew
      by_cases hid : k = id
      · subst hid
        rw [hold] at hnone
        cases hnone
      · rw [hjobs, AList.lookup_insert_ne hid, hnone] at hnew
        cases hnew

theorem lawfulStep_of_jobs_eq (hjobs : (step c call).jobs = c.jobs) :
    LawfulStep c call := by
  constructor
  · intro id job hjob
    exact ⟨job, by rw [hjobs, hjob], Or.inl rfl, fun _ => rfl⟩
  · intro id job hnone hjob
    rw [hjobs, hnone] at hjob
    cases hjob

/-- A new job does not take the place of another. -/
def Fresh (c : Coordinator V) (call : Call V) : Prop :=
  ∀ id, call.drawnId = some id → c.jobs.lookup id = none

/-- No job has a status without a name. -/
def Named (c : Coordinator V) : Prop :=
  ∀ id job, c.jobs.lookup id = some job → ∀ text h, job.status ≠ .other text h

theorem recorded_eq_iff {job : Job V} {result : TaskResult} :
    recorded job result = job ↔
      result.status = job.status ∧ job.completedAt = some result.completedAt ∧
        result.errorMsg = job.errorMsg := by
  cases job
  simp [recorded, eq_comm]

/-- A result fits a job in a named status if recording it is lawful. -/
theorem fits_iff {job : Job V} {result : TaskResult}
    (hnamed : ∀ text h, job.status ≠ .other text h) :
    Fits job result ↔ Moves job.status result.status ∧
      (Terminal job.status → recorded job result = job) := by
  rw [recorded_eq_iff]
  cases hstatus : job.status with
  | pending =>
      simp [Fits, Moves, Terminal, hstatus]
  | running =>
      simp [Fits, Moves, Terminal, hstatus]
  | completed =>
      simp +contextual [Fits, Moves, Terminal, hstatus]
  | failed =>
      simp +contextual [Fits, Moves, Terminal, hstatus]
  | cancelled =>
      simp +contextual [Fits, Moves, Terminal, hstatus]
  | other text h =>
      exact absurd hstatus (hnamed text h)

/-- A job that can be cancelled may become cancelled. -/
theorem lawful_cancelled {job : Job V} (hcompleted : job.status ≠ .completed)
    (hfailed : job.status ≠ .failed)
    (hnamed : ∀ text h, job.status ≠ .other text h) :
    Moves job.status .cancelled ∧
      (Terminal job.status → { job with status := .cancelled } = job) := by
  cases hstatus : job.status with
  | pending =>
      simp [Moves, Terminal]
  | running =>
      simp [Moves, Terminal]
  | completed =>
      exact absurd hstatus hcompleted
  | failed =>
      exact absurd hstatus hfailed
  | cancelled =>
      refine ⟨Or.inl rfl, fun _ => ?_⟩
      rw [← hstatus]
  | other text h =>
      exact absurd hstatus (hnamed text h)

/-- Where no result is recorded for a job, every result fits. -/
theorem stepFits_of_ne (h : ∀ result, call ≠ .recordResult result) :
    StepFits c call :=
  fun result _ hcall _ => absurd hcall (h result)

theorem lawfulStep_iff_stepFits (hfresh : Fresh c call) (hnamed : Named c) :
    LawfulStep c call ↔ StepFits c call := by
  cases effect c call with
  | refused hstep _ hresult =>
      refine iff_of_true (lawfulStep_of_jobs_eq (by rw [hstep])) ?_
      intro result job hcall hjob
      rw [hresult result hcall] at hjob
      cases hjob
  | created id job hid hpending hstep _ hresult =>
      have hjobs : (step c call).jobs = c.jobs.insert id job := by
        rw [hstep]
        rfl
      refine iff_of_true ?_ (stepFits_of_ne hresult)
      constructor
      · intro k old hold
        have hne : k ≠ id := by
          rintro rfl
          rw [hfresh k hid] at hold
          cases hold
        exact ⟨old, by rw [hjobs, AList.lookup_insert_ne hne, hold], Or.inl rfl,
          fun _ => rfl⟩
      · intro k new hnone hnew
        rw [hjobs] at hnew
        by_cases hne : k = id
        · subst hne
          rw [AList.lookup_insert] at hnew
          rw [← Option.some.inj hnew, hpending]
        · rw [AList.lookup_insert_ne hne, hnone] at hnew
          cases hnew
  | triggered cmdId createdAt startedAt id job hold hpending hstep _ hresult =>
      refine iff_of_true ?_ (stepFits_of_ne hresult)
      rw [lawfulStep_of_insert hold (congrArg Coordinator.jobs hstep), hpending]
      simp [Moves, Terminal]
  | recorded result job hcall hold hstep _ =>
      rw [lawfulStep_of_insert hold (congrArg Coordinator.jobs hstep)]
      have hfits : StepFits c call ↔ Fits job result := by
        constructor
        · exact fun h => h result job hcall hold
        · intro h r old hr hlookup
          obtain rfl := Call.recordResult.inj (hcall.symm.trans hr)
          obtain rfl := Option.some.inj (hold.symm.trans hlookup)
          exact h
      rw [hfits, fits_iff (hnamed _ job hold)]
      rfl
  | cancelled id job hold hcompleted hfailed hstep _ hresult =>
      refine iff_of_true ?_ (stepFits_of_ne hresult)
      rw [lawfulStep_of_insert hold (congrArg Coordinator.jobs hstep)]
      exact lawful_cancelled hcompleted hfailed (hnamed id job hold)
  | taken deviceId hcall hstep _ =>
      refine iff_of_true (lawfulStep_of_jobs_eq (by rw [hstep]; rfl)) ?_
      exact stepFits_of_ne fun result hresult => by
        rw [hcall] at hresult
        cases hresult
  | distributed cmd _ hstep _ hresult =>
      exact iff_of_true (lawfulStep_of_jobs_eq (by rw [hstep]; rfl))
        (stepFits_of_ne hresult)

/-- Lawful moves do not lead away from the named statuses. -/
theorem named_step (hnamed : Named c) (h : LawfulStep c call) :
    Named (step c call) := by
  intro id job hjob text htext hother
  cases hold : c.jobs.lookup id with
  | none =>
      have hpending := h.starts id job hold hjob
      rw [hother] at hpending
      cases hpending
  | some old =>
      obtain ⟨job', hjob', hmoves, -⟩ := h.moves id old hold
      obtain rfl := Option.some.inj (hjob.symm.trans hjob')
      rcases hmoves with hsame | ⟨-, hmove⟩ | ⟨-, hmove⟩
      · exact hnamed id old hold text htext (hsame.symm.trans hother)
      · simp [hother] at hmove
      · simp [hother] at hmove

/-- A job that is there was there before, or is the one just created. -/
theorem lookup_of_step {id : Uuid} (h : (step c call).jobs.lookup id ≠ none) :
    c.jobs.lookup id ≠ none ∨ call.drawnId = some id := by
  have hinsert : ∀ k job, (step c call).jobs = c.jobs.insert k job →
      c.jobs.lookup id ≠ none ∨ id = k := by
    intro k job hjobs
    by_cases hid : id = k
    · exact Or.inr hid
    · rw [hjobs, AList.lookup_insert_ne hid] at h
      exact Or.inl h
  have hold : ∀ k old job, c.jobs.lookup k = some old →
      (step c call).jobs = c.jobs.insert k job → c.jobs.lookup id ≠ none := by
    intro k old job hk hjobs
    rcases hinsert k job hjobs with hid | rfl
    · exact hid
    · rw [hk]
      exact Option.some_ne_none old
  cases effect c call with
  | refused hstep _ _ =>
      rw [hstep] at h
      exact Or.inl h
  | created k job hk _ hstep _ _ =>
      rcases hinsert k job (congrArg Coordinator.jobs hstep) with hid | rfl
      · exact Or.inl hid
      · exact Or.inr hk
  | triggered _ _ _ k job hk _ hstep _ _ =>
      exact Or.inl (hold k job _ hk (congrArg Coordinator.jobs hstep))
  | recorded result job _ hk hstep _ =>
      exact Or.inl (hold _ job _ hk (congrArg Coordinator.jobs hstep))
  | cancelled k job hk _ _ hstep _ _ =>
      exact Or.inl (hold k job _ hk (congrArg Coordinator.jobs hstep))
  | taken _ _ hstep _ =>
      rw [hstep] at h
      exact Or.inl h
  | distributed _ _ hstep _ _ =>
      rw [hstep] at h
      exact Or.inl h

/-- Identifiers that are drawn once are new. -/
theorem always_fresh (calls : List (Call V)) :
    ∀ c : Coordinator V, (calls.filterMap Call.drawnId).Nodup →
      (∀ id ∈ calls.filterMap Call.drawnId, c.jobs.lookup id = none) →
      Always step Fresh c calls := by
  induction calls with
  | nil =>
      intro c _ _
      trivial
  | cons call calls ih =>
      intro c hnodup hnew
      have hrest : ∀ id ∈ calls.filterMap Call.drawnId,
          c.jobs.lookup id = none ∧ call.drawnId ≠ some id := by
        intro id hid
        cases hcall : call.drawnId with
        | none =>
            rw [List.filterMap_cons_none hcall] at hnew
            exact ⟨hnew id hid, nofun⟩
        | some k =>
            rw [List.filterMap_cons_some hcall] at hnew hnodup
            refine ⟨hnew id (List.mem_cons_of_mem _ hid), fun heq => ?_⟩
            obtain rfl := Option.some.inj heq
            exact (List.nodup_cons.mp hnodup).1 hid
      refine ⟨?_, ih (step c call) ?_ ?_⟩
      · intro id hid
        exact hnew id (List.mem_filterMap.mpr ⟨call, List.mem_cons_self, hid⟩)
      · exact hnodup.sublist ((List.sublist_cons_self call calls).filterMap _)
      · intro id hid
        by_contra hsome
        rcases lookup_of_step hsome with hold | hdrawn
        · exact hold (hrest id hid).1
        · exact (hrest id hid).2 hdrawn

/-- The job has been started. -/
def Started (c : Coordinator V) (id : Uuid) : Prop :=
  ∃ job, c.jobs.lookup id = some job ∧ job.status ≠ .pending

theorem started_step {id : Uuid} (h : LawfulStep c call) (hstarted : Started c id) :
    Started (step c call) id := by
  obtain ⟨job, hjob, hstatus⟩ := hstarted
  obtain ⟨job', hjob', hmoves, -⟩ := h.moves id job hjob
  refine ⟨job', hjob', ?_⟩
  rcases hmoves with hsame | ⟨hpending, -⟩ | ⟨-, hmove⟩
  · rwa [hsame]
  · exact absurd hpending hstatus
  · intro hpending
    simp [hpending] at hmove

theorem isBackupOf_triggerCommand (cmdId : Uuid) (createdAt : DateTime)
    (id jobId deviceId : Uuid) :
    isBackupOf (V := V) id (triggerCommand cmdId createdAt jobId deviceId) =
      decide (jobId = id) := by
  have hpayload : (triggerCommand (V := V) cmdId createdAt jobId deviceId).payload.lookup
      "job_id" = some (.text (uuidText jobId)) :=
    rfl
  simp only [isBackupOf, hpayload, uuidText_injective.eq_iff]
  simp [triggerCommand]

/-- A backup is queued for a job that was not started and is then. -/
theorem countP_queuedBy (c : Coordinator V) (call : Call V) (id : Uuid) :
    (queuedBy c call).countP (isBackupOf id) = 0 ∨
      (queuedBy c call).countP (isBackupOf id) = 1 ∧ ¬ Started c id ∧
        Started (step c call) id := by
  have hnil : queuedBy c call = [] →
      (queuedBy c call).countP (isBackupOf id) = 0 := by
    intro h
    rw [h]
    rfl
  cases effect c call with
  | refused _ hqueued _ =>
      exact Or.inl (hnil hqueued)
  | created _ _ _ _ _ hqueued _ =>
      exact Or.inl (hnil hqueued)
  | triggered cmdId createdAt startedAt k job hk hpending hstep hqueued _ =>
      by_cases hid : k = id
      · subst hid
        refine Or.inr ⟨?_, ?_, ?_⟩
        · rw [hqueued, List.countP_singleton, isBackupOf_triggerCommand]
          simp
        · rintro ⟨old, hold, hstatus⟩
          obtain rfl := Option.some.inj (hk.symm.trans hold)
          exact hstatus hpending
        · rw [hstep]
          exact ⟨_, AList.lookup_insert _, JobStatus.noConfusion⟩
      · refine Or.inl ?_
        rw [hqueued, List.countP_singleton, isBackupOf_triggerCommand]
        simp [hid]
  | recorded _ _ _ _ _ hqueued =>
      exact Or.inl (hnil hqueued)
  | cancelled _ _ _ _ _ _ hqueued _ =>
      exact Or.inl (hnil hqueued)
  | taken _ _ _ hqueued =>
      exact Or.inl (hnil hqueued)
  | distributed cmd htype _ hqueued _ =>
      refine Or.inl ?_
      rw [hqueued, List.countP_singleton]
      simp [isBackupOf, htype]

/-- Along lawful steps a backup is queued once, for a job not yet started. -/
theorem countP_queued {id : Uuid} {calls : List (Call V)} :
    ∀ c : Coordinator V, Always step LawfulStep c calls →
      (queued c calls).countP (isBackupOf id) ≤ 1 ∧
        (Started c id → (queued c calls).countP (isBackupOf id) = 0) := by
  induction calls with
  | nil =>
      intro c _
      exact ⟨Nat.zero_le 1, fun _ => rfl⟩
  | cons call calls ih =>
      rintro c ⟨hcall, hcalls⟩
      obtain ⟨hle, hzero⟩ := ih (step c call) hcalls
      simp only [queued, List.countP_append]
      rcases countP_queuedBy c call id with hnone | ⟨hone, hbefore, hafter⟩
      · rw [hnone, Nat.zero_add]
        exact ⟨hle, fun hstarted => hzero (started_step hcall hstarted)⟩
      · rw [hone, hzero hafter]
        exact ⟨Nat.le_refl 1, fun hstarted => absurd hstarted hbefore⟩

/-- The law of the job holds along a run exactly if every recorded result fits
the job, if the identifiers drawn for new jobs are distinct. -/
theorem lawful_iff_fits (calls : List (Call V))
    (hids : (calls.filterMap Call.drawnId).Nodup) :
    Lawful calls ↔
      ∀ before result later job,
        calls = before ++ Call.recordResult result :: later →
        (run before).jobs.lookup result.jobId = some job → Fits job result := by
  have hfresh : Always step Fresh (new : Coordinator V) calls :=
    always_fresh calls new hids fun _ _ => rfl
  have hcongr : Always step LawfulStep (new : Coordinator V) calls ↔
      Always step StepFits new calls := by
    have hboth : Always step (fun c call => Fresh c call ∧ LawfulStep c call)
          (new : Coordinator V) calls ↔
        Always step (fun c call => Fresh c call ∧ StepFits c call) new calls := by
      refine always_congr (I := Named) ?_ ?_ ?_
      · exact fun c call hnamed =>
          and_congr_right fun hfresh => lawfulStep_iff_stepFits hfresh hnamed
      · exact fun c call hnamed h => named_step hnamed h.2
      · intro id job hjob
        cases hjob
    rw [always_and, always_and] at hboth
    exact (and_iff_right hfresh).symm.trans (hboth.trans (and_iff_right hfresh))
  have hsteps : Lawful calls ↔ Always step LawfulStep (new : Coordinator V) calls := by
    constructor
    · exact fun h => always_iff_split.mpr h.steps
    · exact fun h => ⟨always_iff_split.mp h, fun id => (countP_queued new h).1⟩
  rw [hsteps, hcongr, always_iff_split]
  constructor
  · intro h before result later job heq hjob
    exact h before _ later heq result job rfl hjob
  · rintro h before call later heq result job rfl hjob
    exact h before result later job heq hjob

/-- The result of a backup of one file. -/
def oneFile : TaskResult where
  jobId := 1
  deviceId := 7
  status := .completed
  bytesProcessed := 1024
  bytesStored := 512
  fileCount := 1
  chunkCount := 1
  dedupRatio := 0
  versionId := none
  errorMsg := []
  completedAt := 3

/-- A job that runs to its end. -/
def inTime : List (Call Nat) := [
  .createJob 1 0 7 [106] none none,
  .triggerJob 2 1 1 1,
  .recordResult oneFile]

/-- A job whose result comes after it was cancelled. -/
def lateResult : List (Call Nat) := [
  .createJob 1 0 7 [106] none none,
  .triggerJob 2 1 1 1,
  .cancelJob 1,
  .recordResult oneFile]

theorem lawful_inTime : Lawful inTime := by
  refine (lawful_iff_fits inTime (by decide)).mpr ?_
  intro before result later job heq hjob
  obtain ⟨rfl, rfl⟩ : before = inTime.take 2 ∧ result = oneFile := by
    rcases before with _ | ⟨a, _ | ⟨b, _ | ⟨c, before⟩⟩⟩
    · cases heq
    · cases heq
    · cases heq
      exact ⟨rfl, rfl⟩
    · simp [inTime] at heq
  have hstatus : ((run (inTime.take 2)).jobs.lookup 1).map Job.status =
      some .running := by
    decide
  have hlookup : (run (inTime.take 2)).jobs.lookup 1 = some job := hjob
  rw [hlookup] at hstatus
  unfold Fits
  rw [Option.some.inj hstatus]
  exact Or.inr (Or.inl rfl)

theorem not_lawful_lateResult : ¬ Lawful lateResult := by
  intro h
  have hbefore : ((run (lateResult.take 3)).jobs.lookup 1).map Job.status =
      some .cancelled := by
    decide
  have hafter : ((step (run (lateResult.take 3))
      (.recordResult oneFile)).jobs.lookup 1).map Job.status = some .completed := by
    decide
  obtain ⟨job, hjob, hstatus⟩ := Option.map_eq_some_iff.mp hbefore
  obtain ⟨job', hjob', -, hterminal⟩ :=
    (h.steps (lateResult.take 3) _ [] rfl).moves 1 job hjob
  rw [hjob', hterminal (by simp [Terminal, hstatus]), Option.map_some, hstatus]
    at hafter
  cases hafter

end Laws

end Coordinator
end Control
end HyperBackup
