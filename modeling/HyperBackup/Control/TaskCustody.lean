import HyperBackup.Control.TaskDispatch
import Mathlib.Data.List.Perm.Basic
import Mathlib.Data.List.Perm.Subperm

/-!
# Where a task is

A task is pending in the table, on its way to its agent, with the agent, executed, or
lost.  The invariant says that the tasks that are marked as dispatched are those that
are in one of the last four places, each in exactly one and each with its agent.  It
holds across every order in which requests and answers arrive or get lost, and over
any number of restarts.
-/

namespace HyperBackup
namespace Control
namespace Dispatch

open Lib Lib.Program Executor Executor.TaskExecutor Network

/-- The row as a task of its agent, if it has one. -/
def PendingTask.consignment (t : PendingTask) : Option Consignment :=
  t.agentId.map fun agentId => { agentId := agentId, spec := t.spec }

/-- The tasks of a status. -/
def Tables.consigned (status : TaskStatus) (c : Tables) : List Consignment :=
  (c.pendingTasks.filter fun t => t.status = status).filterMap PendingTask.consignment

/-- The tasks that a message carries. -/
def Message.carried : Message → List Consignment
  | .heartbeatResponse _ _ agentId commands => consign agentId commands
  | _ => []

/-- The message belongs to the call of a machine for an agent. -/
def Message.ofCall (machine : String) (call : Nat) (agentId : Uuid) : Message → Prop
  | .heartbeatRequest m c a => m = machine ∧ c = call ∧ a = agentId
  | .heartbeatResponse m c a _ => m = machine ∧ c = call ∧ a = agentId
  | .taskResult _ => False

namespace Network

def travelling (n : Network) : List Consignment :=
  n.inFlight.flatMap Message.carried

def held (n : Network) : List Consignment :=
  (HashMap.toList n.agents).flatMap fun p => p.2.held

end Network

/-- A task is in the table once, for an agent, and pending or dispatched. -/
structure TasksKept (c : Tables) : Prop where
  ids : (c.pendingTasks.map PendingTask.taskId).Nodup
  named : ∀ t ∈ c.pendingTasks, t.spec.taskId = uuidText t.taskId
  assigned : ∀ t ∈ c.pendingTasks, t.agentId.isSome
  status : ∀ t ∈ c.pendingTasks, t.status = .pending ∨ t.status = .dispatched

/-- A process that is not registered or waits for tasks has nothing to do. -/
structure ProcessKept (calls : Nat) (p : AgentProcess) : Prop where
  unregistered : p.agentId = none → p.waiting = none ∧ p.commands = []
  waiting : ∀ call, p.waiting = some call → call < calls ∧ p.commands = []

/-- An answer that a process waits for is for its agent. -/
structure CallKept (n : Network) (m : Message) : Prop where
  started : ∀ machine call agentId, m.ofCall machine call agentId → call < n.calls
  asked : ∀ machine call agentId p, m.ofCall machine call agentId →
    n.agents.lookup machine = some p → p.waiting = some call → p.agentId = some agentId

/-- Every task that is dispatched is in exactly one place. -/
structure Custody (n : Network) : Prop where
  tasks : TasksKept n.tables
  processes : ∀ machine p, n.agents.lookup machine = some p → ProcessKept n.calls p
  calls : ∀ m ∈ n.inFlight, CallKept n m
  balance : ∀ x, (n.tables.consigned .dispatched).count x =
    n.travelling.count x + HashMap.total (fun p => p.held.count x) n.agents +
      n.executed.count x + n.lost.count x

section Rows

variable {c : Tables} {chosen : List PendingTask} {now : DateTime}

theorem nodup_pendingTasks (h : TasksKept c) : c.pendingTasks.Nodup :=
  List.Nodup.of_map _ h.ids

/-- The row as it is dispatched. -/
def PendingTask.dispatch (now : DateTime) (t : PendingTask) : PendingTask :=
  { t with status := .dispatched, dispatchedAt := some now }

theorem eq_of_taskId (h : TasksKept c) {t t' : PendingTask} (ht : t ∈ c.pendingTasks)
    (ht' : t' ∈ c.pendingTasks) (hid : t.taskId = t'.taskId) : t = t' :=
  List.inj_on_of_nodup_map h.ids ht ht' hid

theorem taskId_mem_iff (h : TasksKept c) (hsub : ∀ t ∈ chosen, t ∈ c.pendingTasks)
    {t : PendingTask} (ht : t ∈ c.pendingTasks) :
    t.taskId ∈ chosen.map PendingTask.taskId ↔ t ∈ chosen := by
  constructor
  · intro hmem
    obtain ⟨t', ht', hid⟩ := List.mem_map.mp hmem
    rwa [← eq_of_taskId h (hsub t' ht') ht hid]
  · exact fun hmem => List.mem_map_of_mem hmem

/-- The rows that are dispatched, and the others as they are. -/
theorem perm_dispatchTasks (h : TasksKept c) (hnodup : chosen.Nodup)
    (hsub : ∀ t ∈ chosen, t ∈ c.pendingTasks) :
    (c.dispatchTasks (chosen.map PendingTask.taskId) now).pendingTasks.Perm
      (chosen.map (PendingTask.dispatch now) ++
        c.pendingTasks.filter fun t => t ∉ chosen) := by
  have hchosen : (c.pendingTasks.filter fun t => t ∈ chosen).Perm chosen := by
    refine (List.perm_ext_iff_of_nodup ((nodup_pendingTasks h).filter _) hnodup).mpr ?_
    intro t
    rw [List.mem_filter, decide_eq_true_eq]
    exact and_iff_right_of_imp (hsub t)
  have hrest : (c.pendingTasks.filter fun t => t ∉ chosen) =
      c.pendingTasks.filter fun t => !decide (t ∈ chosen) :=
    List.filter_congr fun t _ => decide_not
  have hmap : (c.dispatchTasks (chosen.map PendingTask.taskId) now).pendingTasks =
      c.pendingTasks.map fun t => if t ∈ chosen then t.dispatch now else t := by
    refine List.map_congr_left fun t ht => ?_
    simp only [List.contains_iff_mem, taskId_mem_iff h hsub ht]
    rfl
  have hsplit := ((List.filter_append_perm (fun t => decide (t ∈ chosen))
    c.pendingTasks).symm.map fun t => if t ∈ chosen then t.dispatch now else t)
  rw [hmap, hrest]
  refine hsplit.trans ?_
  rw [List.map_append]
  refine List.Perm.append ?_ (List.Perm.of_eq ?_)
  · refine (hchosen.map _).trans (List.Perm.of_eq ?_)
    exact List.map_congr_left fun t ht => if_pos ht
  · refine (List.map_congr_left fun t ht => ?_).trans (List.map_id _)
    have hnot := (List.mem_filter.mp ht).2
    rw [Bool.not_eq_true', decide_eq_false_iff_not] at hnot
    exact if_neg hnot

theorem consigned_of_perm {l l' : List PendingTask} (h : l.Perm l') (status : TaskStatus) :
    ((l.filter fun t => t.status = status).filterMap PendingTask.consignment).Perm
      ((l'.filter fun t => t.status = status).filterMap PendingTask.consignment) :=
  (h.filter _).filterMap _

/-- Dispatching pending tasks adds them to those that are dispatched. -/
theorem count_dispatchTasks (h : TasksKept c) (hnodup : chosen.Nodup)
    (hsub : ∀ t ∈ chosen, t ∈ c.pendingTasks ∧ t.status = .pending) (x : Consignment) :
    ((c.dispatchTasks (chosen.map PendingTask.taskId) now).consigned .dispatched).count x =
      (c.consigned .dispatched).count x +
        (chosen.filterMap PendingTask.consignment).count x := by
  have hperm := consigned_of_perm
    (@perm_dispatchTasks c chosen now h hnodup fun t ht => (hsub t ht).1) .dispatched
  have hnew : ((chosen.map (PendingTask.dispatch now)).filter fun t =>
      t.status = .dispatched).filterMap PendingTask.consignment =
        chosen.filterMap PendingTask.consignment := by
    rw [List.filter_eq_self.mpr, List.filterMap_map]
    · rfl
    · intro t ht
      obtain ⟨t', -, rfl⟩ := List.mem_map.mp ht
      rfl
  have hold : ((c.pendingTasks.filter fun t => t ∉ chosen).filter fun t =>
      t.status = .dispatched) = c.pendingTasks.filter fun t => t.status = .dispatched := by
    rw [List.filter_filter]
    refine List.filter_congr fun t ht => ?_
    by_cases hmem : t ∈ chosen
    · simp [hmem, (hsub t hmem).2]
    · simp [hmem]
  rw [Tables.consigned, hperm.count_eq, List.filter_append, List.filterMap_append, hnew, hold,
    List.count_append, Nat.add_comm]
  rfl

theorem tasksKept_dispatchTasks (taskIds : List Uuid) (now : DateTime) (h : TasksKept c) :
    TasksKept (c.dispatchTasks taskIds now) := by
  have hrow : ∀ t ∈ (c.dispatchTasks taskIds now).pendingTasks, ∃ old ∈ c.pendingTasks,
      t.taskId = old.taskId ∧ t.agentId = old.agentId ∧ t.spec = old.spec ∧
        (t.status = .dispatched ∨ t.status = old.status) := by
    intro t ht
    obtain ⟨old, hold, rfl⟩ := List.mem_map.mp ht
    refine ⟨old, hold, ?_⟩
    split
    · exact ⟨rfl, rfl, rfl, Or.inl rfl⟩
    · exact ⟨rfl, rfl, rfl, Or.inr rfl⟩
  refine ⟨?_, ?_, ?_, ?_⟩
  · have hids : (c.dispatchTasks taskIds now).pendingTasks.map PendingTask.taskId =
        c.pendingTasks.map PendingTask.taskId := by
      rw [Tables.dispatchTasks, List.map_map]
      refine List.map_congr_left fun t _ => ?_
      simp only [Function.comp_apply]
      split <;> rfl
    rw [hids]
    exact h.ids
  · intro t ht
    obtain ⟨old, hold, hid, -, hspec, -⟩ := hrow t ht
    rw [hspec, hid]
    exact h.named old hold
  · intro t ht
    obtain ⟨old, hold, -, hagent, -, -⟩ := hrow t ht
    rw [hagent]
    exact h.assigned old hold
  · intro t ht
    obtain ⟨old, hold, -, -, -, hstatus | hstatus⟩ := hrow t ht
    · exact Or.inr hstatus
    · rw [hstatus]
      exact h.status old hold

theorem TasksKept.of_eq {c' : Tables} (h : TasksKept c)
    (hrows : c'.pendingTasks = c.pendingTasks) : TasksKept c' where
  ids := by
    rw [hrows]
    exact h.ids
  named := by
    rw [hrows]
    exact h.named
  assigned := by
    rw [hrows]
    exact h.assigned
  status := by
    rw [hrows]
    exact h.status

theorem tasksKept_insertTask {task : PendingTask} (h : TasksKept c)
    (hname : task.spec.taskId = uuidText task.taskId) (hagent : task.agentId.isSome)
    (hpending : task.status = .pending) : TasksKept (c.insertTask task) := by
  unfold Tables.insertTask
  split
  · exact h
  · next hnew =>
      refine ⟨?_, ?_, ?_, ?_⟩
      · rw [List.map_append]
        refine List.nodup_append.mpr ⟨h.ids, List.nodup_singleton _, ?_⟩
        intro id hid id' hid' heq
        rw [List.map_singleton, List.mem_singleton] at hid'
        exact hnew (List.contains_iff_mem.mpr (hid' ▸ heq ▸ hid))
      · intro t ht
        rcases List.mem_append.mp ht with hold | htask
        · exact h.named t hold
        · rw [List.mem_singleton.mp htask]
          exact hname
      · intro t ht
        rcases List.mem_append.mp ht with hold | htask
        · exact h.assigned t hold
        · rw [List.mem_singleton.mp htask]
          exact hagent
      · intro t ht
        rcases List.mem_append.mp ht with hold | htask
        · exact h.status t hold
        · rw [List.mem_singleton.mp htask]
          exact Or.inl hpending

/-- A new task is not dispatched. -/
theorem consigned_insertTask {task : PendingTask} (hpending : task.status = .pending) :
    (c.insertTask task).consigned .dispatched = c.consigned .dispatched := by
  unfold Tables.insertTask
  split
  · rfl
  · have hskip : [task].filter (fun t => t.status = .dispatched) = [] := by
      simp [hpending]
    rw [Tables.consigned, List.filter_append, hskip, List.append_nil]
    rfl

/-- What triggering a job does to the tasks. -/
theorem triggerJob_cases (id : String) (jobUUID : Option Uuid) (taskId : Uuid)
    (order : IterOrder (Uuid × DeviceRow)) (now : DateTime) (c : Tables) :
    c.triggerJob id jobUUID taskId order now = c ∨
      ∃ agentId spec, spec.taskId = uuidText taskId ∧
        c.availableAgent order = some agentId ∧
        c.triggerJob id jobUUID taskId order now = c.insertTask
          { taskId := taskId
            agentId := some agentId
            spec := spec
            status := .pending
            createdAt := now
            dispatchedAt := none } := by
  unfold Tables.triggerJob
  split
  · exact Or.inl rfl
  · next job _ =>
      split
      · exact Or.inl rfl
      · next agentId hagent =>
          exact Or.inr ⟨agentId, Tables.specOf taskId id job.sourceConfig, rfl, hagent, rfl⟩

variable {order : IterOrder PendingTask} {agentId : Uuid}

theorem mem_waitingFor {t : PendingTask} :
    t ∈ c.waitingFor agentId ↔
      t ∈ c.pendingTasks ∧ (t.agentId = some agentId ∨ t.agentId = none) ∧
        t.status = .pending := by
  rw [Tables.waitingFor, List.mem_filter, decide_eq_true_eq]

/-- An agent gets pending tasks of its own. -/
theorem mem_nextTasks (h : TasksKept c) {t : PendingTask}
    (ht : t ∈ c.nextTasks order agentId) :
    t ∈ c.pendingTasks ∧ t.status = .pending ∧ t.agentId = some agentId := by
  obtain ⟨hmem, hagent, hpending⟩ := mem_waitingFor.mp (BatchQueue.mem_of_mem_batch ht)
  refine ⟨hmem, hpending, hagent.resolve_right fun hnone => ?_⟩
  have hsome := h.assigned t hmem
  rw [hnone] at hsome
  cases hsome

theorem nodup_nextTasks (h : TasksKept c) : (c.nextTasks order agentId).Nodup := by
  have hperm := BatchQueue.perm_sorted PendingTask.createdAt order (c.waitingFor agentId)
  have hwaiting : (c.waitingFor agentId).Nodup := (nodup_pendingTasks h).filter _
  exact (hperm.nodup_iff.mpr hwaiting).sublist (List.take_sublist _ _)

theorem consignments_nextTasks (h : TasksKept c) :
    (c.nextTasks order agentId).filterMap PendingTask.consignment =
      consign agentId ((c.nextTasks order agentId).map PendingTask.spec) := by
  have hall : ∀ t ∈ c.nextTasks order agentId,
      t.consignment = some { agentId := agentId, spec := t.spec } := by
    intro t ht
    rw [PendingTask.consignment, (mem_nextTasks h ht).2.2]
    rfl
  rw [List.filterMap_congr hall, consign, List.map_map]
  exact congrFun List.filterMap_eq_map' _

theorem tasksKept_agentHeartbeat (h : TasksKept c) :
    TasksKept (c.agentHeartbeat order agentId now) :=
  tasksKept_dispatchTasks _ now (h.of_eq rfl)

/-- A heartbeat adds the tasks that it is answered with to those that are dispatched. -/
theorem count_agentHeartbeat (h : TasksKept c) (x : Consignment) :
    ((c.agentHeartbeat order agentId now).consigned .dispatched).count x =
      (c.consigned .dispatched).count x +
        (consign agentId ((c.nextTasks order agentId).map PendingTask.spec)).count x := by
  rw [← consignments_nextTasks h]
  exact count_dispatchTasks (h.of_eq rfl) (nodup_nextTasks h)
    (fun t ht => ⟨(mem_nextTasks h ht).1, (mem_nextTasks h ht).2.1⟩) x

end Rows

section Steps

variable {n : Network} {m : Message}

/-- Tables whose tasks are as before. -/
theorem Custody.withTables (h : Custody n) {c : Tables} (htasks : TasksKept c)
    (hsame : c.consigned .dispatched = n.tables.consigned .dispatched) :
    Custody { n with tables := c } where
  tasks := htasks
  processes := h.processes
  calls := fun m hm => ⟨(h.calls m hm).started, (h.calls m hm).asked⟩
  balance := fun x => by
    rw [hsame]
    exact h.balance x

theorem Custody.ofSameRows (h : Custody n) {c : Tables}
    (hrows : c.pendingTasks = n.tables.pendingTasks) : Custody { n with tables := c } := by
  refine h.withTables (h.tasks.of_eq hrows) ?_
  rw [Tables.consigned, hrows]
  rfl

/-- The order of what is on its way does not matter. -/
theorem Custody.perm (h : Custody n) {inFlight : List Message}
    (hperm : inFlight.Perm n.inFlight) : Custody { n with inFlight := inFlight } where
  tasks := h.tasks
  processes := h.processes
  calls := fun m hm =>
    ⟨(h.calls m (hperm.mem_iff.mp hm)).started, (h.calls m (hperm.mem_iff.mp hm)).asked⟩
  balance := fun x => by
    rw [Network.travelling, (hperm.flatMap_right Message.carried).count_eq]
    exact h.balance x

/-- A process that changes, with what it means for the calls and for the tasks. -/
theorem CallKept.withAgent {p : AgentProcess} {machine : String} (h : CallKept n m)
    (hsame : ∀ call agentId, m.ofCall machine call agentId → p.waiting = some call →
      p.agentId = some agentId) : CallKept (n.withAgent machine p) m where
  started := h.started
  asked := by
    intro machine' call agentId p' hcall hlookup hwaiting
    rcases HashMap.lookup_insert_eq_some.mp hlookup with ⟨rfl, rfl⟩ | ⟨-, hold⟩
    · exact hsame call agentId hcall hwaiting
    · exact h.asked machine' call agentId p' hcall hold hwaiting

/-- What a message needs is known from the processes and the number of calls. -/
theorem CallKept.mono {n' : Network} (h : CallKept n m) (hagents : n'.agents = n.agents)
    (hcalls : n.calls ≤ n'.calls) : CallKept n' m where
  started := fun machine call agentId hcall =>
    Nat.lt_of_lt_of_le (h.started machine call agentId hcall) hcalls
  asked := by
    rw [hagents]
    exact h.asked

theorem processes_withAgent {p : AgentProcess} {machine : String} {calls : Nat}
    (h : ∀ machine p, n.agents.lookup machine = some p → ProcessKept calls p)
    (hp : ProcessKept calls p) :
    ∀ machine' p', (n.withAgent machine p).agents.lookup machine' = some p' →
      ProcessKept calls p' := by
  intro machine' p' hlookup
  rcases HashMap.lookup_insert_eq_some.mp hlookup with ⟨rfl, rfl⟩ | ⟨-, hold⟩
  · exact hp
  · exact h machine' p' hold

/-- The tasks that a machine has. -/
def Network.heldBy (machine : String) (n : Network) : List Consignment :=
  (n.agents.lookup machine).elim [] AgentProcess.held

theorem count_heldBy (machine : String) (n : Network) (x : Consignment) :
    (n.agents.lookup machine).elim 0 (fun p => p.held.count x) =
      (n.heldBy machine).count x := by
  unfold Network.heldBy
  cases n.agents.lookup machine <;> rfl

/-- A process in the place of the one that a machine had. -/
theorem total_insert_held (machine : String) (p : AgentProcess) (n : Network)
    (x : Consignment) :
    HashMap.total (fun p => p.held.count x) (n.agents.insert machine p) +
        (n.heldBy machine).count x =
      HashMap.total (fun p => p.held.count x) n.agents + p.held.count x := by
  rw [← count_heldBy]
  exact HashMap.total_insert_add _ _ _ _

theorem heldBy_of_lookup {machine : String} {p : AgentProcess}
    (h : n.agents.lookup machine = some p) : n.heldBy machine = p.held := by
  rw [Network.heldBy, h]
  rfl

theorem processKept_new (calls : Nat) : ProcessKept calls .new where
  unregistered := fun _ => ⟨rfl, rfl⟩
  waiting := fun call h => by cases h

/-- A process that waits for nothing may have tasks. -/
theorem processKept_working (calls : Nat) (agentId : Uuid) (commands : List TaskSpec) :
    ProcessKept calls ⟨some agentId, none, commands⟩ where
  unregistered := fun h => by cases h
  waiting := fun call h => by cases h

theorem custody_start (machine : String) (h : Custody n) : Custody (n.start machine) where
  tasks := h.tasks
  processes := processes_withAgent h.processes (processKept_new n.calls)
  calls := fun m hm => by
    have hkept : CallKept (n.withAgent machine .new) m :=
      (h.calls m hm).withAgent fun call agentId _ hwaiting => by cases hwaiting
    exact hkept.mono rfl (Nat.le_refl _)
  balance := fun x => by
    have hbalance := h.balance x
    have hheld := total_insert_held machine .new n x
    have hnew : AgentProcess.new.held.count x = 0 := rfl
    have hlost : (n.start machine).lost.count x =
        n.lost.count x + (n.heldBy machine).count x :=
      List.count_append
    rw [hlost]
    simp only [Network.start, Network.withAgent, Network.travelling] at *
    omega

/-- A process that keeps its tasks keeps the balance. -/
theorem Custody.withAgent (h : Custody n) {machine : String} {p : AgentProcess}
    (hp : ProcessKept n.calls p) (hheld : p.held = n.heldBy machine)
    (hcalls : ∀ m ∈ n.inFlight, ∀ call agentId, m.ofCall machine call agentId →
      p.waiting = some call → p.agentId = some agentId) :
    Custody (n.withAgent machine p) where
  tasks := h.tasks
  processes := processes_withAgent h.processes hp
  calls := fun m hm => (h.calls m hm).withAgent (hcalls m hm)
  balance := fun x => by
    have hbalance := h.balance x
    have htotal := total_insert_held machine p n x
    rw [hheld] at htotal
    simp only [Network.withAgent, Network.travelling] at *
    omega

theorem rows_insertDevice (deviceId : Uuid) (row : DeviceRow) (c : Tables) :
    (c.insertDevice deviceId row).pendingTasks = c.pendingTasks := by
  unfold Tables.insertDevice
  split <;> rfl

theorem rows_createJob (jobId deviceId : Uuid) (sourceConfig : SourceConfig) (c : Tables) :
    (c.createJob jobId deviceId sourceConfig).pendingTasks = c.pendingTasks := by
  unfold Tables.createJob
  split <;> rfl

theorem custody_triggerJob (id : String) (jobUUID : Option Uuid) (taskId : Uuid)
    (order : IterOrder (Uuid × DeviceRow)) (now : DateTime) (h : Custody n) :
    Custody (n.withTables (Tables.triggerJob id jobUUID taskId order now)) := by
  rw [Network.withTables]
  rcases triggerJob_cases id jobUUID taskId order now n.tables with
    hsame | ⟨agentId, spec, hname, -, htask⟩
  · rw [hsame]
    exact h
  · rw [htask]
    exact h.withTables (tasksKept_insertTask h.tasks hname rfl rfl) (consigned_insertTask rfl)

theorem custody_register (machine : String) (agentId : Uuid) (now : DateTime)
    (answered : Bool) (h : Custody n) : Custody (n.register machine agentId now answered) := by
  have hregistered : Custody (n.withTables (Tables.agentRegister agentId now)) :=
    h.ofSameRows (rows_insertDevice _ _ _)
  unfold Network.register
  split
  · exact h
  · split
    · next waiting commands hlookup =>
        obtain ⟨rfl, rfl⟩ := (h.processes machine _ hlookup).unregistered rfl
        exact hregistered.withAgent (processKept_working _ agentId [])
          (heldBy_of_lookup hlookup).symm fun m _ call agentId' _ hcall => by cases hcall
    · exact hregistered

theorem custody_giveUp (machine : String) (h : Custody n) : Custody (n.giveUp machine) := by
  unfold Network.giveUp
  split
  · next p hlookup =>
      have hunregistered := (h.processes machine p hlookup).unregistered
      refine h.withAgent ⟨fun hnone => ⟨rfl, (hunregistered hnone).2⟩,
        fun call hcall => ?_⟩ ?_ fun m _ call agentId' _ hcall => by cases hcall
      · cases hcall
      · rw [heldBy_of_lookup hlookup]
        rfl
  · exact h

theorem custody_heartbeat (machine : String) (h : Custody n) :
    Custody (n.heartbeat machine) := by
  unfold Network.heartbeat
  split
  · next agentId hlookup =>
      refine ⟨h.tasks, ?_, ?_, fun x => ?_⟩
      · refine processes_withAgent (fun machine' p' hold => ?_)
          ⟨fun hnone => (by cases hnone), fun call hcall => ?_⟩
        · have hkept := h.processes machine' p' hold
          exact ⟨hkept.unregistered, fun call hcall =>
            ⟨Nat.lt_succ_of_lt (hkept.waiting call hcall).1, (hkept.waiting call hcall).2⟩⟩
        · rw [← Option.some.inj hcall]
          exact ⟨Nat.lt_succ_self _, rfl⟩
      · intro m hm
        rcases List.mem_append.mp hm with hold | hnew
        · have hkept := h.calls m hold
          have hagent : CallKept (n.withAgent machine ⟨some agentId, some n.calls, []⟩) m := by
            -- a call that was made before has a smaller number
            refine hkept.withAgent fun call agentId' hcall hwaiting => ?_
            have hlt := hkept.started machine call agentId' hcall
            rw [← Option.some.inj hwaiting] at hlt
            exact absurd hlt (Nat.lt_irrefl _)
          exact hagent.mono rfl (Nat.le_succ _)
        · rw [List.mem_singleton.mp hnew]
          refine ⟨?_, ?_⟩
          · rintro machine' call agentId' ⟨rfl, rfl, rfl⟩
            exact Nat.lt_succ_self _
          · rintro machine' call agentId' p' ⟨rfl, rfl, rfl⟩ hlookup' -
            obtain rfl := Option.some.inj ((AList.lookup_insert _).symm.trans hlookup')
            rfl
      · have hbalance := h.balance x
        have htotal := total_insert_held machine ⟨some agentId, some n.calls, []⟩ n x
        rw [heldBy_of_lookup hlookup] at htotal
        have hwaiting : (AgentProcess.held ⟨some agentId, some n.calls, []⟩).count x = 0 := rfl
        have hidle : (AgentProcess.held ⟨some agentId, none, []⟩).count x = 0 := rfl
        simp only [Network.send, Network.withAgent, Network.travelling, List.flatMap_append,
          List.flatMap_singleton, Message.carried, List.append_nil] at *
        omega
  · exact h

theorem custody_work (machine : String) (setting : Setting) (world : World)
    (h : Custody n) : Custody (n.work machine setting world) := by
  unfold Network.work
  split
  · next agentId waiting spec commands hlookup =>
      have hidle : waiting = none := by
        cases waiting with
        | none => rfl
        | some call =>
            have hempty := ((h.processes machine _ hlookup).waiting call rfl).2
            cases hempty
      subst hidle
      have hworking := processKept_working n.calls agentId commands
      refine ⟨h.tasks, processes_withAgent h.processes hworking, ?_, fun x => ?_⟩
      · intro m hm
        rcases List.mem_append.mp hm with hold | hnew
        · have hagent : CallKept (n.withAgent machine ⟨some agentId, none, commands⟩) m :=
            (h.calls m hold).withAgent fun call agentId' _ hcall => by cases hcall
          exact hagent.mono rfl (Nat.le_refl _)
        · rw [List.mem_singleton.mp hnew]
          exact ⟨fun machine' call agentId' hcall => hcall.elim,
            fun machine' call agentId' p hcall => hcall.elim⟩
      · have hbalance := h.balance x
        have htotal := total_insert_held machine ⟨some agentId, none, commands⟩ n x
        rw [heldBy_of_lookup hlookup] at htotal
        have hheld : (AgentProcess.held ⟨some agentId, none, spec :: commands⟩).count x =
            (AgentProcess.held ⟨some agentId, none, commands⟩).count x +
              [Consignment.mk agentId spec].count x := by
          rw [Nat.add_comm, ← List.count_append]
          rfl
        simp only [Network.send, Network.withAgent, Network.travelling, List.flatMap_append,
          List.flatMap_singleton, Message.carried, List.append_nil, List.count_append] at *
        omega
  · exact h

/-- A message that is on its way next. -/
def Network.carrying (m : Message) (n : Network) : Network :=
  { n with inFlight := m :: n.inFlight }

theorem travelling_carrying (m : Message) (n : Network) (x : Consignment) :
    (n.carrying m).travelling.count x = m.carried.count x + n.travelling.count x :=
  List.count_append

theorem travelling_send (m : Message) (n : Network) (x : Consignment) :
    (n.send m).travelling.count x = n.travelling.count x + m.carried.count x := by
  rw [Network.travelling, Network.send, List.flatMap_append, List.flatMap_singleton,
    List.count_append]
  rfl

/-- A message without tasks may vanish. -/
theorem Custody.dropped (h : Custody (n.carrying m)) (hempty : m.carried = []) :
    Custody n where
  tasks := h.tasks
  processes := h.processes
  calls := fun m' hm' => (h.calls m' (List.mem_cons_of_mem _ hm')).mono rfl (Nat.le_refl _)
  balance := fun x => by
    have hbalance := h.balance x
    rw [travelling_carrying, hempty, List.count_nil, Nat.zero_add] at hbalance
    exact hbalance

theorem custody_lostMessage (h : Custody (n.carrying m)) : Custody (lostMessage m n) := by
  cases m with
  | heartbeatRequest machine call agentId => exact h.dropped rfl
  | taskResult result => exact h.dropped rfl
  | heartbeatResponse machine call agentId commands =>
      refine ⟨h.tasks, h.processes, fun m' hm' =>
        (h.calls m' (List.mem_cons_of_mem _ hm')).mono rfl (Nat.le_refl _), fun x => ?_⟩
      have hbalance := h.balance x
      rw [travelling_carrying] at hbalance
      simp only [lostMessage, List.count_append, Network.carrying, Message.carried,
        Network.travelling] at *
      omega

/-- The tables answer a heartbeat. -/
theorem custody_heartbeatRequest (order : IterOrder PendingTask)
    (returned : IterOrder TaskSpec) (now : DateTime) {machine : String} {call : Nat}
    {agentId : Uuid} (h : Custody (n.carrying (.heartbeatRequest machine call agentId))) :
    Custody (receive order returned now (.heartbeatRequest machine call agentId) n) := by
  have hasked := h.calls _ List.mem_cons_self
  refine ⟨tasksKept_agentHeartbeat h.tasks, h.processes, fun m hm => ?_, fun x => ?_⟩
  · rcases List.mem_append.mp hm with hold | hnew
    · exact (h.calls m (List.mem_cons_of_mem _ hold)).mono rfl (Nat.le_refl _)
    · rw [List.mem_singleton.mp hnew]
      exact ⟨hasked.started, hasked.asked⟩
  · have hbalance := (h.dropped rfl).balance x
    have hrows := @count_agentHeartbeat n.tables now order agentId h.tasks x
    have hreturned : (consign agentId (returned.arrange
        ((n.tables.nextTasks order agentId).map PendingTask.spec))).count x =
        (consign agentId ((n.tables.nextTasks order agentId).map PendingTask.spec)).count x :=
      ((returned.perm _).map _).count_eq x
    have htravel := travelling_send (.heartbeatResponse machine call agentId
      (returned.arrange ((n.tables.nextTasks order agentId).map PendingTask.spec)))
      (n.withTables (Tables.agentHeartbeat order agentId now)) x
    rw [Message.carried, hreturned] at htravel
    rw [receive, htravel]
    simp only [Network.send, Network.withTables, Network.travelling] at *
    omega

/-- An answer reaches the process that waits for it. -/
theorem custody_heartbeatResponse (order : IterOrder PendingTask)
    (returned : IterOrder TaskSpec) (now : DateTime) {machine : String} {call : Nat}
    {agentId : Uuid} {commands : List TaskSpec}
    (h : Custody (n.carrying (.heartbeatResponse machine call agentId commands))) :
    Custody (receive order returned now
      (.heartbeatResponse machine call agentId commands) n) := by
  rw [receive]
  split
  · next p hlookup =>
      split
      · next hwaiting =>
          have hagent := (h.calls _ List.mem_cons_self).asked machine call agentId p
            ⟨rfl, rfl, rfl⟩ hlookup hwaiting
          have hidle := ((h.processes machine p hlookup).waiting call hwaiting).2
          refine ⟨h.tasks, processes_withAgent h.processes
            ⟨fun hnone => ?_, fun call' hcall => ?_⟩, fun m hm => ?_, fun x => ?_⟩
          · cases hagent.symm.trans hnone
          · cases hcall
          · have hold : CallKept n m :=
              (h.calls m (List.mem_cons_of_mem _ hm)).mono rfl (Nat.le_refl _)
            exact hold.withAgent fun call' agentId' _ hcall => by cases hcall
          · have hbalance := h.balance x
            rw [travelling_carrying] at hbalance
            have htotal := total_insert_held machine
              { p with waiting := none, commands := commands } n x
            rw [heldBy_of_lookup hlookup] at htotal
            have hbefore : p.held.count x = 0 := by
              rw [AgentProcess.held, hagent, hidle]
              rfl
            have hafter : (AgentProcess.held
                { p with waiting := none, commands := commands }).count x =
                  (consign agentId commands).count x := by
              rw [AgentProcess.held, hagent]
            simp only [Network.withAgent, Network.carrying, Network.travelling,
              Message.carried] at *
            omega
      · exact custody_lostMessage h
  · exact custody_lostMessage h

theorem custody_receive (order : IterOrder PendingTask) (returned : IterOrder TaskSpec)
    (now : DateTime) (h : Custody (n.carrying m)) :
    Custody (receive order returned now m n) := by
  cases m with
  | heartbeatRequest machine call agentId =>
      exact custody_heartbeatRequest order returned now h
  | heartbeatResponse machine call agentId commands =>
      exact custody_heartbeatResponse order returned now h
  | taskResult result => exact (h.dropped rfl).ofSameRows rfl

/-- What is done with a message that is on its way. -/
theorem custody_take (i : Nat) {f : Message → Network → Network}
    (hf : ∀ m n, Custody (n.carrying m) → Custody (f m n)) (h : Custody n) :
    Custody (n.take i f) := by
  unfold Network.take
  split
  · next m hm =>
      obtain ⟨hi, heq⟩ := List.getElem?_eq_some_iff.mp hm
      refine hf m _ (h.perm ?_)
      rw [← heq]
      exact List.getElem_cons_eraseIdx_perm hi
  · exact h

theorem custody_step (event : Event) (h : Custody n) : Custody (n.step event) := by
  cases event with
  | createDevice deviceId => exact h.ofSameRows (rows_insertDevice _ _ _)
  | deleteDevice deviceId => exact h.ofSameRows rfl
  | createJob jobId deviceId sourceConfig => exact h.ofSameRows (rows_createJob _ _ _ _)
  | triggerJob id jobUUID taskId order now =>
      exact custody_triggerJob id jobUUID taskId order now h
  | start machine => exact custody_start machine h
  | register machine agentId now answered => exact custody_register machine agentId now answered h
  | heartbeat machine => exact custody_heartbeat machine h
  | giveUp machine => exact custody_giveUp machine h
  | work machine setting world => exact custody_work machine setting world h
  | deliver i order returned now =>
      exact custody_take i (fun _ _ => custody_receive order returned now) h
  | lose i => exact custody_take i (fun _ _ => custody_lostMessage) h

theorem custody_empty : Custody .empty where
  tasks := by
    refine ⟨List.nodup_nil, ?_, ?_, ?_⟩
    all_goals
      intro t ht
      cases ht
  processes := fun machine p h => by cases h
  calls := fun m hm => by cases hm
  balance := fun x => rfl

theorem custody_run (events : List Event) : Custody (Network.run events) :=
  List.foldlRecOn events _ custody_empty fun _ h event _ => custody_step event h

end Steps

section Places

variable {n : Network}

/-- All tasks that there have been, each for its agent. -/
def Tables.consignments (c : Tables) : List Consignment :=
  c.pendingTasks.filterMap PendingTask.consignment

/-- The tasks by the places where they are. -/
def Network.places (n : Network) : List Consignment :=
  n.tables.consigned .pending ++
    (n.travelling ++ (n.held ++ (n.executed ++ n.lost)))

theorem count_held (n : Network) (x : Consignment) :
    n.held.count x = HashMap.total (fun p => p.held.count x) n.agents := by
  rw [Network.held, List.count_flatMap, HashMap.toList, List.map_map]
  rfl

theorem perm_consigned (h : TasksKept n.tables) :
    (n.tables.consigned .pending ++ n.tables.consigned .dispatched).Perm
      n.tables.consignments := by
  have hother : (n.tables.pendingTasks.filter fun t => t.status = .dispatched) =
      n.tables.pendingTasks.filter fun t => !decide (t.status = .pending) := by
    refine List.filter_congr fun t ht => ?_
    rcases h.status t ht with hpending | hdispatched
    · simp [hpending]
    · simp [hdispatched]
  have hsplit := (List.filter_append_perm (fun t => decide (t.status = .pending))
    n.tables.pendingTasks).filterMap PendingTask.consignment
  rw [← hother, List.filterMap_append] at hsplit
  exact hsplit

theorem perm_places (h : Custody n) : n.places.Perm n.tables.consignments := by
  refine List.Perm.trans ?_ (perm_consigned h.tasks)
  refine (List.perm_iff_count.mpr fun x => ?_).append_left _
  rw [h.balance x, List.count_append, List.count_append, List.count_append, count_held]
  omega

theorem taskIds_consignments (h : TasksKept n.tables) :
    n.tables.consignments.map (fun x => x.spec.taskId) =
      n.tables.pendingTasks.map fun t => uuidText t.taskId := by
  have hrow : ∀ t ∈ n.tables.pendingTasks,
      (t.consignment.map fun x => x.spec.taskId) = some (uuidText t.taskId) := by
    intro t ht
    obtain ⟨agentId, hagent⟩ := Option.isSome_iff_exists.mp (h.assigned t ht)
    rw [PendingTask.consignment, hagent]
    exact congrArg some (h.named t ht)
  rw [Tables.consignments, List.map_filterMap, List.filterMap_congr hrow]
  exact congrFun List.filterMap_eq_map' _

theorem nodup_taskIds (h : TasksKept n.tables) :
    (n.tables.consignments.map fun x => x.spec.taskId).Nodup := by
  rw [taskIds_consignments h]
  have hids := h.ids.map uuidText_injective
  rwa [List.map_map] at hids

/-- Every task is for one agent and in exactly one place, whatever gets lost and however
often the agents start again: no two places, and no place twice, have a task of one
name. -/
theorem places_run (events : List Event) :
    (Network.run events).places.Perm (Network.run events).tables.consignments ∧
      ((Network.run events).places.map fun x => x.spec.taskId).Nodup := by
  have hcustody := custody_run events
  have hperm := perm_places hcustody
  exact ⟨hperm, (hperm.map _).nodup_iff.mpr (nodup_taskIds hcustody.tasks)⟩

end Places

end Dispatch
end Control
end HyperBackup
