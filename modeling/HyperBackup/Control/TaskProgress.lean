import HyperBackup.Control.TaskCustody

/-!
# How long a task waits for its agent

The tasks that wait for an agent are a queue that every heartbeat of the agent serves
with a batch of five.  So a task leaves the table's queue after as many heartbeats as it
takes for the tasks that were there before it, whatever the other agents do.  A process
that ends leaves its queue behind: its identifier is never used again, and nothing moves
the tasks to another agent.
-/

namespace HyperBackup
namespace Control
namespace Dispatch

open Lib Lib.Program Executor Executor.TaskExecutor Network

/-- The event brings a heartbeat of the agent to the control server. -/
def Network.serves (agentId : Uuid) (n : Network) : Event → Bool
  | .deliver i _ _ _ =>
      match n.inFlight[i]? with
      | some (.heartbeatRequest _ _ a) => a = agentId
      | _ => false
  | _ => false

/-- The number of heartbeats of the agent that reach the control server. -/
def served (agentId : Uuid) : Network → List Event → Nat
  | _, [] => 0
  | n, event :: events =>
      (if n.serves agentId event then 1 else 0) + served agentId (n.step event) events

/-- No process has the identifier, and no heartbeat of it is on its way. -/
structure Gone (agentId : Uuid) (n : Network) : Prop where
  processes : ∀ machine p, n.agents.lookup machine = some p → p.agentId ≠ some agentId
  messages : ∀ machine call, .heartbeatRequest machine call agentId ∉ n.inFlight

section Rows

variable {c : Tables} {order : IterOrder PendingTask} {agentId other : Uuid}
variable {now : DateTime}

theorem waitingFor_of_eq {c' : Tables} (h : c'.pendingTasks = c.pendingTasks) :
    c'.waitingFor agentId = c.waitingFor agentId := by
  rw [Tables.waitingFor, h]
  rfl

theorem waitingFor_insertTask (task : PendingTask) (c : Tables) :
    (c.insertTask task).waitingFor agentId = c.waitingFor agentId ∨
      (c.insertTask task).waitingFor agentId = c.waitingFor agentId ++ [task] := by
  unfold Tables.insertTask
  split
  · exact Or.inl rfl
  · rw [Tables.waitingFor, List.filter_append, List.filter_cons, List.filter_nil]
    split
    · exact Or.inr rfl
    · exact Or.inl (List.append_nil _)

/-- A heartbeat takes its batch out of every queue. -/
theorem waitingFor_agentHeartbeat (h : TasksKept c) :
    (c.agentHeartbeat order other now).waitingFor agentId =
      (c.waitingFor agentId).filter fun t => t ∉ c.nextTasks order other := by
  have hrows : (c.agentHeartbeat order other now).pendingTasks =
      c.pendingTasks.map fun t =>
        if t ∈ c.nextTasks order other then t.dispatch now else t := by
    refine List.map_congr_left fun t ht => ?_
    have hmem := taskId_mem_iff h
      (fun t' (ht' : t' ∈ c.nextTasks order other) => (mem_nextTasks h ht').1) ht
    exact if_congr (List.contains_iff_mem.trans hmem) rfl rfl
  rw [Tables.waitingFor, hrows, List.filter_map, Tables.waitingFor, List.filter_filter]
  have hkeep : (c.pendingTasks.filter ((fun t : PendingTask => decide
      ((t.agentId = some agentId ∨ t.agentId = none) ∧ t.status = .pending)) ∘
        fun t => if t ∈ c.nextTasks order other then t.dispatch now else t)) =
      c.pendingTasks.filter fun t => decide (t ∉ c.nextTasks order other) && decide
        ((t.agentId = some agentId ∨ t.agentId = none) ∧ t.status = .pending) := by
    refine List.filter_congr fun t _ => ?_
    simp only [Function.comp_apply]
    by_cases hmem : t ∈ c.nextTasks order other
    · simp [hmem, PendingTask.dispatch]
    · simp [hmem]
  rw [hkeep]
  refine (List.map_congr_left fun t ht => ?_).trans (List.map_id _)
  have hleft := (Bool.and_eq_true _ _ ▸ (List.mem_filter.mp ht).2).1
  exact if_neg (of_decide_eq_true hleft)

/-- The heartbeat of another agent does not touch the queue. -/
theorem waitingFor_of_other (h : TasksKept c) (hne : other ≠ agentId) :
    (c.agentHeartbeat order other now).waitingFor agentId = c.waitingFor agentId := by
  rw [waitingFor_agentHeartbeat h]
  refine List.filter_eq_self.mpr fun t ht => decide_eq_true fun hnext => ?_
  obtain ⟨-, -, hother⟩ := mem_nextTasks h hnext
  rcases (mem_waitingFor.mp ht).2.1 with hagent | hnone
  · exact hne (Option.some.inj (hother.symm.trans hagent))
  · cases hother.symm.trans hnone

/-- A row stays in the table, as it is or dispatched. -/
def Tables.Keeps (c c' : Tables) : Prop :=
  ∀ t ∈ c.pendingTasks, t ∈ c'.pendingTasks ∨
    ∃ t' ∈ c'.pendingTasks, t'.taskId = t.taskId ∧ t'.agentId = t.agentId ∧
      t'.spec = t.spec ∧ t'.status = .dispatched

theorem keeps_of_eq {c' : Tables} (h : c'.pendingTasks = c.pendingTasks) : c.Keeps c' :=
  fun _ ht => Or.inl (h ▸ ht)

theorem Tables.Keeps.trans {c' c'' : Tables} (h : c.Keeps c') (h' : c'.Keeps c'') :
    c.Keeps c'' := by
  intro t ht
  rcases h t ht with hkept | ⟨t', ht', hid, hagent, hspec, hstatus⟩
  · exact h' t hkept
  · rcases h' t' ht' with hkept | ⟨t'', ht'', hid', hagent', hspec', hstatus'⟩
    · exact Or.inr ⟨t', hkept, hid, hagent, hspec, hstatus⟩
    · exact Or.inr ⟨t'', ht'', hid'.trans hid, hagent'.trans hagent, hspec'.trans hspec,
        hstatus'⟩

theorem keeps_insertTask (task : PendingTask) (c : Tables) : c.Keeps (c.insertTask task) := by
  unfold Tables.insertTask
  split
  · exact keeps_of_eq rfl
  · exact fun t ht => Or.inl (List.mem_append_left _ ht)

theorem keeps_agentHeartbeat (c : Tables) : c.Keeps (c.agentHeartbeat order other now) := by
  intro t ht
  have hmem : (if ((c.nextTasks order other).map PendingTask.taskId).contains t.taskId
      then t.dispatch now else t) ∈ (c.agentHeartbeat order other now).pendingTasks :=
    List.mem_map_of_mem ht
  split at hmem
  · exact Or.inr ⟨t.dispatch now, hmem, rfl, rfl, rfl, rfl⟩
  · exact Or.inl hmem

end Rows

section Steps

variable {n : Network} {agentId : Uuid}

/-- What an event does to the tasks. -/
inductive TaskStep (n : Network) (event : Event) : Prop
  | same (hrows : (n.step event).tables.pendingTasks = n.tables.pendingTasks)
      (hserves : ∀ agentId, n.serves agentId event = false)
  | task (task : PendingTask) (id : String) (jobUUID : Option Uuid)
      (order : IterOrder (Uuid × DeviceRow))
      (hevent : event = .triggerJob id jobUUID task.taskId order task.createdAt)
      (htask : (n.step event).tables = n.tables.insertTask task)
  | heartbeat (order : IterOrder PendingTask) (agentId : Uuid) (now : DateTime)
      (hrows : (n.step event).tables = n.tables.agentHeartbeat order agentId now)
      (hserves : ∀ a, n.serves a event = decide (agentId = a))

theorem tables_lostMessage (m : Message) (n : Network) :
    (lostMessage m n).tables = n.tables := by
  cases m <;> rfl

theorem taskStep_deliver (i : Nat) (order : IterOrder PendingTask)
    (returned : IterOrder TaskSpec) (now : DateTime) (n : Network) :
    TaskStep n (.deliver i order returned now) := by
  cases hm : n.inFlight[i]? with
  | none =>
      refine .same ?_ fun a => ?_
      · rw [Network.step, Network.take, hm]
      · rw [Network.serves, hm]
  | some m =>
      have hstep : n.step (.deliver i order returned now) =
          receive order returned now m { n with inFlight := n.inFlight.eraseIdx i } := by
        rw [Network.step, Network.take, hm]
      cases m with
      | heartbeatRequest machine call agentId =>
          refine .heartbeat order agentId now ?_ fun a => ?_
          · rw [hstep]
            rfl
          · rw [Network.serves, hm]
      | heartbeatResponse machine call agentId commands =>
          refine .same ?_ fun a => ?_
          · rw [hstep, receive]
            split
            · split
              · rfl
              · rw [tables_lostMessage]
            · rw [tables_lostMessage]
          · rw [Network.serves, hm]
      | taskResult result =>
          refine .same ?_ fun a => ?_
          · rw [hstep]
            rfl
          · rw [Network.serves, hm]

theorem taskStep (n : Network) (event : Event) : TaskStep n event := by
  cases event with
  | createDevice deviceId => exact .same (rows_insertDevice _ _ _) fun _ => rfl
  | deleteDevice deviceId => exact .same rfl fun _ => rfl
  | createJob jobId deviceId sourceConfig =>
      exact .same (rows_createJob _ _ _ _) fun _ => rfl
  | triggerJob id jobUUID taskId order now =>
      rcases triggerJob_cases id jobUUID taskId order now n.tables with
        hsame | ⟨_, _, _, _, htask⟩
      · exact .same (congrArg Tables.pendingTasks hsame) fun _ => rfl
      · exact .task _ id jobUUID order rfl htask
  | start machine => exact .same rfl fun _ => rfl
  | register machine agentId now answered =>
      refine .same ?_ fun _ => rfl
      rw [Network.step, Network.register]
      split
      · rfl
      · split
        · exact rows_insertDevice _ _ _
        · exact rows_insertDevice _ _ _
  | heartbeat machine =>
      refine .same ?_ fun _ => rfl
      rw [Network.step, Network.heartbeat]
      split <;> rfl
  | giveUp machine =>
      refine .same ?_ fun _ => rfl
      rw [Network.step, Network.giveUp]
      split <;> rfl
  | work machine setting world =>
      refine .same ?_ fun _ => rfl
      rw [Network.step, Network.work]
      split <;> rfl
  | deliver i order returned now => exact taskStep_deliver i order returned now n
  | lose i =>
      refine .same ?_ fun _ => rfl
      rw [Network.step, Network.take]
      split
      · rw [tables_lostMessage]
      · rfl

theorem keeps_step (n : Network) (event : Event) : n.tables.Keeps (n.step event).tables := by
  cases taskStep n event with
  | same hrows _ => exact keeps_of_eq hrows
  | task task _ _ _ _ htask =>
      rw [htask]
      exact keeps_insertTask task n.tables
  | heartbeat order agentId now hrows _ =>
      rw [hrows]
      exact keeps_agentHeartbeat n.tables

/-- A step serves the queue of an agent, adds to it, or leaves it as it is. -/
theorem waitingFor_step (h : Custody n) (event : Event) :
    ∃ actions : List (BatchQueue.Action PendingTask),
      (n.step event).tables.waitingFor agentId =
        BatchQueue.run PendingTask.createdAt 5 (n.tables.waitingFor agentId) actions ∧
      actions.countP BatchQueue.Action.isServe =
        (if n.serves agentId event then 1 else 0) ∧
      ∀ t, .arrive t ∈ actions → ∃ id jobUUID order,
        event = .triggerJob id jobUUID t.taskId order t.createdAt := by
  cases taskStep n event with
  | same hrows hserves =>
      refine ⟨[], waitingFor_of_eq hrows, ?_, fun t ht => by cases ht⟩
      rw [hserves]
      rfl
  | task task id jobUUID order hevent htask =>
      have hserves : n.serves agentId event = false := by
        rw [hevent]
        rfl
      rw [htask, hserves]
      rcases waitingFor_insertTask task n.tables with hsame | hnew
      · exact ⟨[], hsame, rfl, fun t ht => by cases ht⟩
      · refine ⟨[.arrive task], hnew, rfl, fun t ht => ?_⟩
        obtain rfl := BatchQueue.Action.arrive.inj (List.mem_singleton.mp ht)
        exact ⟨id, jobUUID, order, hevent⟩
  | heartbeat order other now hrows hserves =>
      rw [hrows, hserves]
      by_cases hother : other = agentId
      · refine ⟨[.serve order], ?_, ?_, fun t ht => ?_⟩
        · rw [waitingFor_agentHeartbeat h.tasks, hother]
          rfl
        · simp [hother, BatchQueue.Action.isServe]
        · cases List.mem_singleton.mp ht
      · refine ⟨[], waitingFor_of_other h.tasks hother, ?_, fun t ht => by cases ht⟩
        simp [hother]

/-- Over a run the queue of an agent is one that is served in batches of five. -/
theorem waitingFor_foldl (h : Custody n) (events : List Event) :
    ∃ actions : List (BatchQueue.Action PendingTask),
      (events.foldl Network.step n).tables.waitingFor agentId =
        BatchQueue.run PendingTask.createdAt 5 (n.tables.waitingFor agentId) actions ∧
      actions.countP BatchQueue.Action.isServe = served agentId n events ∧
      ∀ t, .arrive t ∈ actions → ∃ id jobUUID order,
        .triggerJob id jobUUID t.taskId order t.createdAt ∈ events := by
  induction events generalizing n with
  | nil =>
      exact ⟨[], rfl, rfl, fun t ht => by cases ht⟩
  | cons event events ih =>
      obtain ⟨first, hfirst, hserve, harrive⟩ :=
        @waitingFor_step n agentId h event
      obtain ⟨rest, hrest, hserved, hlater⟩ := ih (custody_step event h)
      refine ⟨first ++ rest, ?_, ?_, fun t ht => ?_⟩
      · rw [List.foldl_cons, hrest, hfirst, BatchQueue.run, BatchQueue.run, BatchQueue.run,
          List.foldl_append]
      · rw [List.countP_append, hserve, hserved, served]
      · rcases List.mem_append.mp ht with hnow | hthen
        · obtain ⟨id, jobUUID, order, hevent⟩ := harrive t hnow
          exact ⟨id, jobUUID, order, hevent ▸ List.mem_cons_self⟩
        · obtain ⟨id, jobUUID, order, hmem⟩ := hlater t hthen
          exact ⟨id, jobUUID, order, List.mem_cons_of_mem _ hmem⟩

theorem keeps_foldl (n : Network) (events : List Event) :
    n.tables.Keeps (events.foldl Network.step n).tables := by
  induction events generalizing n with
  | nil =>
      exact keeps_of_eq rfl
  | cons event events ih =>
      exact (keeps_step n event).trans (ih (n.step event))

end Steps

section Waiting

variable {agentId : Uuid}

/-- A task is sent to its agent by the time that the agent has been heard of once for
every five of the tasks that were there before, if later tasks are younger. -/
theorem dispatched_of_served (before later : List Event) (t : PendingTask)
    (ht : t ∈ (Network.run before).tables.waitingFor agentId)
    (hlater : ∀ id jobUUID taskId order now,
      .triggerJob id jobUUID taskId order now ∈ later → t.createdAt < now)
    (hserved : BatchQueue.ahead PendingTask.createdAt t.createdAt
        ((Network.run before).tables.waitingFor agentId) ≤
      5 * served agentId (Network.run before) later) :
    ∃ t' ∈ (Network.run (before ++ later)).tables.pendingTasks, t'.taskId = t.taskId ∧
      t'.agentId = t.agentId ∧ t'.spec = t.spec ∧ t'.status = .dispatched := by
  have hrun : Network.run (before ++ later) = later.foldl Network.step (Network.run before) :=
    List.foldl_append
  obtain ⟨actions, hqueue, hcount, harrive⟩ :=
    @waitingFor_foldl _ agentId (custody_run before) later
  obtain ⟨hmem, hagent, hpending⟩ := mem_waitingFor.mp ht
  rcases keeps_foldl (Network.run before) later t hmem with hkept | hdispatched
  · -- a row that is as it was would still be in the queue
    have hstill := mem_waitingFor.mpr ⟨hkept, hagent, hpending⟩
    rw [hqueue] at hstill
    have hbound := BatchQueue.mul_serves_lt_ahead (fun b hb => by
      obtain ⟨id, jobUUID, order, hevent⟩ := harrive b hb
      exact hlater _ _ _ _ _ hevent) hstill
    rw [hcount] at hbound
    exact absurd hserved (Nat.not_le.mpr hbound)
  · rw [hrun]
    exact hdispatched

/-- A process registers, and a job is triggered. -/
def triggered : List Event := [
  .start "m",
  .register "m" 1 0 true,
  .createJob 2 1 none,
  .triggerJob "j" (some 2) 3 .asStored 10]

/-- The task of the job. -/
def triggeredTask : PendingTask where
  taskId := 3
  agentId := some 1
  spec := Tables.specOf 3 "j" none
  status := .pending
  createdAt := 10
  dispatchedAt := none

theorem waitingFor_triggered :
    (Network.run triggered).tables.waitingFor 1 = [triggeredTask] := by
  rfl

/-- The process asks for its tasks. -/
def asked : List Event := [
  .heartbeat "m",
  .deliver 0 .asStored .asStored 11]

theorem dispatched_of_served_asked :
    ∃ t' ∈ (Network.run (triggered ++ asked)).tables.pendingTasks,
      t'.taskId = triggeredTask.taskId ∧ t'.agentId = triggeredTask.agentId ∧
        t'.spec = triggeredTask.spec ∧ t'.status = .dispatched := by
  have ht : triggeredTask ∈ (Network.run triggered).tables.waitingFor 1 := by
    rw [waitingFor_triggered]
    exact List.mem_cons_self
  refine dispatched_of_served triggered asked triggeredTask ht ?_ ?_
  · intro id jobUUID taskId order now hmem
    simp [asked] at hmem
  · have hserved : served 1 (Network.run triggered) asked = 1 := by
      rfl
    have hahead : BatchQueue.ahead PendingTask.createdAt triggeredTask.createdAt
        ((Network.run triggered).tables.waitingFor 1) = 1 := by
      rfl
    rw [hserved, hahead]
    decide

section Gone

variable {n n' : Network}

theorem Gone.of_eq (h : Gone agentId n) (hagents : n'.agents = n.agents)
    (hflight : ∀ m ∈ n'.inFlight, m ∈ n.inFlight) : Gone agentId n' where
  processes := by
    rw [hagents]
    exact h.processes
  messages := fun machine call hm => h.messages machine call (hflight _ hm)

theorem Gone.withAgent (h : Gone agentId n) {machine : String} {p : AgentProcess}
    (hp : p.agentId ≠ some agentId) : Gone agentId (n.withAgent machine p) where
  processes := by
    intro machine' p' hlookup
    rcases HashMap.lookup_insert_eq_some.mp hlookup with ⟨-, rfl⟩ | ⟨-, hold⟩
    · exact hp
    · exact h.processes machine' p' hold
  messages := h.messages

theorem Gone.send (h : Gone agentId n) {m : Message}
    (hm : ∀ machine call, m ≠ .heartbeatRequest machine call agentId) :
    Gone agentId (n.send m) where
  processes := h.processes
  messages := by
    intro machine call hmem
    rcases List.mem_append.mp hmem with hold | hnew
    · exact h.messages machine call hold
    · exact hm machine call (List.mem_singleton.mp hnew).symm

theorem gone_lostMessage (m : Message) (h : Gone agentId n) :
    Gone agentId (lostMessage m n) := by
  cases m with
  | heartbeatRequest machine call agentId => exact h
  | heartbeatResponse machine call agentId commands =>
      exact h.of_eq rfl fun _ hm => hm
  | taskResult result => exact h

theorem gone_receive (order : IterOrder PendingTask) (returned : IterOrder TaskSpec)
    (now : DateTime) (m : Message) (h : Gone agentId n) :
    Gone agentId (receive order returned now m n) := by
  cases m with
  | heartbeatRequest machine call other =>
      have htables : Gone agentId (n.withTables (Tables.agentHeartbeat order other now)) :=
        h.of_eq rfl fun _ hm => hm
      exact htables.send fun machine' call' heq => by cases heq
  | heartbeatResponse machine call other commands =>
      rw [receive]
      split
      · next p hlookup =>
          split
          · exact h.withAgent (h.processes machine p hlookup)
          · exact gone_lostMessage _ h
      · exact gone_lostMessage _ h
  | taskResult result => exact h.of_eq rfl fun _ hm => hm

theorem gone_take (i : Nat) {f : Message → Network → Network}
    (hf : ∀ m n, Gone agentId n → Gone agentId (f m n)) (h : Gone agentId n) :
    Gone agentId (n.take i f) := by
  unfold Network.take
  split
  · exact hf _ _ (h.of_eq rfl fun _ hm => List.mem_of_mem_eraseIdx hm)
  · exact h

/-- An identifier that no process has comes back only if it is registered again. -/
theorem gone_step (h : Gone agentId n) {event : Event}
    (hnew : ∀ machine now answered, event ≠ .register machine agentId now answered) :
    Gone agentId (n.step event) := by
  cases event with
  | createDevice | deleteDevice | createJob | triggerJob => exact h.of_eq rfl fun _ hm => hm
  | start machine =>
      have hstarted : Gone agentId (n.withAgent machine .new) :=
        h.withAgent fun hagent => by cases hagent
      exact hstarted.of_eq rfl fun _ hm => hm
  | register machine other now answered =>
      have hregistered : Gone agentId (n.withTables (Tables.agentRegister other now)) :=
        h.of_eq rfl fun _ hm => hm
      have hne : other ≠ agentId := fun heq => hnew machine now answered (heq ▸ rfl)
      rw [Network.step, Network.register]
      split
      · exact h
      · split
        · exact hregistered.withAgent fun hagent => hne (Option.some.inj hagent)
        · exact hregistered
  | heartbeat machine =>
      rw [Network.step, Network.heartbeat]
      split
      · next other hlookup =>
          have hother := h.processes machine _ hlookup
          have hasked : Gone agentId (n.withAgent machine ⟨some other, some n.calls, []⟩) :=
            h.withAgent hother
          have hsent := hasked.send (m := .heartbeatRequest machine n.calls other)
            fun machine' call heq => by
              injection heq with _ _ hagent
              exact hother (congrArg some hagent)
          exact hsent.of_eq rfl fun _ hm => hm
      · exact h
  | giveUp machine =>
      rw [Network.step, Network.giveUp]
      split
      · next p hlookup => exact h.withAgent (h.processes machine p hlookup)
      · exact h
  | work machine setting world =>
      rw [Network.step, Network.work]
      split
      · next other waiting spec commands hlookup =>
          have hother := h.processes machine _ hlookup
          have hworked : Gone agentId (n.withAgent machine ⟨some other, waiting, commands⟩) :=
            h.withAgent hother
          have hreported := hworked.send (m := .taskResult (taskResult setting
            (uuidText other) spec (outcome (executeTask setting spec) world)))
            fun machine' call heq => by cases heq
          exact hreported.of_eq rfl fun _ hm => hm
      · exact h
  | deliver i order returned now =>
      exact gone_take i (fun m _ => gone_receive order returned now m) h
  | lose i => exact gone_take i (fun m _ => gone_lostMessage m) h

theorem not_serves_of_gone (h : Gone agentId n) (event : Event) :
    n.serves agentId event = false := by
  cases event with
  | deliver i order returned now =>
      rw [Network.serves]
      split
      · next machine call other hm =>
          refine decide_eq_false fun heq => ?_
          exact h.messages machine call (heq ▸ List.mem_of_getElem? hm)
      · rfl
  | _ => rfl

theorem served_of_gone {events : List Event} (h : Gone agentId n)
    (hnew : ∀ machine now answered, .register machine agentId now answered ∉ events) :
    served agentId n events = 0 := by
  induction events generalizing n with
  | nil =>
      rfl
  | cons event events ih =>
      have hrest := ih (gone_step h fun machine now answered heq =>
          hnew machine now answered (heq ▸ List.mem_cons_self))
        fun machine now answered hmem => hnew machine now answered (List.mem_cons_of_mem _ hmem)
      rw [served, not_serves_of_gone h event, hrest]
      rfl

end Gone

/-- The tasks of a process that has ended wait for ever, unless its identifier is
registered again. -/
theorem waiting_of_gone (before later : List Event) (t : PendingTask)
    (ht : t ∈ (Network.run before).tables.waitingFor agentId)
    (hgone : Gone agentId (Network.run before))
    (hnew : ∀ machine now answered, .register machine agentId now answered ∉ later) :
    t ∈ (Network.run (before ++ later)).tables.waitingFor agentId := by
  have hrun : Network.run (before ++ later) = later.foldl Network.step (Network.run before) :=
    List.foldl_append
  obtain ⟨actions, hqueue, hcount, -⟩ :=
    @waitingFor_foldl _ agentId (custody_run before) later
  rw [hrun, hqueue]
  refine BatchQueue.mem_run_of_unserved ht ?_
  rw [hcount, served_of_gone hgone hnew]

theorem gone_restarted : Gone 1 (Network.run (triggered ++ [.start "m"])) := by
  have hagents : (Network.run (triggered ++ [.start "m"])).agents =
      (((∅ : HashMap String AgentProcess).insert "m" .new).insert "m"
        ⟨some 1, none, []⟩).insert "m" .new :=
    rfl
  refine ⟨fun machine p hlookup hagent => ?_, fun machine call hmem => by cases hmem⟩
  rw [hagents] at hlookup
  rcases HashMap.lookup_insert_eq_some.mp hlookup with ⟨-, rfl⟩ | ⟨hne, hold⟩
  · cases hagent
  · rw [AList.lookup_insert_ne hne, AList.lookup_insert_ne hne] at hold
    cases hold

/-- The machine starts again, and its new process asks for tasks. -/
theorem waiting_of_gone_restarted :
    triggeredTask ∈ (Network.run ((triggered ++ [.start "m"]) ++
      [.register "m" 4 12 true, .heartbeat "m", .deliver 0 .asStored .asStored 13])
        ).tables.waitingFor 1 := by
  have ht : triggeredTask ∈
      (Network.run (triggered ++ [.start "m"])).tables.waitingFor 1 := by
    change triggeredTask ∈ (Network.run triggered).tables.waitingFor 1
    rw [waitingFor_triggered]
    exact List.mem_cons_self
  refine waiting_of_gone _ _ triggeredTask ht gone_restarted ?_
  intro machine now answered hmem
  simp at hmem

end Waiting

end Dispatch
end Control
end HyperBackup
