import HyperBackup.Control.TaskCustody

/-!
# What the control server knows of its tasks

A report may get lost, and no task is executed twice.  So the results in the table are
those of different tasks, each executed by the agent that the task was for, and a task
that was executed may be without a result.
-/

namespace HyperBackup
namespace Control
namespace Dispatch

open Lib Lib.Program Executor Executor.TaskExecutor Network

/-- A task, an agent and a job by the texts that name them. -/
structure About where
  taskId : String
  agentId : String
  jobId : String
deriving DecidableEq

/-- What a result says it is about. -/
def about (result : TaskResultRequest) : About where
  taskId := result.taskId
  agentId := result.agentId
  jobId := result.jobId

def Consignment.about (x : Consignment) : About where
  taskId := x.spec.taskId
  agentId := uuidText x.agentId
  jobId := x.spec.jobId

/-- The result that a message carries. -/
def Message.result : Message → Option TaskResultRequest
  | .taskResult result => some result
  | _ => none

/-- The results that are recorded and those on their way. -/
def Network.results (n : Network) : List TaskResultRequest :=
  n.tables.taskResults ++ n.inFlight.filterMap Message.result

/-- Results are about tasks that were executed, one for each time. -/
structure Reported (n : Network) : Prop where
  executed : (n.results.map about).Subperm (n.executed.map Consignment.about)
  ended : ∀ r ∈ n.results, r.status = "completed" ∨ r.status = "failed"

section Steps

variable {n n' : Network} {m : Message}

/-- A report names its task, agent and job, however the task ended. -/
theorem about_taskResult (setting : Setting) (agentId : Uuid) (spec : TaskSpec)
    (ended : Except String TaskCounts) :
    about (taskResult setting (uuidText agentId) spec ended) =
      (Consignment.mk agentId spec).about := by
  cases ended <;> rfl

theorem status_taskResult (setting : Setting) (agentId : String) (spec : TaskSpec)
    (ended : Except String TaskCounts) :
    (taskResult setting agentId spec ended).status = "completed" ∨
      (taskResult setting agentId spec ended).status = "failed" := by
  cases ended with
  | ok counts => exact Or.inl rfl
  | error message => exact Or.inr rfl

theorem subperm_map {α β : Type} (f : α → β) {l l' : List α} (h : l.Subperm l') :
    (l.map f).Subperm (l'.map f) := by
  obtain ⟨s, hperm, hsublist⟩ := h
  exact ⟨s.map f, hperm.map f, hsublist.map f⟩

/-- Fewer results of the same executions. -/
theorem Reported.of_subperm (h : Reported n) (hresults : n'.results.Subperm n.results)
    (hexecuted : n'.executed = n.executed) : Reported n' where
  executed := by
    rw [hexecuted]
    exact (subperm_map about hresults).trans h.executed
  ended := fun r hr => h.ended r (hresults.subset hr)

theorem Reported.of_eq (h : Reported n)
    (htable : n'.tables.taskResults = n.tables.taskResults)
    (hflight : n'.inFlight.filterMap Message.result = n.inFlight.filterMap Message.result)
    (hexecuted : n'.executed = n.executed) : Reported n' := by
  refine h.of_subperm ?_ hexecuted
  rw [Network.results, Network.results, htable, hflight]

theorem filterMap_result_append (l : List Message) (hm : m.result = none) :
    (l ++ [m]).filterMap Message.result = l.filterMap Message.result := by
  rw [List.filterMap_append, List.filterMap_cons_none hm, List.filterMap_nil,
    List.append_nil]

theorem reported_work (machine : String) (setting : Setting) (world : World)
    (h : Reported n) : Reported (n.work machine setting world) := by
  unfold Network.work
  split
  · next agentId waiting spec commands hlookup =>
      have hresults : ∀ r, (n.send (.taskResult r)).results = n.results ++ [r] := by
        intro r
        rw [Network.results, Network.send, List.filterMap_append, ← List.append_assoc]
        rfl
      refine ⟨?_, ?_⟩
      · change ((n.send (.taskResult _)).results.map about).Subperm
          ((n.executed ++ [Consignment.mk agentId spec]).map Consignment.about)
        rw [hresults, List.map_append, List.map_append, List.map_singleton,
          List.map_singleton, about_taskResult]
        exact List.subperm_append_right _ |>.mpr h.executed
      · intro r hr
        change r ∈ (n.send (.taskResult _)).results at hr
        rw [hresults] at hr
        rcases List.mem_append.mp hr with hold | hnew
        · exact h.ended r hold
        · rw [List.mem_singleton.mp hnew]
          exact status_taskResult _ _ _ _
  · exact h

theorem taskResults_insertDevice (deviceId : Uuid) (row : DeviceRow) (c : Tables) :
    (c.insertDevice deviceId row).taskResults = c.taskResults := by
  unfold Tables.insertDevice
  split <;> rfl

theorem taskResults_createJob (jobId deviceId : Uuid) (sourceConfig : SourceConfig)
    (c : Tables) : (c.createJob jobId deviceId sourceConfig).taskResults = c.taskResults := by
  unfold Tables.createJob
  split <;> rfl

theorem taskResults_triggerJob (id : String) (jobUUID : Option Uuid) (taskId : Uuid)
    (order : IterOrder (Uuid × DeviceRow)) (now : DateTime) (c : Tables) :
    (c.triggerJob id jobUUID taskId order now).taskResults = c.taskResults := by
  rcases triggerJob_cases id jobUUID taskId order now c with hsame | ⟨_, _, _, _, htask⟩
  · rw [hsame]
  · rw [htask, Tables.insertTask]
    split <;> rfl

/-- The results of a message that is on its way next. -/
theorem results_carrying (m : Message) (n : Network) :
    (n.carrying m).results.Perm (m.result.toList ++ n.results) := by
  have hflight : (n.carrying m).inFlight.filterMap Message.result =
      m.result.toList ++ n.inFlight.filterMap Message.result := by
    rw [Network.carrying, List.filterMap_cons]
    cases m.result <;> rfl
  rw [Network.results, hflight, Network.results]
  exact List.perm_append_comm_assoc _ _ _

theorem Reported.dropped (h : Reported (n.carrying m)) : Reported n :=
  h.of_subperm ((List.sublist_append_right _ _).subperm.trans
    (results_carrying m n).symm.subperm) rfl

theorem reported_lostMessage (h : Reported (n.carrying m)) : Reported (lostMessage m n) := by
  cases m with
  | heartbeatRequest machine call agentId => exact h.dropped
  | heartbeatResponse machine call agentId commands => exact h.dropped.of_eq rfl rfl rfl
  | taskResult result => exact h.dropped

theorem reported_receive (order : IterOrder PendingTask) (returned : IterOrder TaskSpec)
    (now : DateTime) (h : Reported (n.carrying m)) :
    Reported (receive order returned now m n) := by
  cases m with
  | heartbeatRequest machine call agentId =>
      exact h.dropped.of_eq rfl (filterMap_result_append n.inFlight rfl) rfl
  | heartbeatResponse machine call agentId commands =>
      rw [receive]
      split
      · split
        · exact h.dropped.of_eq rfl rfl rfl
        · exact reported_lostMessage h
      · exact reported_lostMessage h
  | taskResult result =>
      have hresults : (receive order returned now (.taskResult result) n).results.Perm
          (result :: n.results) := by
        rw [receive, Network.withTables, Tables.agentTaskResult, Network.results,
          List.append_assoc]
        exact List.perm_middle
      exact h.of_subperm
        (hresults.trans (results_carrying (.taskResult result) n).symm).subperm rfl

theorem reported_take (i : Nat) {f : Message → Network → Network}
    (hf : ∀ m n, Reported (n.carrying m) → Reported (f m n)) (h : Reported n) :
    Reported (n.take i f) := by
  unfold Network.take
  split
  · next m hm =>
      obtain ⟨hi, heq⟩ := List.getElem?_eq_some_iff.mp hm
      refine hf m _ (h.of_subperm ?_ rfl)
      rw [← heq]
      exact (((List.getElem_cons_eraseIdx_perm hi).filterMap _).append_left _).subperm
  · exact h

theorem reported_step (event : Event) (h : Reported n) : Reported (n.step event) := by
  cases event with
  | createDevice deviceId =>
      exact h.of_eq (taskResults_insertDevice _ _ _) rfl rfl
  | deleteDevice deviceId => exact h.of_eq rfl rfl rfl
  | createJob jobId deviceId sourceConfig =>
      exact h.of_eq (taskResults_createJob _ _ _ _) rfl rfl
  | triggerJob id jobUUID taskId order now =>
      exact h.of_eq (taskResults_triggerJob _ _ _ _ _ _) rfl rfl
  | start machine => exact h.of_eq rfl rfl rfl
  | register machine agentId now answered =>
      have hregistered : Reported (n.withTables (Tables.agentRegister agentId now)) :=
        h.of_eq (taskResults_insertDevice _ _ _) rfl rfl
      rw [Network.step, Network.register]
      split
      · exact h
      · split
        · exact hregistered.of_eq rfl rfl rfl
        · exact hregistered
  | heartbeat machine =>
      rw [Network.step, Network.heartbeat]
      split
      · exact h.of_eq rfl (filterMap_result_append n.inFlight rfl) rfl
      · exact h
  | giveUp machine =>
      rw [Network.step, Network.giveUp]
      split
      · exact h.of_eq rfl rfl rfl
      · exact h
  | work machine setting world => exact reported_work machine setting world h
  | deliver i order returned now =>
      exact reported_take i (fun _ _ => reported_receive order returned now) h
  | lose i => exact reported_take i (fun _ _ => reported_lostMessage) h

theorem reported_empty : Reported .empty where
  executed := List.Subperm.refl _
  ended := fun r hr => by cases hr

theorem reported_run (events : List Event) : Reported (Network.run events) :=
  List.foldlRecOn events _ reported_empty fun _ h event _ => reported_step event h

/-- The results in the table are about different tasks; each was executed, by the agent
and for the job that the result names. -/
theorem results_run (events : List Event) :
    ((Network.run events).tables.taskResults.map about).Subperm
        ((Network.run events).executed.map Consignment.about) ∧
      ((Network.run events).tables.taskResults.map TaskResultRequest.taskId).Nodup ∧
      ∀ r ∈ (Network.run events).tables.taskResults,
        r.status = "completed" ∨ r.status = "failed" := by
  have hreported := reported_run events
  have htable : ((Network.run events).tables.taskResults.map about).Subperm
      ((Network.run events).executed.map Consignment.about) :=
    ((List.sublist_append_left _ _).map about).subperm.trans hreported.executed
  refine ⟨htable, ?_, fun r hr => hreported.ended r (List.mem_append_left _ hr)⟩
  have hexecuted : ((Network.run events).executed.map fun x => x.spec.taskId).Nodup := by
    have hcustody := custody_run events
    have hplaces := ((perm_places hcustody).map _).nodup_iff.mpr
      (nodup_taskIds hcustody.tasks)
    refine hplaces.sublist (List.Sublist.map _ ?_)
    exact ((List.sublist_append_left _ _).trans (List.sublist_append_right _ _)).trans
      ((List.sublist_append_right _ _).trans (List.sublist_append_right _ _))
  have hnames := subperm_map About.taskId htable
  rw [List.map_map, List.map_map] at hnames
  obtain ⟨l, hperm, hsublist⟩ := hnames
  exact hperm.nodup_iff.mp (hexecuted.sublist hsublist)

end Steps

end Dispatch
end Control
end HyperBackup
