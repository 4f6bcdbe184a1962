import HyperBackup.Domain
import HyperBackup.Lib.PriorityQueue
import HyperBackup.Lib.Program
import Mathlib.Data.Finset.Dedup
import Mathlib.Data.Finset.Card

/-!
# The task queue of the scheduler

Tasks wait in a priority queue until one of a limited number of slots is free.
The state is kept four times over: the queue itself, the jobs that have a task
in it, and the tasks and the jobs that are running.

A history records which tasks were accepted, handed out, finished and
cancelled, and which limits were asked for.  The invariant ties the four views
and the limit to it, for every sequence of calls in which only tasks that were
handed out are reported as finished, each at most once.
-/

namespace HyperBackup
namespace Agent

open Lib Lib.Program

inductive TaskPriority
  | low
  | normal
  | high
  | critical
deriving DecidableEq

/-- The number that stands for a priority. -/
def TaskPriority.toNat : TaskPriority → Nat
  | .low => 0
  | .normal => 1
  | .high => 2
  | .critical => 3

inductive TaskKind
  | backup
  | restore
  | verify
  | cleanup
deriving DecidableEq

structure QueuedTask where
  taskId : Uuid
  jobId : JobId
  priority : TaskPriority
  kind : TaskKind
  enqueuedAt : DateTime
deriving DecidableEq

namespace QueuedTask

/-- The higher priority is greater; of equal ones, the earlier task is. -/
def cmp (a b : QueuedTask) : Ordering :=
  match compare a.priority.toNat b.priority.toNat with
  | .eq => compare b.enqueuedAt a.enqueuedAt
  | nonEq => nonEq

def le (a b : QueuedTask) : Prop :=
  cmp a b ≠ .gt

instance : DecidableRel le :=
  fun a b => inferInstanceAs (Decidable (cmp a b ≠ .gt))

theorem le_iff {a b : QueuedTask} :
    le a b ↔ a.priority.toNat < b.priority.toNat ∨
      (a.priority.toNat = b.priority.toNat ∧ b.enqueuedAt ≤ a.enqueuedAt) := by
  unfold le cmp
  rcases Nat.lt_trichotomy a.priority.toNat b.priority.toNat with h | h | h
  · simp [Nat.compare_eq_lt.mpr h, h]
  · simp [h, compare_gt_iff_gt]
  · simp [Nat.compare_eq_gt.mpr h]
    omega

instance : Std.Total le where
  total a b := by
    rw [le_iff, le_iff]
    have htime := le_total a.enqueuedAt b.enqueuedAt
    grind

instance : IsTrans QueuedTask le where
  trans a b c := by
    rw [le_iff, le_iff, le_iff]
    grind

end QueuedTask

inductive DequeueError
  | queueEmpty
  | jobAlreadyRunning
  | noConcurrencySlot
deriving DecidableEq

inductive EnqueueError
  | jobAlreadyQueued
deriving DecidableEq

/-- The heap of the queue. -/
abbrev TaskHeap : Type 1 :=
  PriorityQueue QueuedTask QueuedTask.le

structure QueueInner (heap : TaskHeap) where
  pending : heap.Carrier
  queuedJobs : Finset JobId
  runningTasks : Finset Uuid
  runningJobs : Finset JobId

structure TaskQueue (heap : TaskHeap) where
  inner : QueueInner heap
  maxConcurrent : Nat

namespace TaskQueue

section Operations

variable (heap : TaskHeap)

def new (maxConcurrent : Nat) : TaskQueue heap where
  inner :=
    { pending := heap.empty
      queuedJobs := ∅
      runningTasks := ∅
      runningJobs := ∅ }
  maxConcurrent := maxConcurrent

variable {heap}

def setMaxConcurrent (max : Nat) (queue : TaskQueue heap) : TaskQueue heap :=
  { queue with maxConcurrent := Nat.max max 1 }

def enqueue (task : QueuedTask) :
    EStateM EnqueueError (TaskQueue heap) Unit := do
  let queue ← get
  let inner := queue.inner
  if task.jobId ∈ inner.queuedJobs ∨ task.jobId ∈ inner.runningJobs then
    throw .jobAlreadyQueued
  set { queue with
    inner := { inner with
      queuedJobs := insert task.jobId inner.queuedJobs
      pending := heap.push task inner.pending } }

/-- Take the first task whose job is not running; the others are put back. -/
def dequeue : EStateM DequeueError (TaskQueue heap) QueuedTask := do
  let queue ← get
  let inner := queue.inner
  if (heap.toList inner.pending).isEmpty then
    throw .queueEmpty
  if queue.maxConcurrent ≤ inner.runningTasks.card then
    throw .noConcurrencySlot
  let (skipped, found, rest) :=
    heap.popPast (fun task => task.jobId ∈ inner.runningJobs)
      (heap.toList inner.pending).length inner.pending
  let pending := heap.pushAll skipped rest
  match found with
  | none =>
      set { queue with inner := { inner with pending := pending } }
      throw .queueEmpty
  | some task =>
      set { queue with
        inner := {
          pending := pending
          queuedJobs := inner.queuedJobs.erase task.jobId
          runningTasks := insert task.taskId inner.runningTasks
          runningJobs := insert task.jobId inner.runningJobs } }
      return task

def complete (taskId : Uuid) (jobId : JobId) (queue : TaskQueue heap) :
    TaskQueue heap :=
  { queue with
    inner := { queue.inner with
      runningTasks := queue.inner.runningTasks.erase taskId
      runningJobs := queue.inner.runningJobs.erase jobId } }

/-- One round of the loop of `cancel`: a task is found, or put into the new
heap. -/
def cancelOne (taskId : Uuid)
    (r : Option QueuedTask × heap.Carrier) (task : QueuedTask) :
    Option QueuedTask × heap.Carrier :=
  if task.taskId = taskId then (some task, r.2)
  else (r.1, heap.push task r.2)

def cancel (taskId : Uuid) (queue : TaskQueue heap) :
    Option QueuedTask × TaskQueue heap :=
  let inner := queue.inner
  let r := (heap.drain inner.pending).foldl (cancelOne taskId)
    (none, heap.empty)
  let queuedJobs :=
    match r.1 with
    | some task => inner.queuedJobs.erase task.jobId
    | none => inner.queuedJobs
  (r.1, { queue with
    inner := { inner with pending := r.2, queuedJobs := queuedJobs } })

/-- The tasks that wait. -/
def pendingTasks (queue : TaskQueue heap) : List QueuedTask :=
  heap.toList queue.inner.pending

end Operations

section Specs

variable {heap : TaskHeap} {queue : TaskQueue heap} {task : QueuedTask}

/-- A task whose job is neither waiting nor running is accepted. -/
theorem run_enqueue
    (hqueued : task.jobId ∉ queue.inner.queuedJobs)
    (hrunning : task.jobId ∉ queue.inner.runningJobs) :
    (enqueue task).run queue = .ok () { queue with
      inner := { queue.inner with
        queuedJobs := insert task.jobId queue.inner.queuedJobs
        pending := heap.push task queue.inner.pending } } := by
  have hfree : ¬ (task.jobId ∈ queue.inner.queuedJobs ∨
      task.jobId ∈ queue.inner.runningJobs) := by
    tauto
  simp only [enqueue, EStateM.run_bind, EStateM.run_get, if_neg hfree]
  rfl

theorem run_enqueue_refused
    (h : task.jobId ∈ queue.inner.queuedJobs ∨
      task.jobId ∈ queue.inner.runningJobs) :
    (enqueue task).run queue = .error .jobAlreadyQueued queue := by
  simp only [enqueue, EStateM.run_bind, EStateM.run_get, if_pos h]
  rfl

theorem run_dequeue_empty (h : queue.pendingTasks = []) :
    dequeue.run queue = .error .queueEmpty queue := by
  have hempty : (heap.toList queue.inner.pending).isEmpty = true := by
    rw [List.isEmpty_iff]
    exact h
  simp only [dequeue, EStateM.run_bind, EStateM.run_get, if_pos hempty]
  rfl

theorem run_dequeue_full (h : queue.pendingTasks ≠ [])
    (hfull : queue.maxConcurrent ≤ queue.inner.runningTasks.card) :
    dequeue.run queue = .error .noConcurrencySlot queue := by
  have hempty : ¬ (heap.toList queue.inner.pending).isEmpty = true := by
    rw [List.isEmpty_iff]
    exact h
  simp only [dequeue, EStateM.run_bind, EStateM.run_get, if_neg hempty,
    if_pos hfull]
  rfl

/-- With a slot free and no waiting job running, a greatest task is handed
out. -/
theorem run_dequeue (h : queue.pendingTasks ≠ [])
    (hslot : queue.inner.runningTasks.card < queue.maxConcurrent)
    (hfree : ∀ t ∈ queue.pendingTasks, t.jobId ∉ queue.inner.runningJobs) :
    ∃ task rest, dequeue.run queue = .ok task { queue with
        inner := {
          pending := rest
          queuedJobs := queue.inner.queuedJobs.erase task.jobId
          runningTasks := insert task.taskId queue.inner.runningTasks
          runningJobs := insert task.jobId queue.inner.runningJobs } } ∧
      queue.pendingTasks.Perm (task :: heap.toList rest) ∧
      ∀ t ∈ heap.toList rest, QueuedTask.le t task := by
  obtain ⟨task, rest, hpop, hperm, hgreatest⟩ :=
    PriorityQueue.popPast_of_forall
      (fun t => decide (t.jobId ∈ queue.inner.runningJobs)) h
      fun t ht => decide_eq_false (hfree t ht)
  refine ⟨task, rest, ?_, hperm, hgreatest⟩
  have hempty : ¬ (heap.toList queue.inner.pending).isEmpty = true := by
    rw [List.isEmpty_iff]
    exact h
  simp only [dequeue, EStateM.run_bind, EStateM.run_get, if_neg hempty,
    if_neg (Nat.not_le_of_lt hslot), hpop]
  rfl

/-- Tasks with other identifiers are put into the new heap. -/
theorem foldl_cancelOne {taskId : Uuid} {l : List QueuedTask}
    (h : ∀ t ∈ l, t.taskId ≠ taskId) (r : Option QueuedTask × heap.Carrier) :
    l.foldl (cancelOne taskId) r = (r.1, heap.pushAll l r.2) := by
  induction l generalizing r with
  | nil =>
      rfl
  | cons t l ih =>
      rw [List.foldl_cons, ih fun t' ht' => h t' (List.mem_cons_of_mem _ ht'),
        cancelOne, if_neg (h t List.mem_cons_self)]
      rfl

/-- No task has the identifier: nothing but the order in the heap changes. -/
theorem cancel_none {taskId : Uuid}
    (h : ∀ t ∈ queue.pendingTasks, t.taskId ≠ taskId) :
    ∃ rest, queue.cancel taskId =
        (none, { queue with inner := { queue.inner with pending := rest } }) ∧
      (heap.toList rest).Perm queue.pendingTasks := by
  have hdrain := heap.drain_perm queue.inner.pending
  refine ⟨heap.pushAll (heap.drain queue.inner.pending) heap.empty, ?_, ?_⟩
  · simp only [cancel,
      foldl_cancelOne fun t ht => h t (hdrain.mem_iff.mp ht)]
  · refine (heap.toList_pushAll _ _).trans ?_
    rw [heap.toList_empty, List.append_nil]
    exact hdrain

/-- The only task with the identifier is taken out. -/
theorem cancel_some (hmem : task ∈ queue.pendingTasks)
    (hids : (queue.pendingTasks.map QueuedTask.taskId).Nodup) :
    ∃ rest, queue.cancel task.taskId =
        (some task, { queue with
          inner := { queue.inner with
            pending := rest
            queuedJobs := queue.inner.queuedJobs.erase task.jobId } }) ∧
      queue.pendingTasks.Perm (task :: heap.toList rest) := by
  have hdrain := heap.drain_perm queue.inner.pending
  obtain ⟨before, after, hsplit⟩ :=
    List.append_of_mem (hdrain.mem_iff.mpr hmem)
  have hnodup := (hdrain.map QueuedTask.taskId).nodup_iff.mpr hids
  rw [hsplit, List.map_append, List.map_cons, List.nodup_middle,
    ← List.map_append, List.nodup_cons] at hnodup
  have hother : ∀ t ∈ before ++ after, t.taskId ≠ task.taskId := by
    intro t ht heq
    exact hnodup.1 (heq ▸ List.mem_map_of_mem ht)
  have hbefore : ∀ t ∈ before, t.taskId ≠ task.taskId :=
    fun t ht => hother t (List.mem_append_left _ ht)
  have hafter : ∀ t ∈ after, t.taskId ≠ task.taskId :=
    fun t ht => hother t (List.mem_append_right _ ht)
  refine ⟨heap.pushAll after (heap.pushAll before heap.empty), ?_, ?_⟩
  · simp only [cancel, hsplit, List.foldl_append, List.foldl_cons,
      foldl_cancelOne hbefore, cancelOne, if_true, foldl_cancelOne hafter]
  · have hrest := (heap.toList_pushAll after
      (heap.pushAll before heap.empty)).trans
        ((heap.toList_pushAll before heap.empty).append_left after)
    rw [heap.toList_empty, List.append_nil] at hrest
    refine hdrain.symm.trans ?_
    rw [hsplit]
    refine List.perm_middle.trans (List.Perm.cons task ?_)
    exact List.perm_append_comm.trans hrest.symm

end Specs

/-- What has happened to the tasks, and which limits were asked for. -/
structure History where
  initialLimit : Nat
  limitsSet : List Nat
  accepted : List QueuedTask
  dequeued : List QueuedTask
  cancelled : List QueuedTask
  completed : List Uuid

namespace History

def new (initialLimit : Nat) : History where
  initialLimit := initialLimit
  limitsSet := []
  accepted := []
  dequeued := []
  cancelled := []
  completed := []

/-- The limit in force is the last one that was set, at least one; before that
it is the initial one. -/
def limit (history : History) : Nat :=
  match history.limitsSet.getLast? with
  | some max => Nat.max max 1
  | none => history.initialLimit

/-- The tasks that were handed out and are not finished. -/
def running (history : History) : List QueuedTask :=
  history.dequeued.filter fun task => task.taskId ∉ history.completed

end History

/-- How the waiting tasks, the jobs that wait, the tasks that run and the jobs
that run follow from the history. -/
structure Views (pending : List QueuedTask) (queuedJobs : Finset JobId)
    (runningTasks : Finset Uuid) (runningJobs : Finset JobId)
    (history : History) : Prop where
  queued : queuedJobs = (pending.map QueuedTask.jobId).toFinset
  tasks : runningTasks = (history.running.map QueuedTask.taskId).toFinset
  jobs : runningJobs = (history.running.map QueuedTask.jobId).toFinset
  distinct : ((pending ++ history.running).map QueuedTask.jobId).Nodup
  accounted : history.accepted.Perm
    (pending ++ (history.dequeued ++ history.cancelled))
  ids : (history.accepted.map QueuedTask.taskId).Nodup
  finished : ∀ taskId ∈ history.completed,
    ∃ task ∈ history.dequeued, task.taskId = taskId

namespace Views

variable {pending pending' : List QueuedTask} {queuedJobs : Finset JobId}
variable {runningTasks : Finset Uuid} {runningJobs : Finset JobId}
variable {history : History} {task : QueuedTask}

theorem new (initialLimit : Nat) : Views [] ∅ ∅ ∅ (.new initialLimit) where
  queued := rfl
  tasks := rfl
  jobs := rfl
  distinct := List.nodup_nil
  accounted := List.Perm.refl _
  ids := List.nodup_nil
  finished := by
    simp [History.new]

/-- The order in which tasks wait does not matter. -/
theorem of_perm (hperm : pending.Perm pending')
    (h : Views pending queuedJobs runningTasks runningJobs history) :
    Views pending' queuedJobs runningTasks runningJobs history where
  queued := by
    rw [h.queued, List.toFinset_eq_of_perm _ _ (hperm.map QueuedTask.jobId)]
  tasks := h.tasks
  jobs := h.jobs
  distinct := ((hperm.append_right _).map _).nodup_iff.mp h.distinct
  accounted := h.accounted.trans (hperm.append_right _)
  ids := h.ids
  finished := h.finished

theorem placed_ids (h : Views pending queuedJobs runningTasks runningJobs history) :
    ((pending ++ (history.dequeued ++ history.cancelled)).map
      QueuedTask.taskId).Nodup :=
  (h.accounted.map QueuedTask.taskId).nodup_iff.mp h.ids

/-- Waiting, handed out and cancelled tasks have different identifiers. -/
theorem apart (h : Views pending queuedJobs runningTasks runningJobs history) :
    (∀ a ∈ pending, ∀ b ∈ history.dequeued, a.taskId ≠ b.taskId) ∧
      (∀ a ∈ pending, ∀ b ∈ history.cancelled, a.taskId ≠ b.taskId) ∧
      ∀ a ∈ history.dequeued, ∀ b ∈ history.cancelled,
        a.taskId ≠ b.taskId := by
  have hids := h.placed_ids
  rw [List.map_append, List.nodup_append, List.map_append,
    List.nodup_append] at hids
  obtain ⟨-, ⟨-, -, hinner⟩, houter⟩ := hids
  refine ⟨fun a ha b hb => ?_, fun a ha b hb => ?_, fun a ha b hb => ?_⟩
  · exact houter _ (List.mem_map_of_mem ha) _
      (List.mem_append_left _ (List.mem_map_of_mem hb))
  · exact houter _ (List.mem_map_of_mem ha) _
      (List.mem_append_right _ (List.mem_map_of_mem hb))
  · exact hinner _ (List.mem_map_of_mem ha) _ (List.mem_map_of_mem hb)

theorem mem_runningTasks {taskId : Uuid}
    (h : Views pending queuedJobs runningTasks runningJobs history) :
    taskId ∈ runningTasks ↔ taskId ∉ history.completed ∧
      ∃ t ∈ history.dequeued, t.taskId = taskId := by
  rw [h.tasks, List.mem_toFinset, List.mem_map]
  simp only [History.running, List.mem_filter, decide_eq_true_eq]
  constructor
  · rintro ⟨t, ⟨ht, hopen⟩, rfl⟩
    exact ⟨hopen, t, ht, rfl⟩
  · rintro ⟨hopen, t, ht, rfl⟩
    exact ⟨t, ⟨ht, hopen⟩, rfl⟩

theorem pending_ids
    (h : Views pending queuedJobs runningTasks runningJobs history) :
    (pending.map QueuedTask.taskId).Nodup := by
  have hids := h.placed_ids
  rw [List.map_append] at hids
  exact hids.of_append_left

theorem dequeued_ids
    (h : Views pending queuedJobs runningTasks runningJobs history) :
    (history.dequeued.map QueuedTask.taskId).Nodup := by
  have hids := h.placed_ids
  rw [List.map_append, List.map_append] at hids
  exact hids.of_append_right.of_append_left

theorem running_ids
    (h : Views pending queuedJobs runningTasks runningJobs history) :
    (history.running.map QueuedTask.taskId).Nodup :=
  h.dequeued_ids.sublist (List.filter_sublist.map _)

theorem running_jobs
    (h : Views pending queuedJobs runningTasks runningJobs history) :
    (history.running.map QueuedTask.jobId).Nodup := by
  have hjobs := h.distinct
  rw [List.map_append] at hjobs
  exact hjobs.of_append_right

/-- No waiting task belongs to a running job. -/
theorem not_running
    (h : Views pending queuedJobs runningTasks runningJobs history) :
    ∀ t ∈ pending, t.jobId ∉ runningJobs := by
  intro t ht hrunning
  have hjobs := h.distinct
  rw [List.map_append, List.nodup_append] at hjobs
  rw [h.jobs, List.mem_toFinset] at hrunning
  exact hjobs.2.2 _ (List.mem_map_of_mem ht) _ hrunning rfl

theorem enqueue
    (h : Views pending queuedJobs runningTasks runningJobs history)
    (hqueued : task.jobId ∉ queuedJobs) (hrunning : task.jobId ∉ runningJobs)
    (hfresh : task.taskId ∉ history.accepted.map QueuedTask.taskId) :
    Views (task :: pending) (insert task.jobId queuedJobs) runningTasks
      runningJobs { history with accepted := history.accepted ++ [task] } where
  queued := by
    rw [h.queued, List.map_cons, List.toFinset_cons]
  tasks := h.tasks
  jobs := h.jobs
  distinct := by
    rw [h.queued, List.mem_toFinset] at hqueued
    rw [h.jobs, List.mem_toFinset] at hrunning
    rw [List.cons_append, List.map_cons, List.nodup_cons, List.map_append,
      List.mem_append, ← List.map_append]
    exact ⟨not_or.mpr ⟨hqueued, hrunning⟩, h.distinct⟩
  accounted := List.perm_append_comm.trans (h.accounted.cons task)
  ids := by
    rw [List.map_append, List.map_singleton, ← List.concat_eq_append,
      List.nodup_concat]
    exact ⟨hfresh, h.ids⟩
  finished := h.finished

theorem dequeue
    (h : Views (task :: pending) queuedJobs runningTasks runningJobs history) :
    Views pending (queuedJobs.erase task.jobId)
      (insert task.taskId runningTasks) (insert task.jobId runningJobs)
      { history with dequeued := history.dequeued ++ [task] } := by
  have hids := h.placed_ids
  rw [List.cons_append, List.map_cons, List.nodup_cons] at hids
  have hjobs := h.distinct
  rw [List.cons_append, List.map_cons, List.nodup_cons, List.map_append,
    List.mem_append, not_or] at hjobs
  have hunfinished : task.taskId ∉ history.completed := by
    intro hcompleted
    obtain ⟨t, ht, hid⟩ := h.finished _ hcompleted
    refine hids.1 (hid ▸ List.mem_map_of_mem ?_)
    exact List.mem_append_right _ (List.mem_append_left _ ht)
  have hnow : ({ history with
      dequeued := history.dequeued ++ [task] } : History).running =
        history.running ++ [task] := by
    simp [History.running, hunfinished]
  constructor
  · rw [h.queued, List.map_cons, List.toFinset_cons, Finset.erase_insert]
    rw [List.mem_toFinset]
    exact hjobs.1.1
  · rw [hnow, List.map_append, List.toFinset_append, h.tasks,
      Finset.insert_eq, Finset.union_comm]
    rfl
  · rw [hnow, List.map_append, List.toFinset_append, h.jobs,
      Finset.insert_eq, Finset.union_comm]
    rfl
  · rw [hnow]
    refine (List.Perm.nodup_iff (List.Perm.map _ ?_)).mp h.distinct
    exact List.perm_middle.symm.trans (List.Perm.append_left pending
      (List.perm_append_singleton task history.running).symm)
  · refine h.accounted.trans (List.perm_middle.symm.trans ?_)
    refine List.Perm.append_left pending ?_
    rw [List.append_assoc]
    exact List.perm_middle.symm
  · exact h.ids
  · intro taskId hcompleted
    obtain ⟨t, ht, hid⟩ := h.finished taskId hcompleted
    exact ⟨t, List.mem_append_left _ ht, hid⟩

theorem cancel
    (h : Views (task :: pending) queuedJobs runningTasks runningJobs history) :
    Views pending (queuedJobs.erase task.jobId) runningTasks runningJobs
      { history with cancelled := history.cancelled ++ [task] } := by
  have hjobs := h.distinct
  rw [List.cons_append, List.map_cons, List.nodup_cons, List.map_append,
    List.mem_append, not_or, ← List.map_append] at hjobs
  constructor
  · rw [h.queued, List.map_cons, List.toFinset_cons, Finset.erase_insert]
    rw [List.mem_toFinset]
    exact hjobs.1.1
  · exact h.tasks
  · exact h.jobs
  · exact hjobs.2
  · refine h.accounted.trans ?_
    have hlast := List.perm_append_singleton task
      (pending ++ (history.dequeued ++ history.cancelled))
    rw [List.append_assoc, List.append_assoc] at hlast
    exact hlast.symm
  · exact h.ids
  · exact h.finished

/-- Leaving a task out of a list takes its value out of the set of values, if
no other task has that value. -/
theorem toFinset_map_filter {β : Type} [DecidableEq β] {f : QueuedTask → β}
    {b : β} {l : List QueuedTask} {taskId : Uuid}
    (h : ∀ t ∈ l, (t.taskId ≠ taskId ↔ f t ≠ b)) :
    ((l.filter fun t => t.taskId ≠ taskId).map f).toFinset =
      (l.map f).toFinset.erase b := by
  ext x
  simp only [Finset.mem_erase, List.mem_toFinset, List.mem_map,
    List.mem_filter, decide_eq_true_eq]
  constructor
  · rintro ⟨t, ⟨ht, hne⟩, rfl⟩
    exact ⟨(h t ht).mp hne, t, ht, rfl⟩
  · rintro ⟨hne, t, ht, rfl⟩
    exact ⟨t, ⟨ht, (h t ht).mpr hne⟩, rfl⟩

theorem complete
    (h : Views pending queuedJobs runningTasks runningJobs history)
    (hmem : task ∈ history.dequeued)
    (hunfinished : task.taskId ∉ history.completed) :
    Views pending queuedJobs (runningTasks.erase task.taskId)
      (runningJobs.erase task.jobId)
      { history with completed := history.completed ++ [task.taskId] } := by
  have hrunning : task ∈ history.running := by
    simp [History.running, hmem, hunfinished]
  have hnow : ({ history with
      completed := history.completed ++ [task.taskId] } : History).running =
        history.running.filter fun t => t.taskId ≠ task.taskId := by
    simp only [History.running, List.filter_filter]
    congr 1
    ext t
    simp [and_comm]
  -- the task is told from the other running ones by its job as well
  have hjob : ∀ t ∈ history.running,
      (t.taskId ≠ task.taskId ↔ t.jobId ≠ task.jobId) := by
    intro t ht
    rw [not_iff_not]
    constructor
    · intro hid
      rw [List.inj_on_of_nodup_map h.running_ids ht hrunning hid]
    · intro hid
      rw [List.inj_on_of_nodup_map h.running_jobs ht hrunning hid]
  constructor
  · exact h.queued
  · rw [hnow, h.tasks]
    exact (toFinset_map_filter fun t _ => Iff.rfl).symm
  · rw [hnow, h.jobs]
    exact (toFinset_map_filter hjob).symm
  · rw [hnow]
    exact h.distinct.sublist
      ((List.Sublist.append_left List.filter_sublist pending).map _)
  · exact h.accounted
  · exact h.ids
  · intro taskId hcompleted
    obtain hold | hnew := List.mem_append.mp hcompleted
    · exact h.finished taskId hold
    · exact ⟨task, hmem, (List.mem_singleton.mp hnew).symm⟩

end Views

inductive Call
  | enqueue (task : QueuedTask)
  | dequeue
  | cancel (taskId : Uuid)
  | setMaxConcurrent (max : Nat)
  | complete (taskId : Uuid) (jobId : JobId)

/-- The queue with its history. -/
structure Recorded (heap : TaskHeap) where
  queue : TaskQueue heap
  history : History

namespace Recorded

section Runs

variable (heap : TaskHeap)

def new (maxConcurrent : Nat) : Recorded heap where
  queue := .new heap maxConcurrent
  history := .new maxConcurrent

variable {heap}

def step (s : Recorded heap) : Call → Recorded heap
  | .enqueue task =>
      match (enqueue task).run s.queue with
      | .ok _ queue =>
          { queue := queue
            history := { s.history with
              accepted := s.history.accepted ++ [task] } }
      | .error _ queue => { s with queue := queue }
  | .dequeue =>
      match TaskQueue.dequeue.run s.queue with
      | .ok task queue =>
          { queue := queue
            history := { s.history with
              dequeued := s.history.dequeued ++ [task] } }
      | .error _ queue => { s with queue := queue }
  | .cancel taskId =>
      match s.queue.cancel taskId with
      | (some task, queue) =>
          { queue := queue
            history := { s.history with
              cancelled := s.history.cancelled ++ [task] } }
      | (none, queue) => { s with queue := queue }
  | .setMaxConcurrent max =>
      { queue := s.queue.setMaxConcurrent max
        history := { s.history with
          limitsSet := s.history.limitsSet ++ [max] } }
  | .complete taskId jobId =>
      { queue := s.queue.complete taskId jobId
        history := { s.history with
          completed := s.history.completed ++ [taskId] } }

def run (s : Recorded heap) (calls : List Call) : Recorded heap :=
  calls.foldl step s

/-- An accepted task has a new identifier; a task that is reported as finished
was handed out under this job, and was not reported before. -/
def Permits (s : Recorded heap) : Call → Prop
  | .enqueue task => outcome (enqueue task) s.queue = .ok () →
      task.taskId ∉ s.history.accepted.map QueuedTask.taskId
  | .complete taskId jobId =>
      (∃ task ∈ s.history.dequeued, task.taskId = taskId ∧
        task.jobId = jobId) ∧
      taskId ∉ s.history.completed
  | _ => True

/-- Every call of a sequence is permitted when it is made. -/
def Legal (s : Recorded heap) : List Call → Prop
  | [] => True
  | call :: calls => Permits s call ∧ Legal (step s call) calls

end Runs

section Invariant

variable {heap : TaskHeap} {s : Recorded heap}

/-- The views of the queue and its limit belong to its history. -/
structure Inv (s : Recorded heap) : Prop where
  views : Views s.queue.pendingTasks s.queue.inner.queuedJobs
    s.queue.inner.runningTasks s.queue.inner.runningJobs s.history
  limit : s.queue.maxConcurrent = s.history.limit

theorem inv_new (max : Nat) : Inv (new heap max) where
  views := by
    have hempty : (new heap max).queue.pendingTasks = [] := heap.toList_empty
    rw [hempty]
    exact Views.new max
  limit := rfl

theorem Inv.step_enqueue {task : QueuedTask} (h : Inv s)
    (hpermits : Permits s (.enqueue task)) : Inv (step s (.enqueue task)) := by
  by_cases htaken : task.jobId ∈ s.queue.inner.queuedJobs ∨
      task.jobId ∈ s.queue.inner.runningJobs
  · simp only [step, run_enqueue_refused htaken]
    exact h
  · rw [not_or] at htaken
    have hrun := run_enqueue htaken.1 htaken.2
    simp only [step, hrun]
    refine ⟨?_, h.limit⟩
    exact (h.views.enqueue htaken.1 htaken.2
      (hpermits (run_eq_ok_iff.mp hrun).1)).of_perm
        (heap.toList_push task s.queue.inner.pending).symm

theorem Inv.step_dequeue (h : Inv s) : Inv (step s .dequeue) := by
  by_cases hempty : s.queue.pendingTasks = []
  · simp only [step, run_dequeue_empty hempty]
    exact h
  · by_cases hslot : s.queue.inner.runningTasks.card < s.queue.maxConcurrent
    · obtain ⟨task, rest, hrun, hperm, -⟩ :=
        run_dequeue hempty hslot h.views.not_running
      simp only [step, hrun]
      exact ⟨(h.views.of_perm hperm).dequeue, h.limit⟩
    · simp only [step, run_dequeue_full hempty (Nat.le_of_not_lt hslot)]
      exact h

theorem Inv.step_cancel (h : Inv s) (taskId : Uuid) :
    Inv (step s (.cancel taskId)) := by
  by_cases hmem : ∃ task ∈ s.queue.pendingTasks, task.taskId = taskId
  · obtain ⟨task, htask, rfl⟩ := hmem
    obtain ⟨rest, hcancel, hperm⟩ := cancel_some htask h.views.pending_ids
    simp only [step, hcancel]
    exact ⟨(h.views.of_perm hperm).cancel, h.limit⟩
  · push Not at hmem
    obtain ⟨rest, hcancel, hperm⟩ := cancel_none hmem
    simp only [step, hcancel]
    exact ⟨h.views.of_perm hperm.symm, h.limit⟩

/-- The limit that is set is the last one of the history. -/
theorem Inv.step_setMaxConcurrent (h : Inv s) (max : Nat) :
    Inv (step s (.setMaxConcurrent max)) where
  views := ⟨h.views.queued, h.views.tasks, h.views.jobs, h.views.distinct,
    h.views.accounted, h.views.ids, h.views.finished⟩
  limit := by
    simp only [step, setMaxConcurrent, History.limit, List.getLast?_concat]

/-- Every permitted call keeps the views together. -/
theorem Inv.step {call : Call} (h : Inv s) (hpermits : Permits s call) :
    Inv (step s call) := by
  cases call with
  | enqueue task =>
      exact h.step_enqueue hpermits
  | dequeue =>
      exact h.step_dequeue
  | cancel taskId =>
      exact h.step_cancel taskId
  | setMaxConcurrent max =>
      exact h.step_setMaxConcurrent max
  | complete taskId jobId =>
      obtain ⟨⟨task, hmem, rfl, rfl⟩, hunfinished⟩ := hpermits
      exact ⟨h.views.complete hmem hunfinished, h.limit⟩

theorem Inv.run {calls : List Call} (h : Inv s) (hlegal : Legal s calls) :
    Inv (run s calls) := by
  induction calls generalizing s with
  | nil =>
      exact h
  | cons call calls ih =>
      exact ih (h.step hlegal.1) hlegal.2

/-- Where an accepted task can be. -/
inductive Place
  | pending
  | running
  | completed
  | cancelled

def IsIn (s : Recorded heap) (task : QueuedTask) : Place → Prop
  | .pending => task ∈ s.queue.pendingTasks
  | .running => task.taskId ∈ s.queue.inner.runningTasks
  | .completed => task.taskId ∈ s.history.completed
  | .cancelled => task ∈ s.history.cancelled

/-- No waiting task comes before this one: none has a higher priority, nor the
same priority and an earlier time. -/
def First (s : Recorded heap) (task : QueuedTask) : Prop :=
  ∀ t ∈ s.queue.pendingTasks,
    ¬ task.priority.toNat < t.priority.toNat ∧
      ¬ (t.priority = task.priority ∧ t.enqueuedAt < task.enqueuedAt)

/-- What holds of the queue after every sequence of calls. -/
structure Consistent (s : Recorded heap) : Prop where
  queuedJobs : ∀ job, job ∈ s.queue.inner.queuedJobs ↔
    ∃ task ∈ s.queue.pendingTasks, task.jobId = job
  pendingOnce : (s.queue.pendingTasks.map QueuedTask.jobId).Nodup
  notBoth : ∀ task ∈ s.queue.pendingTasks,
    task.jobId ∉ s.queue.inner.runningJobs
  sameSize : s.queue.inner.runningTasks.card = s.queue.inner.runningJobs.card
  withinLimit : ∀ task, outcome dequeue s.queue = .ok task →
    (stateAfter dequeue s.queue).inner.runningTasks.card ≤ s.history.limit
  dequeues : (∃ task, outcome dequeue s.queue = .ok task) ↔
    s.queue.pendingTasks ≠ [] ∧
      s.queue.inner.runningTasks.card < s.history.limit
  first : ∀ task, outcome dequeue s.queue = .ok task →
    task ∈ s.queue.pendingTasks ∧ First s task
  placed : ∀ task ∈ s.history.accepted, ∃! place, IsIn s task place

end Invariant

section Consistency

variable {heap : TaskHeap} {s : Recorded heap} {task : QueuedTask}

theorem Inv.card_running (h : Inv s) :
    s.queue.inner.runningTasks.card = s.history.running.length := by
  rw [h.views.tasks, List.toFinset_card_of_nodup h.views.running_ids,
    List.length_map]

theorem Inv.card_runningJobs (h : Inv s) :
    s.queue.inner.runningJobs.card = s.history.running.length := by
  rw [h.views.jobs, List.toFinset_card_of_nodup h.views.running_jobs,
    List.length_map]

/-- A task is handed out if one waits and a slot is free. -/
theorem Inv.outcome_dequeue (h : Inv s) :
    (∃ task, outcome dequeue s.queue = .ok task) ↔
      s.queue.pendingTasks ≠ [] ∧
        s.queue.inner.runningTasks.card < s.history.limit := by
  rw [← h.limit]
  constructor
  · rintro ⟨task, hout⟩
    by_cases hempty : s.queue.pendingTasks = []
    · rw [outcome, run_dequeue_empty hempty] at hout
      cases hout
    · refine ⟨hempty, Nat.lt_of_not_le fun hfull => ?_⟩
      rw [outcome, run_dequeue_full hempty hfull] at hout
      cases hout
  · rintro ⟨hempty, hslot⟩
    obtain ⟨task, rest, hrun, -⟩ :=
      run_dequeue hempty hslot h.views.not_running
    exact ⟨task, (run_eq_ok_iff.mp hrun).1⟩

/-- The task that is handed out, and the tasks that run then. -/
theorem Inv.of_dequeue (h : Inv s)
    (hout : outcome dequeue s.queue = .ok task) :
    task ∈ s.queue.pendingTasks ∧
      (∀ t ∈ s.queue.pendingTasks, QueuedTask.le t task) ∧
      (stateAfter dequeue s.queue).inner.runningTasks =
        insert task.taskId s.queue.inner.runningTasks := by
  obtain ⟨hempty, hslot⟩ := h.outcome_dequeue.mp ⟨task, hout⟩
  rw [← h.limit] at hslot
  obtain ⟨first, rest, hrun, hperm, hgreatest⟩ :=
    run_dequeue hempty hslot h.views.not_running
  obtain ⟨hfirst, hafter⟩ := run_eq_ok_iff.mp hrun
  rw [hout] at hfirst
  obtain rfl := Except.ok.inj hfirst
  rw [hafter]
  refine ⟨hperm.mem_iff.mpr List.mem_cons_self, fun t ht => ?_, rfl⟩
  obtain rfl | hrest := List.mem_cons.mp (hperm.mem_iff.mp ht)
  · exact QueuedTask.le_iff.mpr (Or.inr ⟨rfl, le_refl _⟩)
  · exact hgreatest t hrest

theorem first_of_le (h : ∀ t ∈ s.queue.pendingTasks, QueuedTask.le t task) :
    First s task := by
  intro t ht
  obtain hlower | ⟨hequal, hlater⟩ := QueuedTask.le_iff.mp (h t ht)
  · refine ⟨Nat.not_lt_of_lt hlower, ?_⟩
    rintro ⟨hpriority, -⟩
    rw [hpriority] at hlower
    exact Nat.lt_irrefl _ hlower
  · exact ⟨Nat.not_lt_of_le (Nat.le_of_eq hequal),
      fun hearlier => not_lt_of_ge hlater hearlier.2⟩

/-- An accepted task is in one place only. -/
theorem Inv.exists_unique_place (h : Inv s)
    (hmem : task ∈ s.history.accepted) : ∃! place, IsIn s task place := by
  have hviews := h.views
  obtain ⟨hpd, hpc, hdc⟩ := hviews.apart
  have hplaced := hviews.accounted.mem_iff.mp hmem
  rw [List.mem_append, List.mem_append] at hplaced
  obtain hpending | hdequeued | hcancelled := hplaced
  · refine ⟨.pending, hpending, fun place hplace => ?_⟩
    cases place with
    | pending =>
        rfl
    | running =>
        obtain ⟨-, t, ht, hid⟩ := hviews.mem_runningTasks.mp hplace
        exact absurd hid.symm (hpd task hpending t ht)
    | completed =>
        obtain ⟨t, ht, hid⟩ := hviews.finished _ hplace
        exact absurd hid.symm (hpd task hpending t ht)
    | cancelled =>
        exact absurd rfl (hpc task hpending task hplace)
  · by_cases hcompleted : task.taskId ∈ s.history.completed
    · refine ⟨.completed, hcompleted, fun place hplace => ?_⟩
      cases place with
      | pending =>
          exact absurd rfl (hpd task hplace task hdequeued)
      | running =>
          exact absurd hcompleted (hviews.mem_runningTasks.mp hplace).1
      | completed =>
          rfl
      | cancelled =>
          exact absurd rfl (hdc task hdequeued task hplace)
    · refine ⟨.running,
        hviews.mem_runningTasks.mpr ⟨hcompleted, task, hdequeued, rfl⟩,
        fun place hplace => ?_⟩
      cases place with
      | pending =>
          exact absurd rfl (hpd task hplace task hdequeued)
      | running =>
          rfl
      | completed =>
          exact absurd hplace hcompleted
      | cancelled =>
          exact absurd rfl (hdc task hdequeued task hplace)
  · refine ⟨.cancelled, hcancelled, fun place hplace => ?_⟩
    cases place with
    | pending =>
        exact absurd rfl (hpc task hplace task hcancelled)
    | running =>
        obtain ⟨-, t, ht, hid⟩ := hviews.mem_runningTasks.mp hplace
        exact absurd hid (hdc t ht task hcancelled)
    | completed =>
        obtain ⟨t, ht, hid⟩ := hviews.finished _ hplace
        exact absurd hid (hdc t ht task hcancelled)
    | cancelled =>
        rfl

theorem Inv.consistent (h : Inv s) : Consistent s where
  queuedJobs := by
    intro job
    rw [h.views.queued, List.mem_toFinset, List.mem_map]
  pendingOnce := by
    have hjobs := h.views.distinct
    rw [List.map_append] at hjobs
    exact hjobs.of_append_left
  notBoth := h.views.not_running
  sameSize := h.card_running.trans h.card_runningJobs.symm
  withinLimit := by
    intro task hout
    obtain ⟨-, -, htasks⟩ := h.of_dequeue hout
    rw [htasks]
    have hslot := (h.outcome_dequeue.mp ⟨task, hout⟩).2
    have hcard := Finset.card_insert_le task.taskId s.queue.inner.runningTasks
    omega
  dequeues := h.outcome_dequeue
  first := by
    intro task hout
    obtain ⟨hmem, hgreatest, -⟩ := h.of_dequeue hout
    exact ⟨hmem, first_of_le hgreatest⟩
  placed := fun _ hmem => h.exists_unique_place hmem

/-- The queue is consistent after every legal sequence of calls. -/
theorem consistent_run (heap : TaskHeap) (maxConcurrent : Nat)
    (calls : List Call) (h : Legal (new heap maxConcurrent) calls) :
    Consistent (run (new heap maxConcurrent) calls) :=
  ((inv_new maxConcurrent).run h).consistent

end Consistency

section Example

def exampleTask (id : Uuid) (priority : TaskPriority) : QueuedTask where
  taskId := id
  jobId := ⟨id⟩
  priority := priority
  kind := .backup
  enqueuedAt := id.toNat

/-- Three tasks wait; the high one is handed out and finished, then the earlier
of the others is, and the last one is cancelled. -/
def exampleCalls : List Call :=
  [.enqueue (exampleTask 1 .normal), .enqueue (exampleTask 2 .normal),
    .enqueue (exampleTask 3 .high), .dequeue, .setMaxConcurrent 0,
    .complete 3 ⟨3⟩, .dequeue, .cancel 2]

theorem legal_exampleCalls :
    Legal (new (PriorityQueue.sorted QueuedTask.le) 2) exampleCalls := by
  simp only [exampleCalls, Legal, Permits]
  decide

theorem consistent_exampleCalls :
    Consistent (run (new (PriorityQueue.sorted QueuedTask.le) 2)
      exampleCalls) :=
  consistent_run _ 2 exampleCalls legal_exampleCalls

end Example

end Recorded

end TaskQueue

end Agent
end HyperBackup
