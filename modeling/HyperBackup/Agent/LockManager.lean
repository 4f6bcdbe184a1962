import HyperBackup.Agent.Repo
import HyperBackup.Lib.JsonText

/-!
# The locks of a repository

A lock is a file in a directory that any number of lock managers share, each in a
process of its own.  A manager goes through the files before it acquires a lock:
it looks whether a file is there, reads it, and removes it if it is a lock that has
expired.  All of these are separate steps, and the managers take them in any order.

The main result says that nobody takes a lock away from its holder: at every moment
of every such run the active locks are those that were handed out, are not yet to be
released, and have not expired.
-/

namespace HyperBackup
namespace Agent
namespace LockManager

open Lib

inductive LockOperation
  | backup
  | restore
  | verify
  | compact
  | migrate
deriving DecidableEq

def LockOperation.debugText : LockOperation → String
  | .backup => "Backup"
  | .restore => "Restore"
  | .verify => "Verify"
  | .compact => "Compact"
  | .migrate => "Migrate"

structure LockFile where
  lockId : Uuid
  holder : String
  acquiredAt : DateTime
  ttlSecs : UInt64
  operation : String
deriving DecidableEq

/-- JSON for lock files. -/
structure LockJson where
  toVecPretty : LockFile → Bytes
  fromSlice : Bytes → Except String LockFile

namespace LockFile

def new (lockId : Uuid) (now : DateTime) (operation : LockOperation) (ttl : Duration) :
    LockFile where
  lockId := lockId
  holder := operation.debugText
  acquiredAt := now
  ttlSecs := ttl.secs
  operation := operation.debugText

/-- The whole seconds since the lock was acquired are more than its time to live, which
is compared as a signed number. -/
def isExpired (now : DateTime) (l : LockFile) : Bool :=
  l.ttlSecs.toBitVec.toInt < (now - l.acquiredAt).tdiv 1000000000

/-- Once expired, a lock stays so. -/
theorem isExpired_mono {l : LockFile} {now now' : DateTime} (hle : now ≤ now')
    (h : l.isExpired now = true) : l.isExpired now' = true := by
  have hdiv : (now - l.acquiredAt).tdiv 1000000000 ≤
      (now' - l.acquiredAt).tdiv 1000000000 :=
    Int.tdiv_le_tdiv (by decide) (Int.sub_le_sub_right hle _)
  simp only [isExpired, decide_eq_true_eq] at h ⊢
  omega

/-- A time to live of `2 ^ 63` seconds and more is over at once. -/
theorem isExpired_of_large {l : LockFile} {now : DateTime} (hle : l.acquiredAt ≤ now)
    (h : 2 ^ 63 ≤ l.ttlSecs.toNat) : l.isExpired now = true := by
  have hneg : l.ttlSecs.toBitVec.toInt < 0 := by
    rw [BitVec.toInt_neg_iff]
    simpa using (by omega : 2 ^ 64 ≤ 2 * l.ttlSecs.toNat)
  have hdiv : 0 ≤ (now - l.acquiredAt).tdiv 1000000000 :=
    Int.tdiv_nonneg (Int.sub_nonneg_of_le hle) (by decide)
  simp only [isExpired, decide_eq_true_eq]
  omega

end LockFile

def defaultTtl : Duration :=
  ⟨1800, 0⟩

/-- The files of the directory; a directory that is not there has none. -/
abbrev Locks : Type :=
  HashMap String Bytes

def lockName (lockId : Uuid) : String :=
  uuidText lockId ++ ".lock"

/-- A name that begins with its only dot has no extension. -/
def hasLockExtension (name : String) : Bool :=
  (Path.stripEnd ".lock" name).any fun stem => stem ≠ ""

/-- The lock in a file, if the file is one of a lock that has not expired. -/
def activeLock (json : LockJson) (now : DateTime) (file : String × Bytes) :
    Option LockFile :=
  if hasLockExtension file.1 then
    match json.fromSlice file.2 with
    | .ok l => if l.isExpired now then none else some l
    | .error _ => none
  else none

def listActiveLocks (json : LockJson) (order : IterOrder (String × Bytes))
    (now : DateTime) (locks : Locks) : List LockFile :=
  (order.arrange (HashMap.toList locks)).filterMap (activeLock json now)

def isLocked (json : LockJson) (order : IterOrder (String × Bytes))
    (now : DateTime) (locks : Locks) : Bool :=
  (order.arrange (HashMap.toList locks)).any fun file => (activeLock json now file).isSome

/-- What a manager does after it has gone through the files: hand out a lock, or
nothing. -/
abbrev Goal : Type :=
  Option (LockOperation × Duration)

/-- How far a manager has come with its call. -/
inductive Phase
  | idle
  | scanning (rest : List String) (goal : Goal)
  | reading (name : String) (rest : List String) (goal : Goal)
  | removing (name : String) (rest : List String) (goal : Goal)
  | writing (operation : LockOperation) (timeout : Duration)
  | releasing (lockId : Uuid)

inductive Call
  | acquire (operation : LockOperation) (timeout : Duration)
  | cleanupExpired
  | release (lockId : Uuid)

abbrev ManagerId : Type := Nat

/-- The directory, the managers, the locks that they have handed out, and the
identifiers that they were called to release. -/
structure State where
  now : DateTime
  locks : Locks
  phases : ManagerId → Phase
  granted : List LockFile
  released : List Uuid

def start (now : DateTime) (locks : Locks) : State where
  now := now
  locks := locks
  phases := fun _ => .idle
  granted := []
  released := []

/-- Time passes, a manager is called, or it takes its next step; the identifier is the
one it draws if it makes a lock. -/
inductive Event
  | wait (nanos : Nat)
  | call (manager : ManagerId) (order : IterOrder (String × Bytes)) (call : Call)
  | step (manager : ManagerId) (draw : Uuid)

namespace State

def setPhase (manager : ManagerId) (phase : Phase) (s : State) : State :=
  { s with phases := Function.update s.phases manager phase }

/-- The names that a manager finds in the directory. -/
def names (order : IterOrder (String × Bytes)) (s : State) : List String :=
  (order.arrange (HashMap.toList s.locks)).map Prod.fst

/-- A manager serves one call at a time. -/
def call (manager : ManagerId) (order : IterOrder (String × Bytes)) (c : Call)
    (s : State) : State :=
  match s.phases manager with
  | .idle =>
      match c with
      | .acquire operation timeout =>
          s.setPhase manager (.scanning (s.names order) (some (operation, timeout)))
      | .cleanupExpired => s.setPhase manager (.scanning (s.names order) none)
      | .release lockId =>
          let s := { s with released := lockId :: s.released }
          if (s.locks.lookup (lockName lockId)).isSome then
            s.setPhase manager (.releasing lockId)
          else s
  | _ => s

/-- The next step of a manager.  A file that has gone since it was seen fails the
call. -/
def advance (json : LockJson) (manager : ManagerId) (draw : Uuid) (s : State) : State :=
  match s.phases manager with
  | .idle => s
  | .scanning [] none => s.setPhase manager .idle
  | .scanning [] (some (operation, timeout)) =>
      s.setPhase manager (.writing operation timeout)
  | .scanning (name :: rest) goal =>
      if (s.locks.lookup name).isSome && hasLockExtension name then
        s.setPhase manager (.reading name rest goal)
      else s.setPhase manager (.scanning rest goal)
  | .reading name rest goal =>
      match s.locks.lookup name with
      | none => s.setPhase manager .idle
      | some data =>
          match json.fromSlice data with
          | .ok l =>
              if l.isExpired s.now then s.setPhase manager (.removing name rest goal)
              else s.setPhase manager (.scanning rest goal)
          | .error _ => s.setPhase manager (.scanning rest goal)
  | .removing name rest goal =>
      match s.locks.lookup name with
      | none => s.setPhase manager .idle
      | some _ =>
          { s with locks := s.locks.erase name }.setPhase manager (.scanning rest goal)
  | .writing operation timeout =>
      let l := LockFile.new draw s.now operation timeout
      { s with
        locks := s.locks.insert (lockName draw) (json.toVecPretty l)
        granted := l :: s.granted }.setPhase manager .idle
  | .releasing lockId =>
      { s with locks := s.locks.erase (lockName lockId) }.setPhase manager .idle

def step (json : LockJson) (s : State) : Event → State
  | .wait nanos => { s with now := s.now + nanos }
  | .call manager order c => s.call manager order c
  | .step manager draw => s.advance json manager draw

def run (json : LockJson) (s : State) (events : List Event) : State :=
  events.foldl (step json) s

end State

/-- The identifiers that are drawn. -/
def Event.drawn : Event → Option Uuid
  | .wait _ => none
  | .call _ _ _ => none
  | .step _ draw => some draw

def draws (events : List Event) : List Uuid :=
  events.filterMap Event.drawn

section Names

theorem lockName_injective : Function.Injective lockName := by
  intro lockId lockId' h
  exact uuidText_injective ((String.append_left_inj _).mp h)

theorem hasLockExtension_lockName (lockId : Uuid) : hasLockExtension (lockName lockId) = true := by
  have hne : uuidText lockId ≠ "" := by
    intro h
    have hlength := length_uuidText lockId
    rw [h] at hlength
    cases hlength
  simp [hasLockExtension, lockName, Path.stripEnd_append, hne]

variable {json : LockJson} {order : IterOrder (String × Bytes)} {now : DateTime}
variable {locks : Locks} {l : LockFile}

theorem mem_listActiveLocks :
    l ∈ listActiveLocks json order now locks ↔
      ∃ name data, locks.lookup name = some data ∧ hasLockExtension name = true ∧
        json.fromSlice data = .ok l ∧ l.isExpired now = false := by
  have hactive : ∀ file : String × Bytes, activeLock json now file = some l ↔
      hasLockExtension file.1 = true ∧ json.fromSlice file.2 = .ok l ∧
        l.isExpired now = false := by
    intro file
    unfold activeLock
    by_cases hext : hasLockExtension file.1 = true
    · rw [if_pos hext]
      cases json.fromSlice file.2 with
      | error e => simp
      | ok l' =>
          by_cases hexpired : l'.isExpired now = true
          · simp only [hexpired, if_true, reduceCtorEq, Except.ok.injEq, false_iff]
            rintro ⟨-, rfl, hnot⟩
            rw [hexpired] at hnot
            cases hnot
          · simp only [hexpired, Bool.false_eq_true, if_false, Option.some.injEq,
              Except.ok.injEq]
            constructor
            · rintro rfl
              exact ⟨hext, rfl, by simpa using hexpired⟩
            · exact fun h => h.2.1
    · rw [if_neg hext]
      simp [hext]
  simp only [listActiveLocks, List.mem_filterMap, IterOrder.mem_arrange, hactive]
  constructor
  · rintro ⟨⟨name, data⟩, hmem, hname⟩
    exact ⟨name, data, HashMap.mem_toList.mp hmem, hname⟩
  · rintro ⟨name, data, hlookup, hname⟩
    exact ⟨(name, data), HashMap.mem_toList.mpr hlookup, hname⟩

/-- The directory is locked exactly if some lock is active. -/
theorem isLocked_iff :
    isLocked json order now locks = true ↔ ∃ l, l ∈ listActiveLocks json order now locks := by
  simp only [isLocked, listActiveLocks, List.any_eq_true, List.mem_filterMap,
    Option.isSome_iff_exists]
  constructor
  · rintro ⟨file, hmem, l, hl⟩
    exact ⟨l, file, hmem, hl⟩
  · rintro ⟨l, file, hmem, hl⟩
    exact ⟨file, hmem, l, hl⟩

end Names

section Runs

variable {json : LockJson} {locks₀ : Locks} {future : List Uuid} {s : State}
variable {manager : ManagerId} {phase : Phase} {events : List Event}

/-- Nobody can take away a lock that has not expired and is not to be released: it is
in its file, and no manager is about to remove that file.  The identifiers that are
still to be drawn are new. -/
structure Inv (json : LockJson) (locks₀ : Locks) (future : List Uuid) (s : State) :
    Prop where
  held : ∀ l ∈ s.granted, l.lockId ∉ s.released → l.isExpired s.now = false →
    s.locks.lookup (lockName l.lockId) = some (json.toVecPretty l)
  removing : ∀ i name rest goal, s.phases i = .removing name rest goal →
    ∀ l ∈ s.granted, name = lockName l.lockId → l.lockId ∉ s.released →
      l.isExpired s.now = true
  releasing : ∀ i lockId, s.phases i = .releasing lockId → lockId ∈ s.released
  origin : ∀ name data, s.locks.lookup name = some data →
    locks₀.lookup name = some data ∨
      ∃ l ∈ s.granted, name = lockName l.lockId ∧ data = json.toVecPretty l
  ungranted : ∀ lockId ∈ future, ∀ l ∈ s.granted, l.lockId ≠ lockId
  unused : ∀ lockId ∈ future, s.locks.lookup (lockName lockId) = none
  untouched : ∀ lockId ∈ future, ∀ i rest goal,
    s.phases i ≠ .removing (lockName lockId) rest goal

theorem inv_start {now : DateTime}
    (hnew : ∀ lockId ∈ future, locks₀.lookup (lockName lockId) = none) :
    Inv json locks₀ future (start now locks₀) where
  held := by
    intro l hl
    cases hl
  removing := by
    intro i name rest goal hphase
    cases hphase
  releasing := by
    intro i lockId hphase
    cases hphase
  origin := fun _ _ h => .inl h
  ungranted := by
    intro lockId _ l hl
    cases hl
  unused := hnew
  untouched := by
    intro lockId _ i rest goal hphase
    cases hphase

theorem Inv.mono {future' : List Uuid} (h : Inv json locks₀ future s)
    (hsub : ∀ lockId ∈ future', lockId ∈ future) : Inv json locks₀ future' s :=
  { h with
    ungranted := fun lockId hmem => h.ungranted lockId (hsub lockId hmem)
    unused := fun lockId hmem => h.unused lockId (hsub lockId hmem)
    untouched := fun lockId hmem => h.untouched lockId (hsub lockId hmem) }

theorem Inv.wait (h : Inv json locks₀ future s) (nanos : Nat) :
    Inv json locks₀ future { s with now := s.now + nanos } := by
  have hle : s.now ≤ s.now + nanos := Int.le_add_of_nonneg_right (Int.natCast_nonneg nanos)
  refine { h with held := fun l hl hnot hlive => ?_, removing := ?_ }
  · refine h.held l hl hnot ?_
    by_contra hexpired
    have hlater := LockFile.isExpired_mono hle (Bool.eq_true_of_not_eq_false hexpired)
    rw [hlive] at hlater
    cases hlater
  · intro i name rest goal hphase l hl hname hnot
    exact LockFile.isExpired_mono hle (h.removing i name rest goal hphase l hl hname hnot)

/-- A manager goes on: it is about to remove a file only if the lock in it has
expired, and to release only what it was called for. -/
theorem Inv.setPhase (h : Inv json locks₀ future s)
    (hremoving : ∀ name rest goal, phase = .removing name rest goal →
      (∀ l ∈ s.granted, name = lockName l.lockId → l.lockId ∉ s.released →
        l.isExpired s.now = true) ∧ ∀ lockId ∈ future, name ≠ lockName lockId)
    (hreleasing : ∀ lockId, phase = .releasing lockId → lockId ∈ s.released) :
    Inv json locks₀ future (s.setPhase manager phase) := by
  have hphases : ∀ i, (s.setPhase manager phase).phases i = phase ∨
      (s.setPhase manager phase).phases i = s.phases i := by
    intro i
    unfold State.setPhase
    by_cases hi : i = manager
    · rw [hi]
      exact .inl (Function.update_self ..)
    · exact .inr (Function.update_of_ne hi ..)
  refine { h with removing := ?_, releasing := ?_, untouched := ?_ }
  · intro i name rest goal hphase
    rcases hphases i with hnew | hold
    · exact (hremoving name rest goal (hnew.symm.trans hphase)).1
    · exact h.removing i name rest goal (hold.symm.trans hphase)
  · intro i lockId hphase
    rcases hphases i with hnew | hold
    · exact hreleasing lockId (hnew.symm.trans hphase)
    · exact h.releasing i lockId (hold.symm.trans hphase)
  · intro lockId hmem i rest goal hphase
    rcases hphases i with hnew | hold
    · exact (hremoving _ rest goal (hnew.symm.trans hphase)).2 lockId hmem rfl
    · exact h.untouched lockId hmem i rest goal (hold.symm.trans hphase)

/-- The phases in which a manager does not delete a file next. -/
def Phase.Quiet : Phase → Prop
  | .removing _ _ _ => False
  | .releasing _ => False
  | _ => True

theorem Inv.setQuiet (h : Inv json locks₀ future s) (hquiet : phase.Quiet) :
    Inv json locks₀ future (s.setPhase manager phase) := by
  refine h.setPhase (fun name rest goal heq => ?_) (fun lockId heq => ?_)
  · rw [heq] at hquiet
    exact hquiet.elim
  · rw [heq] at hquiet
    exact hquiet.elim

/-- A file goes whose lock has expired, or is to be released. -/
theorem Inv.erase (h : Inv json locks₀ future s) {name : String}
    (hname : ∀ l ∈ s.granted, name = lockName l.lockId → l.lockId ∉ s.released →
      l.isExpired s.now = true) :
    Inv json locks₀ future { s with locks := s.locks.erase name } := by
  refine { h with held := ?_, origin := ?_, unused := ?_ }
  · intro l hl hnot hlive
    rw [HashMap.lookup_erase_of, if_neg]
    · exact h.held l hl hnot hlive
    · intro heq
      rw [hname l hl heq.symm hnot] at hlive
      cases hlive
  · intro name' data hlookup
    exact h.origin name' data (HashMap.lookup_erase_eq_some.mp hlookup).2
  · intro lockId hmem
    rw [HashMap.lookup_erase_of, h.unused lockId hmem, ite_self]

/-- A lock is handed out under an identifier that nobody has used. -/
theorem Inv.grant {draw : Uuid} (h : Inv json locks₀ (draw :: future) s)
    (hnew : draw ∉ future) {l : LockFile} (hl : l.lockId = draw) :
    Inv json locks₀ future
      { s with
        locks := s.locks.insert (lockName draw) (json.toVecPretty l)
        granted := l :: s.granted } where
  held := by
    intro l' hl' hnot hlive
    rw [HashMap.lookup_insert_of]
    rcases List.mem_cons.mp hl' with heq | hold
    · rw [heq, hl, if_pos rfl]
    · rw [if_neg fun heq => h.ungranted draw List.mem_cons_self l' hold
        (lockName_injective heq)]
      exact h.held l' hold hnot hlive
  removing := by
    intro i name rest goal hphase l' hl' hname hnot
    rcases List.mem_cons.mp hl' with heq | hold
    · rw [heq, hl] at hname
      rw [hname] at hphase
      exact absurd hphase (h.untouched draw List.mem_cons_self i rest goal)
    · exact h.removing i name rest goal hphase l' hold hname hnot
  releasing := h.releasing
  origin := by
    intro name data hlookup
    rcases HashMap.lookup_insert_eq_some.mp hlookup with ⟨hname, hdata⟩ | ⟨-, hold⟩
    · exact .inr ⟨l, List.mem_cons_self, by rw [hl]; exact hname, hdata⟩
    · rcases h.origin name data hold with hfirst | ⟨l', hl', hname⟩
      · exact .inl hfirst
      · exact .inr ⟨l', List.mem_cons_of_mem _ hl', hname⟩
  ungranted := by
    intro lockId hmem l' hl'
    rcases List.mem_cons.mp hl' with heq | hold
    · rw [heq, hl]
      exact fun heq => hnew (heq ▸ hmem)
    · exact h.ungranted lockId (List.mem_cons_of_mem _ hmem) l' hold
  unused := by
    intro lockId hmem
    have hne : lockName lockId ≠ lockName draw := by
      intro heq
      obtain rfl := lockName_injective heq
      exact hnew hmem
    rw [HashMap.lookup_insert_of, if_neg hne]
    exact h.unused lockId (List.mem_cons_of_mem _ hmem)
  untouched := fun lockId hmem => h.untouched lockId (List.mem_cons_of_mem _ hmem)

theorem Inv.call (h : Inv json locks₀ future s) (order : IterOrder (String × Bytes))
    (c : Call) : Inv json locks₀ future (s.call manager order c) := by
  unfold State.call
  split
  · cases c with
    | acquire operation timeout => exact h.setQuiet trivial
    | cleanupExpired => exact h.setQuiet trivial
    | release lockId =>
        have hreleased : Inv json locks₀ future
            { s with released := lockId :: s.released } :=
          { h with
            held := fun l hl hnot => h.held l hl (List.not_mem_of_not_mem_cons hnot)
            removing := fun i name rest goal hphase l hl hname hnot =>
              h.removing i name rest goal hphase l hl hname
                (List.not_mem_of_not_mem_cons hnot)
            releasing := fun i lockId' hphase =>
              List.mem_cons_of_mem _ (h.releasing i lockId' hphase) }
        simp only
        split
        · refine hreleased.setPhase (fun name rest goal heq => ?_) (fun lockId' heq => ?_)
          · cases heq
          · obtain rfl := Phase.releasing.inj heq
            exact List.mem_cons_self
        · exact hreleased
  · exact h

/-- What a manager has read of an expired lock is the file of an expired lock still
when it removes it. -/
theorem Inv.read (h : Inv json locks₀ future s) {name : String} {data : Bytes}
    {l : LockFile} (hjson : ∀ l ∈ s.granted, json.fromSlice (json.toVecPretty l) = .ok l)
    (hlookup : s.locks.lookup name = some data) (hread : json.fromSlice data = .ok l)
    (hexpired : l.isExpired s.now = true) (rest : List String) (goal : Goal) :
    Inv json locks₀ future (s.setPhase manager (.removing name rest goal)) := by
  refine h.setPhase (fun name' rest' goal' heq => ?_) (fun lockId heq => by cases heq)
  obtain ⟨rfl, -, -⟩ := Phase.removing.inj heq
  refine ⟨fun l' hl' hname hnot => ?_, fun lockId hmem hname => ?_⟩
  · by_contra hlive
    have hheld := h.held l' hl' hnot (Bool.eq_false_of_not_eq_true hlive)
    rw [← hname, hlookup, Option.some.injEq] at hheld
    rw [hheld, hjson l' hl', Except.ok.injEq] at hread
    rw [hread] at hlive
    exact hlive hexpired
  · have hnone := h.unused lockId hmem
    rw [← hname, hlookup] at hnone
    cases hnone

theorem Inv.advance {draw : Uuid} (h : Inv json locks₀ (draw :: future) s)
    (hnew : draw ∉ future)
    (hjson : ∀ l ∈ s.granted, json.fromSlice (json.toVecPretty l) = .ok l) :
    Inv json locks₀ future (s.advance json manager draw) := by
  have hless : Inv json locks₀ future s :=
    h.mono fun lockId hmem => List.mem_cons_of_mem _ hmem
  unfold State.advance
  split
  · exact hless
  · exact hless.setQuiet trivial
  · exact hless.setQuiet trivial
  · split
    · exact hless.setQuiet trivial
    · exact hless.setQuiet trivial
  · split
    · exact hless.setQuiet trivial
    · next data hlookup =>
        split
        · next l hread =>
            split
            · next hexpired => exact hless.read hjson hlookup hread hexpired _ _
            · exact hless.setQuiet trivial
        · exact hless.setQuiet trivial
  · next name rest goal hphase =>
      split
      · exact hless.setQuiet trivial
      · refine Inv.setQuiet (hless.erase fun l hl hname hnot => ?_) trivial
        exact hless.removing manager name rest goal hphase l hl hname hnot
  · exact Inv.setQuiet (h.grant hnew rfl) trivial
  · next lockId hphase =>
      refine Inv.setQuiet (hless.erase fun l hl hname hnot => ?_) trivial
      have hreleased := hless.releasing manager lockId hphase
      rw [lockName_injective hname] at hreleased
      exact absurd hreleased hnot

theorem Inv.step {event : Event} (h : Inv json locks₀ (draws (event :: events)) s)
    (hnodup : (draws (event :: events)).Nodup)
    (hjson : ∀ l ∈ s.granted, json.fromSlice (json.toVecPretty l) = .ok l) :
    Inv json locks₀ (draws events) (s.step json event) := by
  cases event with
  | wait nanos => exact h.wait nanos
  | call manager order c => exact h.call order c
  | step manager draw => exact Inv.advance h (List.nodup_cons.mp hnodup).1 hjson

/-- What was handed out stays on record. -/
theorem mem_granted_step {l : LockFile} (hl : l ∈ s.granted) (event : Event) :
    l ∈ (s.step json event).granted := by
  cases event with
  | wait nanos => exact hl
  | call manager order c =>
      simp only [State.step, State.call]
      repeat' split
      all_goals exact hl
  | step manager draw =>
      simp only [State.step, State.advance]
      repeat' split
      all_goals first
        | exact hl
        | exact List.mem_cons_of_mem _ hl

theorem mem_granted_run {l : LockFile} (events : List Event) :
    ∀ {s : State}, l ∈ s.granted → l ∈ (s.run json events).granted := by
  induction events with
  | nil => exact fun hl => hl
  | cons event events ih => exact fun hl => ih (mem_granted_step hl event)

theorem inv_run (events : List Event) :
    ∀ {s : State}, Inv json locks₀ (draws events) s → (draws events).Nodup →
      (∀ l ∈ (s.run json events).granted, json.fromSlice (json.toVecPretty l) = .ok l) →
      Inv json locks₀ [] (s.run json events) := by
  induction events with
  | nil => exact fun h _ _ => h
  | cons event events ih =>
      intro s h hnodup hjson
      have hless : (draws events).Nodup :=
        hnodup.sublist (List.Sublist.filterMap _ (List.sublist_cons_self event events))
      refine ih (h.step hnodup fun l hl => ?_) hless hjson
      exact hjson l (mem_granted_run events (mem_granted_step hl event))

/-- At every moment of a run of any number of managers the active locks are those that
were handed out and have not expired, apart from locks that somebody was called to
release and those that were there before; nobody else takes a lock away. -/
theorem mem_listActiveLocks_run (json : LockJson) (order : IterOrder (String × Bytes))
    (now : DateTime) (locks : Locks) (events : List Event) (l : LockFile)
    (hnodup : (draws events).Nodup)
    (hnew : ∀ lockId ∈ draws events, locks.lookup (lockName lockId) = none)
    (hjson : ∀ l ∈ ((start now locks).run json events).granted,
      json.fromSlice (json.toVecPretty l) = .ok l)
    (hreleased : l.lockId ∉ ((start now locks).run json events).released)
    (hbefore : ∀ name data, locks.lookup name = some data → json.fromSlice data ≠ .ok l) :
    l ∈ listActiveLocks json order ((start now locks).run json events).now
        ((start now locks).run json events).locks ↔
      l ∈ ((start now locks).run json events).granted ∧
        l.isExpired ((start now locks).run json events).now = false := by
  have h := inv_run events (inv_start hnew) hnodup hjson
  rw [mem_listActiveLocks]
  constructor
  · rintro ⟨name, data, hlookup, -, hread, hlive⟩
    rcases h.origin name data hlookup with hfirst | ⟨l', hl', -, hdata⟩
    · exact absurd hread (hbefore name data hfirst)
    · rw [hdata, hjson l' hl', Except.ok.injEq] at hread
      exact ⟨hread ▸ hl', hlive⟩
  · rintro ⟨hl, hlive⟩
    exact ⟨lockName l.lockId, _, h.held l hl hreleased hlive,
      hasLockExtension_lockName l.lockId, hjson l hl, hlive⟩

end Runs

section Example

open Lib.JsonText

/-- The indented text of a lock file. -/
def lockText (l : LockFile) : String :=
  let member (name text : String) := "  " ++ quote name ++ ": " ++ text
  "\x7b\n" ++ String.intercalate ",\n" [
    member "lock_id" (quote (uuidText l.lockId)),
    member "holder" (quote l.holder),
    member "acquired_at" (time l.acquiredAt),
    member "ttl_secs" (toString l.ttlSecs.toNat),
    member "operation" (quote l.operation)] ++ "\n\x7d"

/-- The text of a lock begins with its identifier. -/
theorem exists_lockText_eq (l : LockFile) :
    ∃ rest, lockText l = "\x7b\n" ++ ("  " ++ quote "lock_id" ++ ": " ++ "\"" ++
      (uuidText l.lockId ++ rest)) := by
  simp only [lockText, String.intercalate_cons_cons, quote_uuidText,
    String.append_assoc]
  exact ⟨_, rfl⟩

theorem lockId_eq_of_lockText_eq {l l' : LockFile} (h : lockText l = lockText l') :
    l.lockId = l'.lockId := by
  obtain ⟨rest, htext⟩ := exists_lockText_eq l
  obtain ⟨rest', htext'⟩ := exists_lockText_eq l'
  rw [htext, htext', String.append_right_inj, String.append_right_inj] at h
  have hlist := congrArg String.toList h
  rw [String.toList_append, String.toList_append] at hlist
  have hlength := (length_uuidText l.lockId).trans (length_uuidText l'.lockId).symm
  exact uuidText_injective
    (String.toList_injective (List.append_inj hlist hlength).1)

/-- A lock for a minute. -/
def shortLock : LockFile :=
  .new 2 1700000000000000000 .verify ⟨60, 0⟩

def backupLock : LockFile :=
  .new 9 1700000100000000000 .backup defaultTtl

/-- JSON with a reader that knows the texts of these locks. -/
def exampleJson : LockJson where
  toVecPretty := fun l => Hex.utf8 (lockText l)
  fromSlice := fun data =>
    if data = Hex.utf8 (lockText backupLock) then .ok backupLock
    else if data = Hex.utf8 (lockText shortLock) then .ok shortLock
    else .error "expected value at line 1 column 1"

/-- A manager acquires a lock, which expires.  It acquires another one while a second
manager cleans up, and a second cleanup comes upon that one. -/
def exampleEvents : List Event :=
  [.call 0 .asStored (.acquire .verify ⟨60, 0⟩), .step 0 1, .step 0 2,
    .wait 100000000000,
    .call 0 .asStored (.acquire .backup defaultTtl), .call 1 .asStored .cleanupExpired,
    .step 1 3, .step 1 4, .step 1 5, .step 0 6, .step 0 7, .step 1 8, .step 0 9,
    .call 1 .asStored .cleanupExpired, .step 1 10, .step 1 11, .step 1 12,
    .wait 100000000000]

theorem run_exampleEvents {json : LockJson}
    (hshort : json.fromSlice (json.toVecPretty shortLock) = .ok shortLock)
    (hbackup : json.fromSlice (json.toVecPretty backupLock) = .ok backupLock) :
    let final := (start 1700000000000000000 ∅).run json exampleEvents
    final.granted = [backupLock, shortLock] ∧ final.released = [] ∧
      final.now = 1700000200000000000 := by
  have hexpired : shortLock.isExpired 1700000100000000000 = true := by decide
  have hlive : backupLock.isExpired 1700000100000000000 = false := by decide
  have hnewShort : LockFile.new 2#128 1700000000000000000 .verify ⟨60, 0⟩ =
      shortLock := rfl
  have hnewBackup : LockFile.new 9#128 1700000100000000000 .backup defaultTtl =
      backupLock := rfl
  have hlookup : ∀ name data, (AList.singleton name data : Locks).lookup name =
      some data := fun name data => AList.lookup_insert ∅
  have herase : ∀ name data, (AList.singleton name data : Locks).erase name = ∅ :=
    fun name data => AList.ext (List.kerase_cons_eq rfl)
  simp [exampleEvents, State.run, State.step, State.call, State.advance, start,
    State.setPhase, State.names, IterOrder.asStored, HashMap.toList, hasLockExtension_lockName,
    hexpired, hlive, hshort, hbackup, hnewShort, hnewBackup, hlookup, herase]

/-- JSON reads both locks. -/
theorem fromSlice_exampleJson :
    exampleJson.fromSlice (exampleJson.toVecPretty shortLock) = .ok shortLock ∧
      exampleJson.fromSlice (exampleJson.toVecPretty backupLock) = .ok backupLock := by
  have hne : Hex.utf8 (lockText shortLock) ≠ Hex.utf8 (lockText backupLock) := by
    intro heq
    have hid : shortLock.lockId = backupLock.lockId :=
      lockId_eq_of_lockText_eq (Hex.utf8_injective heq)
    exact absurd hid (by decide)
  constructor
  · simp [exampleJson, hne]
  · simp [exampleJson]

/-- The lock of the backup is active, the other one is not. -/
theorem backupLock_active :
    backupLock ∈ listActiveLocks exampleJson .asStored
        ((start 1700000000000000000 ∅).run exampleJson exampleEvents).now
        ((start 1700000000000000000 ∅).run exampleJson exampleEvents).locks ∧
      shortLock ∉ listActiveLocks exampleJson .asStored
        ((start 1700000000000000000 ∅).run exampleJson exampleEvents).now
        ((start 1700000000000000000 ∅).run exampleJson exampleEvents).locks := by
  obtain ⟨hgranted, hreleased, hnow⟩ :=
    run_exampleEvents fromSlice_exampleJson.1 fromSlice_exampleJson.2
  have hjson : ∀ l ∈ ((start 1700000000000000000 ∅).run exampleJson
      exampleEvents).granted,
      exampleJson.fromSlice (exampleJson.toVecPretty l) = .ok l := by
    rw [hgranted]
    intro l hl
    rcases List.mem_cons.mp hl with rfl | hl
    · exact fromSlice_exampleJson.2
    · rw [List.mem_singleton.mp hl]
      exact fromSlice_exampleJson.1
  have hactive : ∀ l, l ∈ listActiveLocks exampleJson .asStored
        ((start 1700000000000000000 ∅).run exampleJson exampleEvents).now
        ((start 1700000000000000000 ∅).run exampleJson exampleEvents).locks ↔
      l ∈ [backupLock, shortLock] ∧ l.isExpired 1700000200000000000 = false := by
    intro l
    rw [mem_listActiveLocks_run exampleJson .asStored _ ∅ exampleEvents l
      (by decide) (fun _ _ => rfl) hjson (by simp [hreleased])
      (fun name data h => by cases h), hgranted, hnow]
  constructor
  · exact (hactive backupLock).mpr ⟨List.mem_cons_self, by decide⟩
  · intro hmem
    exact absurd ((hactive shortLock).mp hmem).2 (by decide)

end Example

end LockManager
end Agent
end HyperBackup
