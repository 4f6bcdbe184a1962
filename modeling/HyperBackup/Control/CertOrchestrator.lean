import HyperBackup.Domain
import HyperBackup.Lib.HashMap
import HyperBackup.Lib.Runs

/-!
# Certification sessions

A call of `StartGate` checks under the lock that its gate has no active session,
inserts the row of a new session into the database, and registers the session
under the lock.  `CompleteSession` updates the row and then takes the session
out of the register.  The steps of any number of calls interleave.

The lock is not held from the check to the registration, and an update that
fails is not noticed.  The main result says that sessions of one gate exclude
each other along every run in which no row is inserted for a gate that has been
taken since the check, and in which no update fails.
-/

namespace HyperBackup
namespace Control
namespace CertOrchestrator

open Lib Lib.Runs

abbrev CertGate : Type := String

abbrev SessionId : Type := String

/-- The detail of a session is the message of an error, as JSON. -/
structure CertSession where
  sessionId : SessionId
  gate : CertGate
  status : String
  operator : String
  startedAt : DateTime
  completedAt : Option DateTime
  detail : Option String
deriving DecidableEq

/-- How far a call of `StartGate` has come. -/
inductive Start
  | checked (gate : CertGate) (operator : String)
  | inserted (gate : CertGate) (sessionId : SessionId)
  | returned (result : Except String SessionId)

/-- The orchestrator and its database, the calls of `StartGate`, the calls of
`CompleteSession` that have executed their update, and the sessions whose run
has started and whose completion has not ended. -/
structure World where
  runners : List CertGate
  activeSessions : HashMap CertGate SessionId
  certSessions : HashMap SessionId CertSession
  starts : HashMap Nat Start
  completions : HashMap Nat SessionId
  unfinished : HashMap SessionId CertGate

def new : World where
  runners := []
  activeSessions := ∅
  certSessions := ∅
  starts := ∅
  completions := ∅
  unfinished := ∅

/-- The steps of the calls.  A statement of the database is executed or fails;
identifiers and times are drawn beforehand. -/
inductive Action
  | registerRunner (gate : CertGate)
  | check (call : Nat) (gate : CertGate) (operator : String)
  | insert (call : Nat) (sessionId : SessionId) (now : DateTime)
      (result : Except String Unit)
  | register (call : Nat)
  | update (call : Nat) (sessionId : SessionId) (now : DateTime)
      (runErr : Option String) (result : Except String Unit)
  | remove (call : Nat)

/-- What the check of a call finds. -/
def checkGate (gate : CertGate) (operator : String) (w : World) : Start :=
  if gate ∉ w.runners then
    .returned (.error "certorch: gate runner not registered")
  else
    match w.activeSessions.lookup gate with
    | some _ =>
        .returned (.error "certorch: session already active for this gate")
    | none => .checked gate operator

/-- A new call checks its gate. -/
def check (call : Nat) (gate : CertGate) (operator : String) (w : World) : World :=
  match w.starts.lookup call with
  | none => { w with starts := w.starts.insert call (checkGate gate operator w) }
  | some _ => w

/-- The row of a session that has just begun. -/
def newSession (sessionId : SessionId) (gate : CertGate) (operator : String)
    (now : DateTime) : CertSession where
  sessionId := sessionId
  gate := gate
  status := "running"
  operator := operator
  startedAt := now
  completedAt := none
  detail := none

def insert (call : Nat) (sessionId : SessionId) (now : DateTime)
    (result : Except String Unit) (w : World) : World :=
  match w.starts.lookup call with
  | some (.checked gate operator) =>
      match result with
      | .error err =>
          { w with starts := w.starts.insert call (.returned (.error err)) }
      | .ok () =>
          { w with
            certSessions := w.certSessions.insert sessionId
              (newSession sessionId gate operator now)
            starts := w.starts.insert call (.inserted gate sessionId) }
  | _ => w

/-- With the registration the run of the session starts. -/
def register (call : Nat) (w : World) : World :=
  match w.starts.lookup call with
  | some (.inserted gate sessionId) =>
      { w with
        activeSessions := w.activeSessions.insert gate sessionId
        starts := w.starts.insert call (.returned (.ok sessionId))
        unfinished := w.unfinished.insert sessionId gate }
  | _ => w

/-- The row of a session whose run has ended. -/
def completed (marshal : String → String) (now : DateTime)
    (runErr : Option String) (row : CertSession) : CertSession :=
  { row with
    status := if runErr.isSome then "failed" else "completed"
    completedAt := some now
    detail := (runErr.map marshal).or row.detail }

def update (marshal : String → String) (call : Nat) (sessionId : SessionId)
    (now : DateTime) (runErr : Option String) (result : Except String Unit)
    (w : World) : World :=
  match w.completions.lookup call with
  | none =>
      { w with
        certSessions :=
          match result with
          | .ok () =>
              HashMap.modify w.certSessions sessionId (completed marshal now runErr)
          | .error _ => w.certSessions
        completions := w.completions.insert call sessionId }
  | some _ => w

def remove (call : Nat) (w : World) : World :=
  match w.completions.lookup call with
  | some sessionId =>
      { w with
        activeSessions :=
          HashMap.retain (fun _ sid => sid ≠ sessionId) w.activeSessions
        completions := w.completions.erase call
        unfinished := w.unfinished.erase sessionId }
  | none => w

def querySession (sessionId : SessionId) (w : World) : Except String CertSession :=
  match w.certSessions.lookup sessionId with
  | some row => .ok row
  | none =>
      .error ("certorch: certification session not found: " ++ sessionId)

def step (marshal : String → String) (w : World) : Action → World
  | .registerRunner gate => { w with runners := gate :: w.runners }
  | .check call gate operator => check call gate operator w
  | .insert call sessionId now result => insert call sessionId now result w
  | .register call => register call w
  | .update call sessionId now runErr result =>
      update marshal call sessionId now runErr result w
  | .remove call => remove call w

/-- A gate has one running session at most, and shows one at most. -/
structure Exclusive (w : World) : Prop where
  runs : ∀ sid sid' gate, w.unfinished.lookup sid = some gate →
    w.unfinished.lookup sid' = some gate → sid = sid'
  shown : ∀ sid sid' row row', querySession sid w = .ok row →
    querySession sid' w = .ok row' → row.status = "running" →
      row'.status = "running" → row.gate = row'.gate → sid = sid'

/-- A drawn identifier is not in use. -/
def DrawsFresh (w : World) : Action → Prop
  | .insert _ sessionId _ _ =>
      w.certSessions.lookup sessionId = none ∧
        ∀ call, w.completions.lookup call ≠ some sessionId
  | _ => True

/-- A row is inserted only if the gate has no active session and no other call
is about to register one; no update fails. -/
def Undisturbed (w : World) : Action → Prop
  | .insert call _ _ (.ok ()) =>
      ∀ gate operator, w.starts.lookup call = some (.checked gate operator) →
        w.activeSessions.lookup gate = none ∧
          ∀ other sid, w.starts.lookup other ≠ some (.inserted gate sid)
  | .update _ _ _ _ result => result = .ok ()
  | _ => True

section Invariant

/-- The call has inserted a row and not registered its session. -/
def World.Pending (w : World) (call : Nat) (gate : CertGate) (sid : SessionId) :
    Prop :=
  w.starts.lookup call = some (.inserted gate sid)

/-- A running row belongs to a call that is about to register it or to the
active session of its gate. -/
structure Inv (w : World) : Prop where
  registered : ∀ sid gate, w.unfinished.lookup sid = some gate →
    w.activeSessions.lookup gate = some sid
  owned : ∀ sid row, w.certSessions.lookup sid = some row →
    row.status = "running" →
      (∃ call, w.Pending call row.gate sid) ∨
        w.activeSessions.lookup row.gate = some sid
  single : ∀ call call' gate sid sid', w.Pending call gate sid →
    w.Pending call' gate sid' → call = call'
  vacant : ∀ call gate sid, w.Pending call gate sid →
    w.activeSessions.lookup gate = none
  closed : ∀ call sid row, w.completions.lookup call = some sid →
    w.certSessions.lookup sid = some row → row.status ≠ "running"

variable {marshal : String → String} {w w' : World} {call : Nat}
variable {gate : CertGate} {operator : String} {sid : SessionId} {now : DateTime}

theorem inv_new : Inv new where
  registered := fun sid gate h => by cases h
  owned := fun sid row h => by cases h
  single := fun call call' gate sid sid' h => by cases h
  vacant := fun call gate sid h => by cases h
  closed := fun call sid row h => by cases h

/-- A call that has not inserted a row, and does not, changes nothing. -/
theorem Inv.of_starts (h : Inv w) {start : Start}
    (hnow : ∀ gate sid, start ≠ .inserted gate sid)
    (hbefore : ∀ gate sid, ¬ w.Pending call gate sid) :
    Inv { w with starts := w.starts.insert call start } := by
  have hpending : ∀ other gate sid,
      World.Pending { w with starts := w.starts.insert call start } other gate sid ↔
        w.Pending other gate sid := by
    intro other gate sid
    unfold World.Pending
    rw [HashMap.lookup_insert_of]
    by_cases hother : other = call
    · subst hother
      rw [if_pos rfl]
      exact iff_of_false (fun heq => hnow gate sid (Option.some.inj heq))
        (hbefore gate sid)
    · rw [if_neg hother]
  refine ⟨h.registered, fun sid row hrow hrunning => ?_, ?_, ?_, h.closed⟩
  · rcases h.owned sid row hrow hrunning with ⟨other, hother⟩ | hactive
    · exact Or.inl ⟨other, (hpending other row.gate sid).mpr hother⟩
    · exact Or.inr hactive
  · intro c c' gate sid sid' hc hc'
    exact h.single c c' gate sid sid' ((hpending _ _ _).mp hc) ((hpending _ _ _).mp hc')
  · intro c gate sid hc
    exact h.vacant c gate sid ((hpending _ _ _).mp hc)

theorem inv_check (h : Inv w) : Inv (check call gate operator w) := by
  unfold check
  cases hcall : w.starts.lookup call with
  | some start =>
      exact h
  | none =>
      refine h.of_starts (fun gate' sid' => ?_) (fun gate' sid' hpending => ?_)
      · unfold checkGate
        split
        · exact Start.noConfusion
        · split <;> exact Start.noConfusion
      · rw [World.Pending, hcall] at hpending
        cases hpending

theorem inv_insert_row (h : Inv w) (hfresh : ∀ call, w.completions.lookup call ≠ some sid)
    (hcall : w.starts.lookup call = some (.checked gate operator))
    (hactive : w.activeSessions.lookup gate = none)
    (halone : ∀ other sid, ¬ w.Pending other gate sid) :
    Inv { w with
      certSessions := w.certSessions.insert sid (newSession sid gate operator now)
      starts := w.starts.insert call (.inserted gate sid) } := by
  have hpending : ∀ other gate' sid',
      (w.starts.insert call (.inserted gate sid)).lookup other =
          some (.inserted gate' sid') →
        (other = call ∧ gate' = gate ∧ sid' = sid) ∨
          other ≠ call ∧ w.Pending other gate' sid' := by
    intro other gate' sid' heq
    rcases HashMap.lookup_insert_eq_some.mp heq with ⟨hother, hnew⟩ | hold
    · exact Or.inl ⟨hother, Start.inserted.inj hnew⟩
    · exact Or.inr hold
  refine ⟨h.registered, fun sid' row hrow hrunning => ?_, ?_, ?_, ?_⟩
  · rcases HashMap.lookup_insert_eq_some.mp hrow with ⟨rfl, rfl⟩ | ⟨-, hold⟩
    · exact Or.inl ⟨call, HashMap.lookup_insert_eq_some.mpr (Or.inl ⟨rfl, rfl⟩)⟩
    · rcases h.owned sid' row hold hrunning with ⟨other, hother⟩ | hregistered
      · have hne : other ≠ call := by
          rintro rfl
          rw [World.Pending, hcall] at hother
          cases hother
        exact Or.inl ⟨other, HashMap.lookup_insert_eq_some.mpr (Or.inr ⟨hne, hother⟩)⟩
      · exact Or.inr hregistered
  · intro c c' gate' sid₁ sid₂ hc hc'
    rcases hpending c gate' sid₁ hc with ⟨rfl, rfl, -⟩ | ⟨-, hold⟩
    · rcases hpending c' gate' sid₂ hc' with ⟨rfl, -, -⟩ | ⟨-, hold'⟩
      · rfl
      · exact absurd hold' (halone c' sid₂)
    · rcases hpending c' gate' sid₂ hc' with ⟨-, rfl, -⟩ | ⟨-, hold'⟩
      · exact absurd hold (halone c sid₁)
      · exact h.single c c' gate' sid₁ sid₂ hold hold'
  · intro c gate' sid' hc
    rcases hpending c gate' sid' hc with ⟨-, rfl, -⟩ | ⟨-, hold⟩
    · exact hactive
    · exact h.vacant c gate' sid' hold
  · intro c sid' row hc hrow
    have hne : sid' ≠ sid := by
      rintro rfl
      exact hfresh c hc
    rw [HashMap.lookup_insert_of, if_neg hne] at hrow
    exact h.closed c sid' row hc hrow

theorem inv_insert {result : Except String Unit} (h : Inv w)
    (hfresh : DrawsFresh w (.insert call sid now result))
    (hquiet : Undisturbed w (.insert call sid now result)) :
    Inv (insert call sid now result w) := by
  unfold insert
  split
  next gate operator hcall =>
    cases result with
    | error err =>
        refine h.of_starts (fun _ _ => Start.noConfusion) (fun gate' sid' hpending => ?_)
        rw [World.Pending, hcall] at hpending
        cases hpending
    | ok _ =>
        obtain ⟨hactive, halone⟩ := hquiet gate operator hcall
        exact inv_insert_row h hfresh.2 hcall hactive halone
  next =>
    exact h

theorem inv_register (h : Inv w) : Inv (register call w) := by
  unfold register
  split
  next gate sid hcall =>
    have hvacant := h.vacant call gate sid hcall
    have hpending : ∀ other gate' sid',
        (w.starts.insert call (.returned (.ok sid))).lookup other =
            some (.inserted gate' sid') →
          gate' ≠ gate ∧ w.Pending other gate' sid' := by
      intro other gate' sid' heq
      rcases HashMap.lookup_insert_eq_some.mp heq with ⟨-, hnew⟩ | ⟨hother, hold⟩
      · cases hnew
      · refine ⟨?_, hold⟩
        rintro rfl
        exact hother (h.single other call gate' sid' sid hold hcall)
    have hkept : ∀ gate' sid', w.activeSessions.lookup gate' = some sid' →
        (w.activeSessions.insert gate sid).lookup gate' = some sid' := by
      intro gate' sid' hregistered
      refine HashMap.lookup_insert_eq_some.mpr (Or.inr ⟨?_, hregistered⟩)
      rintro rfl
      rw [hvacant] at hregistered
      cases hregistered
    refine ⟨fun sid' gate' hsid' => ?_, fun sid' row hrow hrunning => ?_,
      fun c c' gate' sid₁ sid₂ hc hc' => ?_, fun c gate' sid' hc => ?_, h.closed⟩
    · rcases HashMap.lookup_insert_eq_some.mp hsid' with ⟨rfl, rfl⟩ | ⟨-, hold⟩
      · exact HashMap.lookup_insert_eq_some.mpr (Or.inl ⟨rfl, rfl⟩)
      · exact hkept gate' sid' (h.registered sid' gate' hold)
    · rcases h.owned sid' row hrow hrunning with ⟨other, hother⟩ | hregistered
      · by_cases heq : other = call
        · subst heq
          obtain ⟨hgate, hsid⟩ :=
            Start.inserted.inj (Option.some.inj (hcall.symm.trans hother))
          exact Or.inr (HashMap.lookup_insert_eq_some.mpr (Or.inl ⟨hgate.symm, hsid.symm⟩))
        · exact Or.inl ⟨other, HashMap.lookup_insert_eq_some.mpr (Or.inr ⟨heq, hother⟩)⟩
      · exact Or.inr (hkept row.gate sid' hregistered)
    · exact h.single c c' gate' sid₁ sid₂ (hpending _ _ _ hc).2 (hpending _ _ _ hc').2
    · obtain ⟨hne, hold⟩ := hpending c gate' sid' hc
      rw [HashMap.lookup_insert_of, if_neg hne]
      exact h.vacant c gate' sid' hold
  next =>
    exact h

/-- A completed row is not running, and keeps its gate. -/
theorem status_completed (runErr : Option String) (row : CertSession) :
    (completed marshal now runErr row).status ≠ "running" ∧
      (completed marshal now runErr row).gate = row.gate := by
  refine ⟨?_, rfl⟩
  cases runErr with
  | none =>
      exact (by decide : "completed" ≠ "running")
  | some err =>
      exact (by decide : "failed" ≠ "running")

theorem inv_update {runErr : Option String} (h : Inv w) :
    Inv (update marshal call sid now runErr (.ok ()) w) := by
  unfold update
  cases hcall : w.completions.lookup call with
  | some other =>
      exact h
  | none =>
      have hrows : ∀ sid' row,
          (HashMap.modify w.certSessions sid (completed marshal now runErr)).lookup sid' =
              some row →
            row.status ≠ "running" ∧ sid' = sid ∨
              sid' ≠ sid ∧ w.certSessions.lookup sid' = some row := by
        intro sid' row hrow
        rw [HashMap.lookup_modify] at hrow
        by_cases hsid : sid' = sid
        · rw [if_pos hsid] at hrow
          obtain ⟨old, -, rfl⟩ := Option.map_eq_some_iff.mp hrow
          exact Or.inl ⟨(status_completed runErr old).1, hsid⟩
        · rw [if_neg hsid] at hrow
          exact Or.inr ⟨hsid, hrow⟩
      refine ⟨h.registered, fun sid' row hrow hrunning => ?_, h.single, h.vacant,
        fun c sid' row hc hrow => ?_⟩
      · rcases hrows sid' row hrow with ⟨hstopped, -⟩ | ⟨-, hold⟩
        · exact absurd hrunning hstopped
        · exact h.owned sid' row hold hrunning
      · rcases hrows sid' row hrow with ⟨hstopped, -⟩ | ⟨hne, hold⟩
        · exact hstopped
        · rcases HashMap.lookup_insert_eq_some.mp hc with ⟨-, heq⟩ | ⟨-, hc'⟩
          · exact absurd heq hne
          · exact h.closed c sid' row hc' hold

theorem inv_remove (h : Inv w) : Inv (remove call w) := by
  unfold remove
  split
  next sid hcall =>
    have hkept : ∀ gate sid', sid' ≠ sid → w.activeSessions.lookup gate = some sid' →
        (HashMap.retain (fun _ sid' => sid' ≠ sid) w.activeSessions).lookup gate =
          some sid' := by
      intro gate sid' hne hactive
      exact HashMap.lookup_retain_eq_some.mpr ⟨hactive, by simpa using hne⟩
    refine ⟨fun sid' gate hsid' => ?_, fun sid' row hrow hrunning => ?_, h.single,
      fun c gate sid' hc => ?_, fun c sid' row hc hrow => ?_⟩
    · obtain ⟨hne, hold⟩ := HashMap.lookup_erase_eq_some.mp hsid'
      exact hkept gate sid' hne (h.registered sid' gate hold)
    · have hne : sid' ≠ sid := by
        rintro rfl
        exact h.closed call sid' row hcall hrow hrunning
      rcases h.owned sid' row hrow hrunning with hpending | hactive
      · exact Or.inl hpending
      · exact Or.inr (hkept row.gate sid' hne hactive)
    · have hvacant := h.vacant c gate sid' hc
      cases hretained : (HashMap.retain (fun _ sid' => sid' ≠ sid)
          w.activeSessions).lookup gate with
      | none =>
          rfl
      | some other =>
          have hactive := (HashMap.lookup_retain_eq_some.mp hretained).1
          rw [hvacant] at hactive
          cases hactive
    · exact h.closed c sid' row (HashMap.lookup_erase_eq_some.mp hc).2 hrow
  next =>
    exact h

theorem inv_step (h : Inv w) {a : Action} (hfresh : DrawsFresh w a)
    (hquiet : Undisturbed w a) : Inv (step marshal w a) := by
  cases a with
  | registerRunner gate =>
      exact ⟨h.registered, h.owned, h.single, h.vacant, h.closed⟩
  | check call gate operator =>
      exact inv_check h
  | insert call sid now result =>
      exact inv_insert h hfresh hquiet
  | register call =>
      exact inv_register h
  | update call sid now runErr result =>
      obtain rfl := hquiet
      exact inv_update h
  | remove call =>
      exact inv_remove h

theorem exclusive_of_inv (h : Inv w) : Exclusive w := by
  refine ⟨fun sid sid' gate hsid hsid' => ?_, ?_⟩
  · have heq := h.registered sid gate hsid
    rw [h.registered sid' gate hsid'] at heq
    exact (Option.some.inj heq).symm
  · intro sid sid' row row' hrow hrow' hrunning hrunning' hgate
    have hlookup : ∀ {sid row}, querySession sid w = .ok row →
        w.certSessions.lookup sid = some row := by
      intro sid row hquery
      unfold querySession at hquery
      split at hquery
      next found hfound =>
        rw [hfound, Except.ok.inj hquery]
      next =>
        cases hquery
    rcases h.owned sid row (hlookup hrow) hrunning with ⟨c, hc⟩ | hactive
    · rcases h.owned sid' row' (hlookup hrow') hrunning' with ⟨c', hc'⟩ | hactive'
      · rw [← hgate] at hc'
        obtain rfl := h.single c c' row.gate sid sid' hc hc'
        exact (Start.inserted.inj (Option.some.inj (hc.symm.trans hc'))).2
      · rw [← hgate, h.vacant c row.gate sid hc] at hactive'
        cases hactive'
    · rcases h.owned sid' row' (hlookup hrow') hrunning' with ⟨c', hc'⟩ | hactive'
      · rw [hgate, h.vacant c' row'.gate sid' hc'] at hactive
        cases hactive
      · rw [hgate, hactive'] at hactive
        exact (Option.some.inj hactive).symm

end Invariant

/-- Along a run in which no call is overtaken between its check and its
registration, and no update fails, sessions of one gate exclude each other. -/
theorem sessions_exclusive (marshal : String → String) (actions : List Action)
    (hfresh : Always (step marshal) DrawsFresh new actions)
    (hquiet : Always (step marshal) Undisturbed new actions) :
    ∀ before, before <+: actions → Exclusive (before.foldl (step marshal) new) := by
  have hinv := forall_prefix_of_always (I := Inv)
    (fun w a h hstep => inv_step h hstep.1 hstep.2) inv_new
    (always_and.mpr ⟨hfresh, hquiet⟩)
  exact fun before hbefore => exclusive_of_inv (hinv before hbefore)

/-- Two calls pass the check before either registers. -/
def overtaken : List Action := [
  .registerRunner "G17_SOAK",
  .check 0 "G17_SOAK" "ops",
  .check 1 "G17_SOAK" "ops",
  .insert 0 "cert-0" 0 (.ok ()),
  .insert 1 "cert-1" 0 (.ok ()),
  .register 0,
  .register 1]

/-- Both sessions run, and both are shown as running. -/
theorem sessions_not_exclusive :
    ¬ ∀ (marshal : String → String) (actions : List Action),
      Always (step marshal) DrawsFresh new actions →
        ∀ before, before <+: actions →
          Exclusive (before.foldl (step marshal) new) := by
  intro h
  have hfresh : Always (step id) DrawsFresh new overtaken := by
    refine ⟨trivial, trivial, trivial, ⟨rfl, fun call hcall => ?_⟩,
      ⟨rfl, fun call hcall => ?_⟩, trivial, trivial, trivial⟩
    · cases hcall
    · cases hcall
  have hexclusive := h id overtaken hfresh overtaken (List.prefix_refl _)
  have heq := hexclusive.runs "cert-0" "cert-1" "G17_SOAK" (by decide) (by decide)
  exact absurd heq (by decide)

/-- Two sessions of a gate, one after the other. -/
def inTurn : List Action := [
  .registerRunner "G17_SOAK",
  .check 0 "G17_SOAK" "ops",
  .insert 0 "cert-0" 0 (.ok ()),
  .register 0,
  .update 0 "cert-0" 1 none (.ok ()),
  .remove 0,
  .check 1 "G17_SOAK" "ops",
  .insert 1 "cert-1" 2 (.ok ()),
  .register 1]

theorem sessions_exclusive_in_turn : Exclusive (inTurn.foldl (step id) new) := by
  refine sessions_exclusive id inTurn ?_ ?_ inTurn (List.prefix_refl _)
  · refine ⟨trivial, trivial, ⟨rfl, fun call hcall => ?_⟩, trivial, trivial, trivial,
      trivial, ⟨by decide, fun call hcall => ?_⟩, trivial, trivial⟩
    · cases hcall
    · change (∅ : HashMap Nat SessionId).lookup call = some "cert-1" at hcall
      cases hcall
  · have hempty : ∀ other (start : Start),
        (∅ : HashMap Nat Start).lookup other ≠ some start := by
      intro other start h
      cases h
    have hstarts : ∀ (start : Start) (gate : CertGate) (sid : SessionId) (other : Nat)
        (starts : HashMap Nat Start),
        start ≠ .inserted gate sid → starts.lookup other ≠ some (.inserted gate sid) →
          ∀ call, (starts.insert call start).lookup other ≠ some (.inserted gate sid) := by
      intro start gate sid other starts hstart hother call
      rw [HashMap.lookup_insert_of]
      split
      · exact fun heq => hstart (Option.some.inj heq)
      · exact hother
    refine ⟨trivial, trivial, fun gate operator hcall => ?_, trivial, rfl, trivial,
      trivial, fun gate operator hcall => ?_, trivial, trivial⟩
    · cases hcall
      exact ⟨rfl, fun other sid => hstarts (.checked "G17_SOAK" "ops") _ sid other ∅
        Start.noConfusion (hempty other _) 0⟩
    · cases hcall
      refine ⟨by decide, fun other sid => ?_⟩
      exact hstarts (.checked "G17_SOAK" "ops") _ sid other _ Start.noConfusion
        (hstarts (.returned (.ok "cert-0")) _ sid other ∅ Start.noConfusion
          (hempty other _) 0) 1

end CertOrchestrator
end Control
end HyperBackup
