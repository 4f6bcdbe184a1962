import HyperBackup.Domain
import HyperBackup.Lib.HashMap
import HyperBackup.Lib.Outbox
import HyperBackup.Lib.Runs

/-!
# Alerts and their notifications

The alert engine evaluates a metric against its rules, raises an alert for each
rule that applies and is not suppressed, and sends it to every channel.  For
every channel that fails, the alert is put on the list of pending
notifications; a retry sends every alert of that list to every channel.

An alert is known by its place in memory: two alerts may have the same
identifier.  What the engine does with alerts and channels is what an outbox
does that remembers items and not receivers.
-/

namespace HyperBackup
namespace Control

open Lib Lib.Runs

inductive AlertState
  | active
  | suppressed
  | resolved
deriving DecidableEq

structure Alert where
  id : String
  ruleId : String
  deviceId : String
  severity : String
  state : AlertState
  message : String
  triggeredAt : DateTime
  suppressedUntil : DateTime

/-- Floating-point numbers: how they compare, and their text with two
decimals. -/
structure FloatOps (F : Type) where
  lt : F → F → Bool
  le : F → F → Bool
  eq : F → F → Bool
  fixed2 : F → String

structure AlertRule (F : Type) where
  id : String
  name : String
  severity : String
  metric : String
  operator : String
  threshold : F
  suppressFor : Int
  enabled : Bool

/-- The engine, the alerts in memory, and the alerts that the channels have
received.  A channel is its place in the list of channels. -/
structure AlertEngine (F : Type) where
  rules : HashMap String (AlertRule F)
  activeAlerts : HashMap String Nat
  channels : List String
  pendingNotifications : List Nat
  alerts : List Alert
  delivered : List (Nat × Nat)

namespace AlertEngine

variable {F : Type}

def new (channels : List String) : AlertEngine F where
  rules := ∅
  activeAlerts := ∅
  channels := channels
  pendingNotifications := []
  alerts := []
  delivered := []

def addRule (rule : AlertRule F) (e : AlertEngine F) : AlertEngine F :=
  { e with rules := e.rules.insert rule.id rule }

def removeRule (ruleId : String) (e : AlertEngine F) : AlertEngine F :=
  { e with rules := e.rules.erase ruleId }

def matchesCondition (ops : FloatOps F) (operator : String) (value threshold : F) :
    Bool :=
  if operator = ">" then ops.lt threshold value
  else if operator = ">=" then ops.le threshold value
  else if operator = "<" then ops.lt value threshold
  else if operator = "<=" then ops.le value threshold
  else if operator = "==" then ops.eq value threshold
  else false

def alertKey (ruleId deviceId metric : String) : String :=
  ruleId ++ ":" ++ deviceId ++ ":" ++ metric

/-- Send an alert to one channel. -/
def send (fails : Nat → Bool) (alert : Nat) (e : AlertEngine F) (ch : Nat) :
    AlertEngine F :=
  if fails ch then
    { e with pendingNotifications := e.pendingNotifications ++ [alert] }
  else
    { e with delivered := e.delivered ++ [(alert, ch)] }

def sendAll (fails : Nat → Bool) (alert : Nat) (e : AlertEngine F) :
    AlertEngine F :=
  (List.range e.channels.length).foldl (send fails alert) e

/-- What is measured, and when. -/
structure Sample (F : Type) where
  metric : String
  value : F
  deviceId : String
  now : DateTime

/-- An earlier alert keeps a new one from being raised. -/
def suppressed (key : String) (now : DateTime) (e : AlertEngine F) : Bool :=
  match e.activeAlerts.lookup key with
  | none => false
  | some existing =>
      match e.alerts[existing]? with
      | some alert => now < alert.suppressedUntil
      | none => false

def newAlert (ops : FloatOps F) (sample : Sample F) (rule : AlertRule F) : Alert where
  id := "alert-" ++ toString sample.now
  ruleId := rule.id
  deviceId := sample.deviceId
  severity := rule.severity
  state := .active
  message := rule.name ++ ": " ++ sample.metric ++ "=" ++ ops.fixed2 sample.value ++
    " (threshold " ++ ops.fixed2 rule.threshold ++ ")"
  triggeredAt := sample.now
  suppressedUntil := sample.now + rule.suppressFor

/-- The engine with a new alert, not yet sent. -/
def withAlert (key : String) (alert : Alert) (e : AlertEngine F) : AlertEngine F :=
  { e with
    activeAlerts := e.activeAlerts.insert key e.alerts.length
    alerts := e.alerts ++ [alert] }

/-- Evaluate one rule; the alerts triggered so far are passed on. -/
def evaluateRule (ops : FloatOps F) (sample : Sample F)
    (fails : String → Nat → Bool) (s : AlertEngine F × List Nat)
    (entry : String × AlertRule F) : AlertEngine F × List Nat :=
  let rule := entry.2
  let key := alertKey rule.id sample.deviceId sample.metric
  if !rule.enabled || rule.metric ≠ sample.metric then s
  else if !matchesCondition ops rule.operator sample.value rule.threshold then s
  else if suppressed key sample.now s.1 then s
  else
    (sendAll (fails entry.1) s.1.alerts.length
        (withAlert key (newAlert ops sample rule) s.1),
      s.2 ++ [s.1.alerts.length])

/-- Evaluate all rules, in the order of the iteration.  Which channels fail may
differ from rule to rule. -/
def evaluate (ops : FloatOps F) (order : IterOrder (String × AlertRule F))
    (sample : Sample F) (fails : String → Nat → Bool) (e : AlertEngine F) :
    AlertEngine F × List Nat :=
  (order.arrange (HashMap.toList e.rules)).foldl (evaluateRule ops sample fails)
    (e, [])

def resolve (ruleId deviceId metric : String) (e : AlertEngine F) : AlertEngine F :=
  let key := alertKey ruleId deviceId metric
  match e.activeAlerts.lookup key with
  | none => e
  | some alert =>
      { e with
        activeAlerts := e.activeAlerts.erase key
        alerts := e.alerts.modify alert fun a => { a with state := .resolved } }

/-- Retry one notification; the number of successful sendings is passed on. -/
def retryOne (fails : Nat → Nat → Bool) (s : AlertEngine F × Nat)
    (entry : Nat × Nat) : AlertEngine F × Nat :=
  (sendAll (fails entry.2) entry.1 s.1,
    s.2 + (List.range s.1.channels.length).countP fun ch => !fails entry.2 ch)

/-- Which channels fail may differ from notification to notification. -/
def retryPendingNotifications (fails : Nat → Nat → Bool) (e : AlertEngine F) :
    AlertEngine F × Nat :=
  e.pendingNotifications.zipIdx.foldl (retryOne fails)
    ({ e with pendingNotifications := [] }, 0)

/-- The calls on an engine, with the failures that they meet. -/
inductive Call (F : Type)
  | addRule (rule : AlertRule F)
  | removeRule (ruleId : String)
  | evaluate (order : IterOrder (String × AlertRule F)) (sample : Sample F)
      (fails : String → Nat → Bool)
  | resolve (ruleId deviceId metric : String)
  | retryPendingNotifications (fails : Nat → Nat → Bool)

def step (ops : FloatOps F) (e : AlertEngine F) : Call F → AlertEngine F
  | .addRule rule => addRule rule e
  | .removeRule ruleId => removeRule ruleId e
  | .evaluate order sample fails => (evaluate ops order sample fails e).1
  | .resolve ruleId deviceId metric => resolve ruleId deviceId metric e
  | .retryPendingNotifications fails => (retryPendingNotifications fails e).1

/-- The engine as an outbox. -/
def outbox (e : AlertEngine F) : Outbox where
  items := e.alerts.length
  pending := e.pendingNotifications
  delivered := e.delivered

/-- No channel has received an alert twice, and no more notifications are
pending than deliveries are missing. -/
def AtMostOnce (e : AlertEngine F) : Prop :=
  Outbox.AtMostOnce e.channels.length e.outbox

/-- A retry meets no pending notification, or there is one channel at most. -/
def Undisturbed (e : AlertEngine F) : Call F → Prop
  | .retryPendingNotifications _ =>
      e.pendingNotifications = [] ∨ e.channels.length ≤ 1
  | _ => True

section Refinement

variable {ops : FloatOps F} {sample : Sample F} {e : AlertEngine F}

/-- Sending along a list of channels. -/
theorem foldl_send (fails : Nat → Bool) (alert : Nat) (chs : List Nat)
    (e : AlertEngine F) :
    chs.foldl (send fails alert) e =
      { e with
        pendingNotifications :=
          e.pendingNotifications ++ (chs.filter fails).map fun _ => alert
        delivered :=
          e.delivered ++ (chs.filter fun ch => !fails ch).map fun ch => (alert, ch) } := by
  induction chs generalizing e with
  | nil =>
      simp
  | cons ch chs ih =>
      rw [List.foldl_cons, ih]
      by_cases hfails : fails ch
      · simp [send, hfails]
      · simp [send, hfails]

theorem outbox_sendAll (fails : Nat → Bool) (alert : Nat) :
    (sendAll fails alert e).outbox =
        Outbox.deliver e.channels.length fails alert e.outbox ∧
      (sendAll fails alert e).channels = e.channels := by
  unfold sendAll
  rw [foldl_send]
  exact ⟨rfl, rfl⟩

/-- A rule raises an alert or changes nothing. -/
theorem outbox_evaluateRule (ops : FloatOps F) (sample : Sample F)
    (fails : String → Nat → Bool)
    (s : AlertEngine F × List Nat) (entry : String × AlertRule F) :
    (evaluateRule ops sample fails s entry).1.channels = s.1.channels ∧
      ((evaluateRule ops sample fails s entry).1.outbox = s.1.outbox ∨
        ∃ f, (evaluateRule ops sample fails s entry).1.outbox =
          Outbox.raise s.1.channels.length f s.1.outbox) := by
  unfold evaluateRule
  simp only
  split
  · exact ⟨rfl, Or.inl rfl⟩
  split
  · exact ⟨rfl, Or.inl rfl⟩
  split
  · exact ⟨rfl, Or.inl rfl⟩
  · obtain ⟨houtbox, hchannels⟩ := outbox_sendAll (e := withAlert
      (alertKey entry.2.id sample.deviceId sample.metric)
      (newAlert ops sample entry.2) s.1) (fails entry.1) s.1.alerts.length
    refine ⟨hchannels, Or.inr ⟨fails entry.1, ?_⟩⟩
    rw [houtbox]
    simp [outbox, withAlert, Outbox.raise]

/-- The invariant of an engine with given channels. -/
structure Inv (channels : List String) (e : AlertEngine F) : Prop where
  channels_eq : e.channels = channels
  outbox : Outbox.Inv channels.length e.outbox

variable {channels : List String}

theorem inv_new : Inv channels (new channels : AlertEngine F) :=
  ⟨rfl, Outbox.inv_empty⟩

theorem inv_evaluateRule (ops : FloatOps F) (sample : Sample F)
    (fails : String → Nat → Bool)
    {s : AlertEngine F × List Nat} (h : Inv channels s.1)
    (entry : String × AlertRule F) :
    Inv channels (evaluateRule ops sample fails s entry).1 ∧
      (AtMostOnce (evaluateRule ops sample fails s entry).1 ↔ AtMostOnce s.1) := by
  obtain ⟨hchannels, houtbox⟩ := outbox_evaluateRule ops sample fails s entry
  unfold AtMostOnce
  rw [hchannels]
  rcases houtbox with heq | ⟨f, heq⟩
  · rw [heq]
    exact ⟨⟨hchannels.trans h.channels_eq, heq ▸ h.outbox⟩, Iff.rfl⟩
  · have hinv := h.outbox
    rw [← h.channels_eq] at hinv
    rw [heq]
    refine ⟨⟨hchannels.trans h.channels_eq, ?_⟩, Outbox.atMostOnce_raise f hinv⟩
    rw [heq, ← h.channels_eq]
    exact Outbox.inv_raise f hinv

theorem inv_evaluate (ops : FloatOps F) (sample : Sample F)
    (fails : String → Nat → Bool) (h : Inv channels e)
    (order : IterOrder (String × AlertRule F)) :
    Inv channels (evaluate ops order sample fails e).1 ∧
      (AtMostOnce (evaluate ops order sample fails e).1 ↔ AtMostOnce e) := by
  have hfold : ∀ (entries : List (String × AlertRule F)) (s : AlertEngine F × List Nat),
      Inv channels s.1 →
        Inv channels (entries.foldl (evaluateRule ops sample fails) s).1 ∧
          (AtMostOnce (entries.foldl (evaluateRule ops sample fails) s).1 ↔
            AtMostOnce s.1) := by
    intro entries
    induction entries with
    | nil =>
        exact fun s hs => ⟨hs, Iff.rfl⟩
    | cons entry entries ih =>
        intro s hs
        obtain ⟨hfirst, hiff⟩ :=
          inv_evaluateRule ops sample fails hs entry
        obtain ⟨hrest, hiff'⟩ := ih _ hfirst
        exact ⟨hrest, hiff'.trans hiff⟩
  exact hfold _ (e, []) h

theorem outbox_foldl_retryOne (fails : Nat → Nat → Bool) (entries : List (Nat × Nat))
    (s : AlertEngine F × Nat) :
    (entries.foldl (retryOne fails) s).1.outbox =
        Outbox.deliverAll s.1.channels.length
          (entries.map fun entry => (entry.1, fails entry.2)) s.1.outbox ∧
      (entries.foldl (retryOne fails) s).1.channels = s.1.channels := by
  induction entries generalizing s with
  | nil =>
      exact ⟨rfl, rfl⟩
  | cons entry entries ih =>
      obtain ⟨houtbox, hchannels⟩ :=
        outbox_sendAll (e := s.1) (fails entry.2) entry.1
      obtain ⟨hrest, hrest'⟩ := ih (retryOne fails s entry)
      rw [List.foldl_cons, hrest, hrest']
      simp only [retryOne, houtbox, hchannels, List.map_cons, Outbox.deliverAll,
        and_self]

theorem outbox_retry (fails : Nat → Nat → Bool) :
    (retryPendingNotifications fails e).1.outbox =
        Outbox.resend e.channels.length fails e.outbox ∧
      (retryPendingNotifications fails e).1.channels = e.channels :=
  outbox_foldl_retryOne fails _ _

theorem inv_retry {fails : Nat → Nat → Bool} (h : Inv channels e) :
    Inv channels (retryPendingNotifications fails e).1 ∧
      (AtMostOnce (retryPendingNotifications fails e).1 ↔
        AtMostOnce e ∧ (e.pendingNotifications = [] ∨ e.channels.length ≤ 1)) := by
  obtain ⟨houtbox, hchannels⟩ := outbox_retry (e := e) fails
  have hinv := h.outbox
  rw [← h.channels_eq] at hinv
  refine ⟨⟨hchannels.trans h.channels_eq, ?_⟩, ?_⟩
  · rw [houtbox, ← h.channels_eq]
    exact Outbox.inv_resend fails hinv
  · unfold AtMostOnce
    rw [houtbox, hchannels]
    exact Outbox.atMostOnce_resend fails hinv

theorem outbox_resolve (ruleId deviceId metric : String) :
    (resolve ruleId deviceId metric e).outbox = e.outbox ∧
      (resolve ruleId deviceId metric e).channels = e.channels := by
  simp only [resolve]
  split
  · exact ⟨rfl, rfl⟩
  · simp [outbox]

/-- A call keeps the invariant, and keeps to at most one delivery exactly if it
is undisturbed. -/
theorem inv_step {call : Call F} (h : Inv channels e) :
    Inv channels (step ops e call) ∧
      (AtMostOnce (step ops e call) ↔ AtMostOnce e ∧ Undisturbed e call) := by
  cases call with
  | addRule rule =>
      exact ⟨⟨h.channels_eq, h.outbox⟩, (and_iff_left trivial).symm⟩
  | removeRule ruleId =>
      exact ⟨⟨h.channels_eq, h.outbox⟩, (and_iff_left trivial).symm⟩
  | evaluate order sample fails =>
      obtain ⟨hinv, hiff⟩ := inv_evaluate ops sample fails h order
      exact ⟨hinv, hiff.trans (and_iff_left trivial).symm⟩
  | resolve ruleId deviceId metric =>
      obtain ⟨houtbox, hchannels⟩ := outbox_resolve (e := e) ruleId deviceId metric
      refine ⟨⟨hchannels.trans h.channels_eq, houtbox ▸ h.outbox⟩, ?_⟩
      simp only [step, AtMostOnce, houtbox, hchannels, Undisturbed, and_true]
  | retryPendingNotifications fails =>
      exact inv_retry h

end Refinement

/-- Over a run, no channel receives an alert twice and the pending notifications
stay within the missing deliveries, if and only if every retry meets no pending
notification or there is one channel at most. -/
theorem alerts_at_most_once_iff (ops : FloatOps F) (channels : List String)
    (calls : List (Call F)) :
    AtMostOnce (calls.foldl (step ops) (new channels)) ↔
      Always (step ops) Undisturbed (new channels) calls := by
  have hiff : AtMostOnce (calls.foldl (step ops) (new channels)) ↔
      AtMostOnce (new channels : AlertEngine F) ∧
        Always (step ops) Undisturbed (new channels) calls :=
    good_foldl_iff (I := Inv channels) (fun _ _ h _ => (inv_step h).1)
      (fun _ _ h _ => (inv_step h).2) inv_new (always_true calls)
  rw [hiff]
  exact and_iff_right Outbox.atMostOnce_empty

/-- Natural numbers in place of floating-point numbers. -/
def natOps : FloatOps Nat where
  lt := fun a b => a < b
  le := fun a b => a ≤ b
  eq := fun a b => a = b
  fixed2 := fun a => toString a ++ ".00"

/-- An alert that the second of two channels receives in the retry. -/
def failedOnce : List (Call Nat) := [
  .addRule {
    id := "r1"
    name := "high-cpu"
    severity := "warning"
    metric := "cpu_usage"
    operator := ">"
    threshold := 90
    suppressFor := 0
    enabled := true },
  .evaluate IterOrder.asStored
    { metric := "cpu_usage", value := 95, deviceId := "device-1", now := 0 }
    (fun _ ch => ch = 1),
  .retryPendingNotifications fun _ _ => false]

/-- The first channel receives the alert twice. -/
theorem alerts_not_at_most_once :
    ¬ ∀ (ops : FloatOps Nat) (channels : List String) (calls : List (Call Nat)),
      AtMostOnce (calls.foldl (step ops) (new channels)) := by
  intro h
  have honce := (h natOps ["email", "webhook"] failedOnce).once
  have hdelivered : (outbox (failedOnce.foldl (step natOps)
      (new ["email", "webhook"]))).delivered = [(0, 0), (0, 0), (0, 1)] := by
    decide
  rw [hdelivered] at honce
  exact absurd honce (by decide)

end AlertEngine
end Control
end HyperBackup
