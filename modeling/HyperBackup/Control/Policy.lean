import HyperBackup.Domain
import HyperBackup.Lib.HashMap
import HyperBackup.Lib.Program

/-!
# The version history of policies

The policy manager keeps the policies in one map and their versions in
another.  A change of the template appends a version; so does going back to an
earlier one.  The template of a policy is the caller's own map or a copy of a
stored one, so templates are compared by their contents.

The invariant says that the versions of a policy are numbered from one on, and
that the last of them is the policy as it stands.  Identifiers and times are
drawn beforehand.
-/

namespace HyperBackup
namespace Control

open Lib Lib.Program

/-- A map from names to values, or nil. -/
abbrev Template (V : Type) : Type :=
  Option (HashMap GoString V)

structure Policy (V : Type) where
  id : Uuid
  name : GoString
  description : GoString
  template : Template V
  priority : Int
  version : Int
  scopeType : GoString
  scopeId : Uuid
  status : String
  createdAt : DateTime
  updatedAt : DateTime

structure PolicyVersion (V : Type) where
  policyId : Uuid
  version : Int
  template : Template V
  createdAt : DateTime
  createdBy : GoString

structure PolicyManager (V : Type) where
  policies : HashMap Uuid (Policy V)
  versions : HashMap Uuid (List (PolicyVersion V))

namespace PolicyManager

variable {V : Type}

/-- An order in which a range loop goes through a template. -/
abbrev TemplateOrder (V : Type) : Type :=
  IterOrder (GoString × V)

def copyTemplate (order : TemplateOrder V) (t : Template V) : Template V :=
  t.map fun m => HashMap.collect (order.arrange (HashMap.toList m))

def new : PolicyManager V where
  policies := ∅
  versions := ∅

/-- The versions stored for a policy, none if there is no such policy. -/
def versionsOf (m : PolicyManager V) (id : Uuid) : List (PolicyVersion V) :=
  (m.versions.lookup id).getD []

structure CreateArgs (V : Type) where
  name : GoString
  description : GoString
  template : Template V
  priority : Int
  scopeType : GoString
  scopeId : Uuid
  createdBy : GoString

/-- A new policy with its first version. -/
def newPolicy (id : Uuid) (now : DateTime) (args : CreateArgs V) : Policy V where
  id := id
  name := args.name
  description := args.description
  template := args.template
  priority := args.priority
  version := 1
  scopeType := args.scopeType
  scopeId := args.scopeId
  status := "active"
  createdAt := now
  updatedAt := now

/-- The manager with a policy that has one version. -/
def withPolicy (order : TemplateOrder V) (id : Uuid) (p : Policy V)
    (author : GoString) (m : PolicyManager V) : PolicyManager V where
  policies := m.policies.insert id p
  versions := m.versions.insert id [{
    policyId := id
    version := 1
    template := copyTemplate order p.template
    createdAt := p.createdAt
    createdBy := author }]

def create (order : TemplateOrder V) (id : Uuid) (now : DateTime)
    (args : CreateArgs V) : EStateM String (PolicyManager V) (Policy V) := do
  if args.name = [] then
    throw "policy name is required"
  else
    let policy := newPolicy id now args
    let m ← get
    set (withPolicy order id policy args.createdBy m)
    return policy

/-- The policy with one more version and another template. -/
def nextPolicy (p : Policy V) (now : DateTime) (template : Template V) :
    Policy V :=
  { p with version := p.version + 1, template := template, updatedAt := now }

/-- The manager with one more version of a policy, of which a copy of the
template is stored. -/
def addVersion (order : TemplateOrder V) (id : Uuid) (p : Policy V)
    (template : Template V) (author : GoString) (m : PolicyManager V) :
    PolicyManager V where
  policies := m.policies.insert id p
  versions := m.versions.insert id (m.versionsOf id ++ [{
    policyId := id
    version := p.version
    template := copyTemplate order template
    createdAt := p.updatedAt
    createdBy := author }])

def update (order : TemplateOrder V) (id : Uuid) (now : DateTime)
    (template : Template V) (updatedBy : GoString) :
    EStateM String (PolicyManager V) (Policy V) := do
  let m ← get
  match m.policies.lookup id with
  | none => throw "policy not found"
  | some p =>
      let p' := nextPolicy p now template
      set (addVersion order id p' template updatedBy m)
      return p'

/-- The manager without a policy. -/
def without (id : Uuid) (m : PolicyManager V) : PolicyManager V where
  policies := m.policies.erase id
  versions := m.versions.erase id

def delete (id : Uuid) : EStateM String (PolicyManager V) Bool := do
  let m ← get
  match m.policies.lookup id with
  | none => return false
  | some _ =>
      set (without id m)
      return true

/-- The manager with another policy under an identifier; the versions stay. -/
def replace (id : Uuid) (p : Policy V) (m : PolicyManager V) :
    PolicyManager V where
  policies := m.policies.insert id p
  versions := m.versions

def setPriority (id : Uuid) (now : DateTime) (priority : Int) :
    EStateM String (PolicyManager V) Bool := do
  let m ← get
  match m.policies.lookup id with
  | none => return false
  | some p =>
      set (replace id { p with priority := priority, updatedAt := now } m)
      return true

def rollback (order : TemplateOrder V) (id : Uuid) (now : DateTime)
    (targetVersion : Int) (rolledBy : GoString) :
    EStateM String (PolicyManager V) (Policy V) := do
  let m ← get
  match m.policies.lookup id with
  | none => throw "policy not found"
  | some p =>
      match (m.versionsOf id).find? fun v => v.version = targetVersion with
      | none => throw "target version not found"
      | some target =>
          let p' := nextPolicy p now (copyTemplate order target.template)
          set (addVersion order id p' target.template rolledBy m)
          return p'

/-- The calls of a client, with what they draw. -/
inductive Call (V : Type)
  | create (order : TemplateOrder V) (id : Uuid) (now : DateTime)
      (args : CreateArgs V)
  | update (order : TemplateOrder V) (id : Uuid) (now : DateTime)
      (template : Template V) (updatedBy : GoString)
  | delete (id : Uuid)
  | setPriority (id : Uuid) (now : DateTime) (priority : Int)
  | rollback (order : TemplateOrder V) (id : Uuid) (now : DateTime)
      (targetVersion : Int) (rolledBy : GoString)

namespace Call

/-- A call; whether it reports success. -/
def perform : Call V → EStateM String (PolicyManager V) Bool
  | .create order id now args => do
      let _ ← PolicyManager.create order id now args
      return true
  | .update order id now template updatedBy => do
      let _ ← PolicyManager.update order id now template updatedBy
      return true
  | .delete id => PolicyManager.delete id
  | .setPriority id now priority => PolicyManager.setPriority id now priority
  | .rollback order id now targetVersion rolledBy => do
      let _ ← PolicyManager.rollback order id now targetVersion rolledBy
      return true

/-- The policy a call is about. -/
def subject : Call V → Uuid
  | .create _ id _ _ => id
  | .update _ id _ _ _ => id
  | .delete id => id
  | .setPriority id _ _ => id
  | .rollback _ id _ _ _ => id

/-- The identifier drawn for a new policy. -/
def drawnId : Call V → Option Uuid
  | .create _ id _ _ => some id
  | .update _ _ _ _ _ => none
  | .delete _ => none
  | .setPriority _ _ _ => none
  | .rollback _ _ _ _ _ => none

end Call

def step (m : PolicyManager V) (c : Call V) : PolicyManager V :=
  stateAfter c.perform m

def run (calls : List (Call V)) : PolicyManager V :=
  calls.foldl step new

/-- What a template says, whatever the order of its entries. -/
def content (t : Template V) : Option (GoString → Option V) :=
  t.map fun m k => m.lookup k

/-- The versions are numbered from one on, and the last is the policy as it
stands. -/
structure Numbered (id : Uuid) (p : Policy V) (versions : List (PolicyVersion V)) :
    Prop where
  numbers : ∀ (i : Nat) v, versions[i]? = some v →
    v.policyId = id ∧ v.version = (i : Int) + 1
  version : p.version = versions.length
  current : ∃ v, versions.getLast? = some v ∧ content v.template = content p.template

/-- The policy and its versions are the same in both managers. -/
def Same (id : Uuid) (m m' : PolicyManager V) : Prop :=
  m'.policies.lookup id = m.policies.lookup id ∧
    m'.versions.lookup id = m.versions.lookup id

section Templates

theorem content_copyTemplate (order : TemplateOrder V) (t : Template V) :
    content (copyTemplate order t) = content t := by
  cases t with
  | none =>
      rfl
  | some m =>
      refine congrArg some (funext fun k => ?_)
      change (HashMap.collect (order.arrange (HashMap.toList m))).lookup k =
        m.lookup k
      have hmem : ∀ v, (k, v) ∈ order.arrange (HashMap.toList m) ↔
          m.lookup k = some v := by
        intro v
        rw [IterOrder.mem_arrange, HashMap.mem_toList]
      cases hk : m.lookup k with
      | some v =>
          refine HashMap.lookup_collect_of_forall
            (List.mem_map_of_mem ((hmem v).mpr hk)) fun v' hv' => ?_
          exact Option.some.inj (((hmem v').mp hv').symm.trans hk)
      | none =>
          cases hcopy : (HashMap.collect (order.arrange (HashMap.toList m))).lookup k with
          | none =>
              rfl
          | some v =>
              have hv := (hmem v).mp (HashMap.mem_of_lookup_collect hcopy)
              rw [hk] at hv
              cases hv

end Templates

section Steps

variable {m : PolicyManager V} {c : Call V}

/-- A policy is stored with its first version. -/
def Creates (m : PolicyManager V) (c : Call V) : Prop :=
  c.drawnId = some c.subject ∧ ∃ order p author, p.version = 1 ∧
    step m c = withPolicy order c.subject p author m

/-- A policy gets one more version. -/
def Extends (m : PolicyManager V) (c : Call V) : Prop :=
  ∃ order p p' template author, m.policies.lookup c.subject = some p ∧
    p'.version = p.version + 1 ∧ content p'.template = content template ∧
    step m c = addVersion order c.subject p' template author m

/-- A policy changes without a new version. -/
def Retains (m : PolicyManager V) (c : Call V) : Prop :=
  ∃ p p', m.policies.lookup c.subject = some p ∧ p'.version = p.version ∧
    p'.template = p.template ∧ step m c = replace c.subject p' m

/-- A policy goes with its versions. -/
def Removes (m : PolicyManager V) (c : Call V) : Prop :=
  step m c = without c.subject m

/-- What a call can do: fail and change nothing, or succeed in one of four
ways. -/
def Explained (m : PolicyManager V) (c : Call V) : Prop :=
  (outcome c.perform m ≠ .ok true ∧ step m c = m) ∨
    outcome c.perform m = .ok true ∧
      (Creates m c ∨ Extends m c ∨ Retains m c ∨ Removes m c)

theorem explained_of_error (e : String) (h : c.perform.run m = .error e m) :
    Explained m c :=
  Or.inl ⟨by simp [outcome, h], by simp [step, stateAfter, h]⟩

theorem explained_of_false (h : c.perform.run m = .ok false m) :
    Explained m c := by
  obtain ⟨houtcome, hstep⟩ := run_eq_ok_iff.mp h
  exact Or.inl ⟨by simp [houtcome], hstep⟩

theorem explained_of_run (m' : PolicyManager V)
    (h : c.perform.run m = .ok true m')
    (hcases : step m c = m' →
      Creates m c ∨ Extends m c ∨ Retains m c ∨ Removes m c) :
    Explained m c := by
  obtain ⟨houtcome, hstep⟩ := run_eq_ok_iff.mp h
  exact Or.inr ⟨houtcome, hcases hstep⟩

theorem step_cases (m : PolicyManager V) (c : Call V) : Explained m c := by
  cases c with
  | create order id now args =>
      by_cases hname : args.name = []
      · refine explained_of_error "policy name is required" ?_
        simp only [Call.perform, create, hname, if_true]
        rfl
      · refine explained_of_run
          (withPolicy order id (newPolicy id now args) args.createdBy m) ?_ ?_
        · simp only [Call.perform, create, hname, if_false]
          rfl
        · exact fun h => Or.inl ⟨rfl, _, _, _, rfl, h⟩
  | update order id now template updatedBy =>
      cases hp : m.policies.lookup id with
      | none =>
          refine explained_of_error "policy not found" ?_
          simp only [Call.perform, update, EStateM.run_bind, EStateM.run_get, hp]
          rfl
      | some p =>
          refine explained_of_run (addVersion order id
            (nextPolicy p now template) template updatedBy m) ?_ ?_
          · simp only [Call.perform, update, EStateM.run_bind, EStateM.run_get, hp]
            rfl
          · exact fun h => Or.inr (Or.inl ⟨order, p, _, _, _, hp, rfl, rfl, h⟩)
  | delete id =>
      cases hp : m.policies.lookup id with
      | none =>
          refine explained_of_false ?_
          simp only [Call.perform, delete, EStateM.run_bind, EStateM.run_get, hp]
          rfl
      | some p =>
          refine explained_of_run (without id m) ?_ ?_
          · simp only [Call.perform, delete, EStateM.run_bind, EStateM.run_get, hp]
            rfl
          · exact fun h => Or.inr (Or.inr (Or.inr h))
  | setPriority id now priority =>
      cases hp : m.policies.lookup id with
      | none =>
          refine explained_of_false ?_
          simp only [Call.perform, setPriority, EStateM.run_bind, EStateM.run_get,
            hp]
          rfl
      | some p =>
          refine explained_of_run (replace id
            { p with priority := priority, updatedAt := now } m) ?_ ?_
          · simp only [Call.perform, setPriority, EStateM.run_bind,
              EStateM.run_get, hp]
            rfl
          · exact fun h => Or.inr (Or.inr (Or.inl
              ⟨p, { p with priority := priority, updatedAt := now }, hp, rfl, rfl, h⟩))
  | rollback order id now targetVersion rolledBy =>
      cases hp : m.policies.lookup id with
      | none =>
          refine explained_of_error "policy not found" ?_
          simp only [Call.perform, rollback, EStateM.run_bind, EStateM.run_get, hp]
          rfl
      | some p =>
          cases htarget : (m.versionsOf id).find? fun v =>
              v.version = targetVersion with
          | none =>
              refine explained_of_error "target version not found" ?_
              simp only [Call.perform, rollback, EStateM.run_bind, EStateM.run_get,
                hp, htarget]
              rfl
          | some target =>
              refine explained_of_run (addVersion order id
                (nextPolicy p now (copyTemplate order target.template))
                target.template rolledBy m) ?_ ?_
              · simp only [Call.perform, rollback, EStateM.run_bind,
                  EStateM.run_get, hp, htarget]
                rfl
              · exact fun h => Or.inr (Or.inl ⟨order, p, _, _, _, hp, rfl,
                  content_copyTemplate _ _, h⟩)

/-- A call touches the policy it is about only. -/
theorem same_of_ne {id : Uuid} (h : id ≠ c.subject) : Same id m (step m c) := by
  obtain ⟨-, hstep⟩ | ⟨-, hcreate | hextend | hretain | hremove⟩ := step_cases m c
  · rw [hstep]
    exact ⟨rfl, rfl⟩
  · obtain ⟨-, order, p, author, -, hstep⟩ := hcreate
    rw [hstep]
    exact ⟨AList.lookup_insert_ne h, AList.lookup_insert_ne h⟩
  · obtain ⟨order, p, p', template, author, -, -, -, hstep⟩ := hextend
    rw [hstep]
    exact ⟨AList.lookup_insert_ne h, AList.lookup_insert_ne h⟩
  · obtain ⟨p, p', -, -, -, hstep⟩ := hretain
    rw [hstep]
    exact ⟨AList.lookup_insert_ne h, rfl⟩
  · rw [hremove]
    exact ⟨AList.lookup_erase_ne h, AList.lookup_erase_ne h⟩

end Steps

section Histories

theorem versionsOf_addVersion {order : TemplateOrder V} {id : Uuid} {p : Policy V}
    {template : Template V} {author : GoString} {m : PolicyManager V} :
    (addVersion order id p template author m).versionsOf id = m.versionsOf id ++ [{
      policyId := id
      version := p.version
      template := copyTemplate order template
      createdAt := p.updatedAt
      createdBy := author }] := by
  rw [versionsOf, addVersion, AList.lookup_insert, Option.getD_some]

variable {m : PolicyManager V} {c : Call V} {id : Uuid} {p : Policy V}
variable {versions : List (PolicyVersion V)}

/-- Every policy has a numbered history. -/
def Inv (m : PolicyManager V) : Prop :=
  ∀ id p, m.policies.lookup id = some p → Numbered id p (m.versionsOf id)

theorem Numbered.concat {p' : Policy V} {v : PolicyVersion V}
    (h : Numbered id p versions) (hversion : p'.version = p.version + 1)
    (hid : v.policyId = id) (hv : v.version = p'.version)
    (htemplate : content v.template = content p'.template) :
    Numbered id p' (versions ++ [v]) where
  numbers := by
    intro i w hw
    rw [List.getElem?_append] at hw
    split at hw
    · exact h.numbers i w hw
    · next hi =>
        have hlast : i = versions.length := by
          by_contra hne
          rw [List.getElem?_eq_none (by simp; omega)] at hw
          cases hw
        subst hlast
        rw [Nat.sub_self] at hw
        obtain rfl := Option.some.inj hw
        exact ⟨hid, by rw [hv, hversion, h.version]⟩
  version := by
    rw [hversion, h.version, List.length_append]
    rfl
  current := ⟨v, by simp, htemplate⟩

theorem Numbered.congr {p' : Policy V} (h : Numbered id p versions)
    (hversion : p'.version = p.version) (htemplate : p'.template = p.template) :
    Numbered id p' versions where
  numbers := h.numbers
  version := hversion.trans h.version
  current := by
    rw [htemplate]
    exact h.current

theorem numbered_first (order : TemplateOrder V) (author : GoString)
    (h : p.version = 1) :
    Numbered id p ((withPolicy order id p author m).versionsOf id) := by
  rw [versionsOf, withPolicy, AList.lookup_insert, Option.getD_some]
  constructor
  · intro i v hv
    cases i with
    | zero =>
        obtain rfl := Option.some.inj hv
        exact ⟨rfl, rfl⟩
    | succ i =>
        cases hv
  · exact h
  · exact ⟨_, rfl, content_copyTemplate order _⟩

theorem inv_step (h : Inv m) : Inv (step m c) := by
  intro id p hp
  by_cases hid : id = c.subject
  · subst hid
    obtain ⟨-, hstep⟩ | ⟨-, hcreate | hextend | hretain | hremove⟩ :=
      step_cases m c
    · rw [hstep] at hp ⊢
      exact h _ p hp
    · obtain ⟨-, order, q, author, hq, hstep⟩ := hcreate
      rw [hstep] at hp ⊢
      obtain rfl := Option.some.inj ((AList.lookup_insert _).symm.trans hp)
      exact numbered_first order author hq
    · obtain ⟨order, q, q', template, author, hq, hversion, htemplate, hstep⟩ :=
        hextend
      rw [hstep] at hp ⊢
      obtain rfl := Option.some.inj ((AList.lookup_insert _).symm.trans hp)
      rw [versionsOf_addVersion]
      exact (h _ q hq).concat hversion rfl rfl
        ((content_copyTemplate order template).trans htemplate.symm)
    · obtain ⟨q, q', hq, hversion, htemplate, hstep⟩ := hretain
      rw [hstep] at hp ⊢
      obtain rfl := Option.some.inj ((AList.lookup_insert _).symm.trans hp)
      exact (h _ q hq).congr hversion htemplate
    · rw [hremove, without, AList.lookup_erase] at hp
      cases hp
  · obtain ⟨hpolicies, hversions⟩ := same_of_ne (m := m) hid
    rw [versionsOf, hversions]
    exact h id p (hpolicies ▸ hp)

theorem inv_run (calls : List (Call V)) : Inv (run calls) := by
  refine List.foldlRecOn calls step (motive := Inv) ?_ fun m hm c _ => inv_step hm
  intro id p hp
  cases hp

/-- A call that does not create the policy leaves its versions, adds one, or
removes the policy. -/
theorem versions_step (hid : c.drawnId ≠ some id)
    (hp : ((step m c).policies.lookup id).isSome) :
    (m.policies.lookup id).isSome ∧
      m.versionsOf id <+: (step m c).versionsOf id := by
  by_cases hsubject : id = c.subject
  · subst hsubject
    obtain ⟨-, hstep⟩ | ⟨-, hcreate | hextend | hretain | hremove⟩ :=
      step_cases m c
    · rw [hstep] at hp ⊢
      exact ⟨hp, List.prefix_rfl⟩
    · exact absurd hcreate.1 hid
    · obtain ⟨order, q, q', template, author, hq, -, -, hstep⟩ := hextend
      rw [hstep]
      refine ⟨by rw [hq]; rfl, ?_⟩
      rw [versionsOf_addVersion]
      exact List.prefix_append _ _
    · obtain ⟨q, q', hq, -, -, hstep⟩ := hretain
      rw [hstep]
      exact ⟨by rw [hq]; rfl, List.prefix_rfl⟩
    · rw [hremove, without, AList.lookup_erase] at hp
      cases hp
  · obtain ⟨hpolicies, hversions⟩ := same_of_ne (m := m) hsubject
    rw [versionsOf, versionsOf, hversions]
    exact ⟨hpolicies ▸ hp, List.prefix_rfl⟩

/-- Over calls that do not create a policy that is there in the end, its
versions only grow. -/
theorem versions_foldl (later : List (Call V)) :
    ∀ m : PolicyManager V, some id ∉ later.map Call.drawnId →
      ((later.foldl step m).policies.lookup id).isSome →
      (m.policies.lookup id).isSome ∧
        m.versionsOf id <+: (later.foldl step m).versionsOf id := by
  induction later with
  | nil =>
      intro m _ hp
      exact ⟨hp, List.prefix_rfl⟩
  | cons c later ih =>
      intro m hnew hp
      rw [List.map_cons, List.mem_cons, not_or] at hnew
      obtain ⟨hafter, hgrown⟩ := ih (step m c) hnew.2 hp
      obtain ⟨hbefore, hstep⟩ := versions_step (Ne.symm hnew.1) hafter
      exact ⟨hbefore, hstep.trans hgrown⟩

/-- A policy that is there was created. -/
theorem mem_drawnIds (calls : List (Call V)) {id : Uuid}
    (h : ((run calls).policies.lookup id).isSome) :
    id ∈ calls.filterMap Call.drawnId := by
  by_contra hnew
  have hdrawn : some id ∉ calls.map Call.drawnId := by
    intro hmem
    obtain ⟨c, hc, hid⟩ := List.mem_map.mp hmem
    exact hnew (List.mem_filterMap.mpr ⟨c, hc, hid⟩)
  have hnone := (versions_foldl calls new hdrawn h).1
  cases hnone

/-- The version with a number is found in a numbered history. -/
theorem Numbered.find? {k : Int} (h : Numbered id p versions) :
    (∃ v ∈ versions, v.version = k ∧
      (versions.find? fun v => v.version = k) = some v) ↔ 1 ≤ k ∧ k ≤ p.version := by
  constructor
  · rintro ⟨v, hmem, rfl, -⟩
    obtain ⟨i, hi⟩ := List.mem_iff_getElem?.mp hmem
    have hlen := (List.getElem?_eq_some_iff.mp hi).1
    rw [(h.numbers i v hi).2, h.version]
    omega
  · rintro ⟨hpos, hle⟩
    rw [h.version] at hle
    obtain ⟨i, rfl⟩ : ∃ i : Nat, k = (i : Int) + 1 := ⟨(k - 1).toNat, by omega⟩
    have hi : i < versions.length := by omega
    have hnumber := (h.numbers i _ (List.getElem?_eq_getElem hi)).2
    cases hfind : versions.find? fun v => v.version = (i : Int) + 1 with
    | none =>
        have hnone := List.find?_eq_none.mp hfind _ (List.getElem_mem hi)
        rw [hnumber] at hnone
        simp at hnone
    | some v =>
        have hv := List.find?_some hfind
        exact ⟨v, List.mem_of_find?_eq_some hfind, by simpa using hv, rfl⟩

end Histories

section Laws

/-- Going back to a version of a policy: a version that is there is appended
once more, with the next number, and any other number is refused. -/
structure RollbackLaw (m : PolicyManager V) (id : Uuid) (p : Policy V)
    (order : TemplateOrder V) (now : DateTime) (k : Int) (rolledBy : GoString) :
    Prop where
  appends : 1 ≤ k ∧ k ≤ p.version →
    ∃ target p' v, target ∈ m.versionsOf id ∧ target.version = k ∧
      (rollback order id now k rolledBy).run m = .ok p'
        (step m (.rollback order id now k rolledBy)) ∧
      (step m (.rollback order id now k rolledBy)).policies.lookup id = some p' ∧
      (step m (.rollback order id now k rolledBy)).versionsOf id =
        m.versionsOf id ++ [v] ∧
      v.version = p.version + 1 ∧ content v.template = content target.template ∧
      p'.version = v.version ∧ content p'.template = content target.template
  refuses : ¬ (1 ≤ k ∧ k ≤ p.version) →
    outcome (rollback order id now k rolledBy) m = .error "target version not found"

/-- What holds after calls on the manager. -/
structure HistoryLaw (calls : List (Call V)) : Prop where
  numbered : ∀ id p, (run calls).policies.lookup id = some p →
    Numbered id p ((run calls).versionsOf id)
  grows : ∀ before later id, calls = before ++ later →
    ((run before).policies.lookup id).isSome →
    ((run calls).policies.lookup id).isSome →
    (run before).versionsOf id <+: (run calls).versionsOf id
  rollback : ∀ id p order now k rolledBy,
    (run calls).policies.lookup id = some p →
    RollbackLaw (run calls) id p order now k rolledBy
  others : ∀ c id, id ≠ c.subject → Same id (run calls) (step (run calls) c)
  failing : ∀ c : Call V, outcome c.perform (run calls) ≠ .ok true →
    step (run calls) c = run calls

theorem rollbackLaw {m : PolicyManager V} {id : Uuid} {p : Policy V}
    (hinv : Inv m) (hp : m.policies.lookup id = some p) (order : TemplateOrder V)
    (now : DateTime) (k : Int) (rolledBy : GoString) :
    RollbackLaw m id p order now k rolledBy where
  appends := by
    intro hk
    obtain ⟨target, hmem, hversion, hfind⟩ := (hinv id p hp).find?.mpr hk
    have hrun : (PolicyManager.rollback order id now k rolledBy).run m =
        .ok (nextPolicy p now (copyTemplate order target.template))
          (addVersion order id
            (nextPolicy p now (copyTemplate order target.template))
            target.template rolledBy m) := by
      simp only [PolicyManager.rollback, EStateM.run_bind, EStateM.run_get, hp, hfind]
      rfl
    have hstep : step m (.rollback order id now k rolledBy) =
        addVersion order id
          (nextPolicy p now (copyTemplate order target.template))
          target.template rolledBy m := by
      simp only [step, Call.perform, stateAfter_bind_of_run hrun, stateAfter_pure]
    rw [hstep]
    exact ⟨target, _, _, hmem, hversion, hrun, AList.lookup_insert _,
      versionsOf_addVersion, rfl, content_copyTemplate order _, rfl,
      content_copyTemplate order _⟩
  refuses := by
    intro hk
    have hfind : ((m.versionsOf id).find? fun v => v.version = k) = none := by
      cases hfound : (m.versionsOf id).find? fun v => v.version = k with
      | none =>
          rfl
      | some v =>
          have hversion : v.version = k := by simpa using List.find?_some hfound
          exact absurd ((hinv id p hp).find?.mp
            ⟨v, List.mem_of_find?_eq_some hfound, hversion, hfound⟩) hk
    simp only [outcome, PolicyManager.rollback, EStateM.run_bind, EStateM.run_get,
      hp, hfind]
    rfl

/-- After any calls the history of every policy is complete, in order and only
grows, if the identifiers drawn for new policies are distinct. -/
theorem historyLaw (calls : List (Call V))
    (hids : (calls.filterMap Call.drawnId).Nodup) : HistoryLaw calls where
  numbered := inv_run calls
  grows := by
    rintro before later id rfl hbefore hafter
    have hold := mem_drawnIds before hbefore
    have hnew : some id ∉ later.map Call.drawnId := by
      intro hmem
      obtain ⟨c, hc, hid⟩ := List.mem_map.mp hmem
      rw [List.filterMap_append, List.nodup_append] at hids
      exact hids.2.2 id hold id (List.mem_filterMap.mpr ⟨c, hc, hid⟩) rfl
    have hrun : run (before ++ later) = later.foldl step (run before) :=
      List.foldl_append
    rw [hrun] at hafter ⊢
    exact (versions_foldl later (run before) hnew hafter).2
  rollback := fun id p order now k rolledBy hp =>
    rollbackLaw (inv_run calls) hp order now k rolledBy
  others := fun c id hid => same_of_ne hid
  failing := by
    intro c hfail
    obtain ⟨-, hstep⟩ | ⟨hok, -⟩ := step_cases (run calls) c
    · exact hstep
    · exact absurd hok hfail

/-- A policy that is created, changed, and taken back. -/
def takenBack : List (Call Nat) := [
  .create .asStored 1 0
    { name := [112], description := [], template := some (HashMap.collect [([97], 1)])
      priority := 0, scopeType := [], scopeId := 0, createdBy := [] },
  .update .asStored 1 1 none [],
  .rollback .asStored 1 2 1 []]

theorem historyLaw_takenBack :
    ((run takenBack).versionsOf 1).map PolicyVersion.version = [1, 2, 3] ∧
      HistoryLaw takenBack :=
  ⟨by decide, historyLaw takenBack (by decide)⟩

end Laws

end PolicyManager
end Control
end HyperBackup
