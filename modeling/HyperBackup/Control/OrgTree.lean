import HyperBackup.Domain
import HyperBackup.Lib.HashMap
import HyperBackup.Lib.JoinedPath
import HyperBackup.Lib.Program

/-!
# The organisation tree

Organisations are kept in a map.  The tree is in it twice: each organisation
has the identifier of its parent, and a path with the identifiers of all that
stand above it.  Strings are byte sequences, and a map is gone through in any
order.

The chain of an organisation is what its parents give.  The invariant says that
every organisation has a chain and that its path is the chain with the
organisation itself, each after a slash.  All questions that the code answers
with paths are then questions about chains.
-/

namespace HyperBackup
namespace Control

open Lib Lib.Program Lib.JoinedPath

/-- The byte of a slash. -/
def slash : UInt8 :=
  47

structure Organization where
  id : GoString
  name : GoString
  path : GoString
  parentId : Option GoString
deriving DecidableEq

abbrev OrgTree : Type :=
  HashMap GoString Organization

/-- An order in which a range loop goes through the map. -/
abbrev RangeOrder : Type :=
  IterOrder (GoString × Organization)

def hasPrefix (s initial : GoString) : Bool :=
  initial.isPrefixOf s

namespace OrgTree

def new : OrgTree :=
  ∅

def addRoot (id name : GoString) : EStateM String OrgTree Organization := do
  let orgs ← get
  if (orgs.lookup id).isSome then
    throw "organization already exists"
  let org : Organization :=
    { id := id
      name := name
      path := slash :: id
      parentId := none }
  set (orgs.insert id org)
  return org

def addChild (id name parentId : GoString) :
    EStateM String OrgTree Organization := do
  let orgs ← get
  if (orgs.lookup id).isSome then
    throw "organization already exists"
  match orgs.lookup parentId with
  | none => throw "parent organization not found"
  | some parent =>
      let org : Organization :=
        { id := id
          name := name
          path := parent.path ++ slash :: id
          parentId := some parentId }
      set (orgs.insert id org)
      return org

/-- The organisations whose path continues that of the given one. -/
def getSubtree (order : RangeOrder) (orgs : OrgTree) (id : GoString) :
    List Organization :=
  match orgs.lookup id with
  | none => []
  | some org =>
      ((order.arrange (HashMap.toList orgs)).map Prod.snd).filter fun o =>
        hasPrefix o.path (org.path ++ [slash])

def getAncestors (orgs : OrgTree) (id : GoString) : List Organization :=
  match orgs.lookup id with
  | none => []
  | some org =>
      let pathParts := (trim slash org.path).splitOn slash
      pathParts.dropLast.filterMap fun ancestorId => orgs.lookup ancestorId

def isAncestor (orgs : OrgTree) (ancestorId id : GoString) : Bool :=
  match orgs.lookup ancestorId, orgs.lookup id with
  | some ancestor, some org => hasPrefix org.path (ancestor.path ++ [slash])
  | _, _ => false

/-- An organisation below the old path gets a path below the new one. -/
def relocated (oldPrefix newPath : GoString) (o : Organization) :
    Organization :=
  if hasPrefix o.path (oldPrefix ++ [slash]) then
    { o with path := newPath ++ o.path.drop oldPrefix.length }
  else o

/-- Go through the map and relocate what stands below the old path. -/
def relocate (order : RangeOrder) (oldPrefix newPath : GoString)
    (orgs : OrgTree) : OrgTree :=
  ((order.arrange (HashMap.toList orgs)).map Prod.fst).foldl
    (fun orgs k => HashMap.modify orgs k (relocated oldPrefix newPath)) orgs

def move (order : RangeOrder) (id newParentId : GoString) :
    EStateM String OrgTree Unit := do
  let orgs ← get
  match orgs.lookup id with
  | none => throw "organization not found"
  | some org =>
      if id = newParentId then
        throw "cannot move to self"
      match orgs.lookup newParentId with
      | none => throw "new parent not found"
      | some newParent =>
          if hasPrefix newParent.path (org.path ++ [slash]) then
            throw "cannot move to descendant"
          let newPath := newParent.path ++ slash :: id
          set (relocate order org.path newPath
            (orgs.insert id
              { org with path := newPath, parentId := some newParentId }))

def delete (order : RangeOrder) (id : GoString) :
    EStateM String OrgTree Unit := do
  let orgs ← get
  match orgs.lookup id with
  | none => throw "organization not found"
  | some org =>
      if (order.arrange (HashMap.toList orgs)).any fun e =>
          hasPrefix e.2.path (org.path ++ [slash]) then
        throw "cannot delete organization with children"
      set (orgs.erase id)

/-- The depth of an organisation; a root has depth 0. -/
def getDepth (orgs : OrgTree) (id : GoString) : Int :=
  match orgs.lookup id with
  | none => -1
  | some org => ((trim slash org.path).count slash : Nat)

inductive Call
  | addRoot (id name : GoString)
  | addChild (id name parentId : GoString)
  | move (order : RangeOrder) (id newParentId : GoString)
  | delete (order : RangeOrder) (id : GoString)

def Call.perform : Call → EStateM String OrgTree Unit
  | .addRoot id name => do
      let _ ← OrgTree.addRoot id name
  | .addChild id name parentId => do
      let _ ← OrgTree.addChild id name parentId
  | .move order id newParentId => OrgTree.move order id newParentId
  | .delete order id => OrgTree.delete order id

def step (orgs : OrgTree) (call : Call) : OrgTree :=
  stateAfter call.perform orgs

def run (calls : List Call) : OrgTree :=
  calls.foldl step new

/-- The identifier is not empty and has no slash in it. -/
def IsId (id : GoString) : Prop :=
  id ≠ [] ∧ slash ∉ id

/-- The identifiers of new organisations are as they should be. -/
def Call.HasId : Call → Prop
  | .addRoot id _ => IsId id
  | .addChild id _ _ => IsId id
  | .move _ _ _ => True
  | .delete _ _ => True

/-- The parents of an organisation from the root on. -/
inductive Chain (orgs : OrgTree) : GoString → List GoString → Prop
  | root {id : GoString} {org : Organization} :
      orgs.lookup id = some org → org.parentId = none → Chain orgs id []
  | child {id parentId : GoString} {org : Organization}
      {chain : List GoString} :
      orgs.lookup id = some org → org.parentId = some parentId →
      Chain orgs parentId chain → Chain orgs id (chain ++ [parentId])

/-- Every organisation has a chain, and its path shows it. -/
structure Inv (orgs : OrgTree) : Prop where
  ids : ∀ id org, orgs.lookup id = some org → org.id = id ∧ IsId id
  paths : ∀ id org, orgs.lookup id = some org →
    ∃ chain, Chain orgs id chain ∧ org.path = joined slash (chain ++ [id])

section Chains

variable {orgs orgs' : OrgTree} {id a : GoString} {chain chain' : List GoString}

/-- The parent entry of an organisation, if it exists. -/
def parentOf (orgs : OrgTree) (id : GoString) : Option (Option GoString) :=
  (orgs.lookup id).map Organization.parentId

theorem Chain.of_parentOf_none (h : parentOf orgs id = some none) :
    Chain orgs id [] := by
  obtain ⟨org, horg, hparent⟩ := Option.map_eq_some_iff.mp h
  exact .root horg hparent

theorem Chain.of_parentOf_some (h : parentOf orgs id = some (some a))
    (hchain : Chain orgs a chain) : Chain orgs id (chain ++ [a]) := by
  obtain ⟨org, horg, hparent⟩ := Option.map_eq_some_iff.mp h
  exact .child horg hparent hchain

theorem Chain.exists_lookup (h : Chain orgs id chain) :
    ∃ org, orgs.lookup id = some org := by
  cases h with
  | root horg _ =>
      exact ⟨_, horg⟩
  | child horg _ _ =>
      exact ⟨_, horg⟩

theorem Chain.unique (h : Chain orgs id chain) (h' : Chain orgs id chain') :
    chain = chain' := by
  induction h generalizing chain' with
  | root horg hparent =>
      cases h' with
      | root _ _ =>
          rfl
      | child horg' hparent' _ =>
          obtain rfl := Option.some.inj (horg.symm.trans horg')
          rw [hparent] at hparent'
          cases hparent'
  | child horg hparent _ ih =>
      cases h' with
      | root horg' hparent' =>
          obtain rfl := Option.some.inj (horg.symm.trans horg')
          rw [hparent] at hparent'
          cases hparent'
      | child horg' hparent' hchain' =>
          obtain rfl := Option.some.inj (horg.symm.trans horg')
          rw [hparent] at hparent'
          obtain rfl := Option.some.inj hparent'
          rw [ih hchain']

/-- What stands before an organisation on a chain is its own chain. -/
theorem Chain.of_append_cons {front back : List GoString}
    (h : Chain orgs id (front ++ a :: back)) : Chain orgs a front := by
  generalize hwhole : front ++ a :: back = whole at h
  induction h generalizing back with
  | root _ _ =>
      simp at hwhole
  | @child id parentId org chain _ _ hchain ih =>
      cases back using List.reverseRecOn with
      | nil =>
          obtain ⟨rfl, hlast⟩ := List.append_inj' hwhole rfl
          obtain ⟨rfl, -⟩ := List.cons.inj hlast
          exact hchain
      | append_singleton back last =>
          rw [← List.cons_append, ← List.append_assoc] at hwhole
          exact ih (List.append_inj' hwhole rfl).1

/-- The chain is acyclic. -/
theorem Chain.not_mem_self (h : Chain orgs id chain) : id ∉ chain := by
  intro hmem
  obtain ⟨front, back, rfl⟩ := List.append_of_mem hmem
  have hlen := congrArg List.length (h.unique h.of_append_cons)
  simp at hlen

theorem Chain.nodup (h : Chain orgs id chain) : (chain ++ [id]).Nodup := by
  induction h with
  | root _ _ =>
      exact List.nodup_singleton _
  | child horg hparent hchain ih =>
      rw [← List.concat_eq_append, List.nodup_concat]
      exact ⟨(Chain.child horg hparent hchain).not_mem_self, ih⟩

/-- A chain stays where no parent on it changes. -/
theorem Chain.congr (h : Chain orgs id chain)
    (hsame : ∀ k ∈ chain ++ [id], parentOf orgs' k = parentOf orgs k) :
    Chain orgs' id chain := by
  induction h with
  | root horg hparent =>
      refine .of_parentOf_none ?_
      rw [hsame _ (by simp), parentOf, horg, Option.map_some, hparent]
  | child horg hparent _ ih =>
      refine .of_parentOf_some ?_ (ih fun k hk =>
        hsame k (List.mem_append_left _ hk))
      rw [hsame _ (by simp), parentOf, horg, Option.map_some, hparent]

/-- Below an organisation that has a new chain, chains are continued. -/
theorem Chain.graft {front back : List GoString}
    (h : Chain orgs id (front ++ a :: back)) (ha : Chain orgs' a chain')
    (hsame : ∀ k ∈ back ++ [id], parentOf orgs' k = parentOf orgs k) :
    Chain orgs' id (chain' ++ a :: back) := by
  generalize hwhole : front ++ a :: back = whole at h
  induction h generalizing back with
  | root _ _ =>
      simp at hwhole
  | @child id parentId org chain horg hparent _ ih =>
      have hid : parentOf orgs' id = some (some parentId) := by
        rw [hsame _ (by simp), parentOf, horg, Option.map_some, hparent]
      cases back using List.reverseRecOn with
      | nil =>
          obtain ⟨-, hlast⟩ := List.append_inj' hwhole rfl
          obtain ⟨rfl, -⟩ := List.cons.inj hlast
          exact .of_parentOf_some hid ha
      | append_singleton back last =>
          rw [← List.cons_append, ← List.append_assoc] at hwhole ⊢
          obtain ⟨hfront, hlast⟩ := List.append_inj' hwhole rfl
          obtain ⟨rfl, -⟩ := List.cons.inj hlast
          exact .of_parentOf_some hid
            (ih (fun k hk => hsame k (List.mem_append_left _ hk)) hfront)

end Chains

section Paths

variable {orgs : OrgTree} {a b : GoString} {oa ob : Organization}
variable {chain : List GoString}

theorem Inv.isId_of_chain (h : Inv orgs) (hchain : Chain orgs b chain) :
    ∀ k ∈ chain ++ [b], IsId k := by
  have hself : ∀ {k chain}, Chain orgs k chain → IsId k := by
    intro k chain hk
    obtain ⟨org, horg⟩ := hk.exists_lookup
    exact (h.ids k org horg).2
  intro k hk
  obtain hk | hk := List.mem_append.mp hk
  · obtain ⟨front, back, rfl⟩ := List.append_of_mem hk
    exact hself hchain.of_append_cons
  · rw [List.mem_singleton.mp hk]
    exact hself hchain

theorem Inv.path_eq (h : Inv orgs) (hb : orgs.lookup b = some ob)
    (hchain : Chain orgs b chain) :
    ob.path = joined slash (chain ++ [b]) := by
  obtain ⟨chain', hchain', hpath⟩ := h.paths b ob hb
  rw [hchain.unique hchain', hpath]

/-- A path continues another exactly if the one organisation is on the chain of
the other. -/
theorem Inv.hasPrefix_iff (h : Inv orgs) (ha : orgs.lookup a = some oa)
    (hb : orgs.lookup b = some ob) (hchain : Chain orgs b chain) :
    hasPrefix ob.path (oa.path ++ [slash]) = true ↔ a ∈ chain := by
  obtain ⟨chainA, hchainA, hpathA⟩ := h.paths a oa ha
  have hsepA := h.isId_of_chain hchainA
  have hsep := h.isId_of_chain hchain
  rw [hasPrefix, List.isPrefixOf_iff_prefix, hpathA, h.path_eq hb hchain,
    joined_append_isPrefix_concat (fun part hpart => (hsepA part hpart).2)
      (fun part hpart => (hsep part hpart).2)]
  constructor
  · rintro ⟨back, rfl⟩
    simp
  · intro hmem
    obtain ⟨front, back, rfl⟩ := List.append_of_mem hmem
    rw [hchainA.unique hchain.of_append_cons]
    exact ⟨back, by simp⟩

end Paths

section Creation

variable {orgs : OrgTree} {id name parentId : GoString} {org : Organization}

theorem run_addRoot (hfree : orgs.lookup id = none) :
    ∃ org, (addRoot id name).run orgs = .ok org (orgs.insert id org) ∧
      org.id = id ∧ org.parentId = none ∧ org.path = slash :: id := by
  refine ⟨⟨id, name, slash :: id, none⟩, ?_, rfl, rfl, rfl⟩
  simp only [addRoot, EStateM.run_bind, EStateM.run_get, hfree,
    Option.isSome_none, Bool.false_eq_true, if_false, EStateM.run_set]
  rfl

theorem run_addRoot_exists (htaken : orgs.lookup id = some org) :
    (addRoot id name).run orgs =
      .error "organization already exists" orgs := by
  simp only [addRoot, EStateM.run_bind, EStateM.run_get, htaken,
    Option.isSome_some, if_true]
  rfl

theorem run_addChild {parent : Organization}
    (hfree : orgs.lookup id = none)
    (hparent : orgs.lookup parentId = some parent) :
    ∃ org, (addChild id name parentId).run orgs =
        .ok org (orgs.insert id org) ∧
      org.id = id ∧ org.parentId = some parentId ∧
      org.path = parent.path ++ slash :: id := by
  refine ⟨⟨id, name, parent.path ++ slash :: id, some parentId⟩, ?_, rfl, rfl,
    rfl⟩
  simp only [addChild, EStateM.run_bind, EStateM.run_get, hfree, hparent,
    Option.isSome_none, Bool.false_eq_true, if_false, EStateM.run_set]
  rfl

theorem run_addChild_exists (htaken : orgs.lookup id = some org) :
    (addChild id name parentId).run orgs =
      .error "organization already exists" orgs := by
  simp only [addChild, EStateM.run_bind, EStateM.run_get, htaken,
    Option.isSome_some, if_true]
  rfl

theorem run_addChild_noParent (hfree : orgs.lookup id = none)
    (hparent : orgs.lookup parentId = none) :
    (addChild id name parentId).run orgs =
      .error "parent organization not found" orgs := by
  simp only [addChild, EStateM.run_bind, EStateM.run_get, hfree, hparent,
    Option.isSome_none, Bool.false_eq_true, if_false]
  rfl

/-- A new organisation is on no chain. -/
theorem Chain.insert {k : GoString} {chain : List GoString}
    (h : Chain orgs k chain) (hfree : orgs.lookup id = none) :
    Chain (orgs.insert id org) k chain := by
  refine h.congr fun k' hk' => ?_
  have hold : ∃ org, orgs.lookup k' = some org := by
    obtain hk' | hk' := List.mem_append.mp hk'
    · obtain ⟨front, back, rfl⟩ := List.append_of_mem hk'
      exact h.of_append_cons.exists_lookup
    · rw [List.mem_singleton.mp hk']
      exact h.exists_lookup
  have hne : k' ≠ id := by
    rintro rfl
    obtain ⟨old, hlookup⟩ := hold
    rw [hfree] at hlookup
    cases hlookup
  rw [parentOf, parentOf, AList.lookup_insert_ne hne]

/-- A new organisation with a chain and the path of it keeps the invariant. -/
theorem Inv.insert {chain : List GoString} (h : Inv orgs)
    (hfree : orgs.lookup id = none) (hid : org.id = id ∧ IsId id)
    (hchain : Chain (orgs.insert id org) id chain)
    (hpath : org.path = joined slash (chain ++ [id])) :
    Inv (orgs.insert id org) where
  ids := by
    intro k o hk
    rcases HashMap.lookup_insert_eq_some.mp hk with ⟨rfl, rfl⟩ | ⟨-, hold⟩
    · exact hid
    · exact h.ids k o hold
  paths := by
    intro k o hk
    rcases HashMap.lookup_insert_eq_some.mp hk with ⟨rfl, rfl⟩ | ⟨-, hold⟩
    · exact ⟨chain, hchain, hpath⟩
    · obtain ⟨chain', hchain', hpath'⟩ := h.paths k o hold
      exact ⟨chain', hchain'.insert hfree, hpath'⟩

theorem Inv.insert_root (h : Inv orgs) (hfree : orgs.lookup id = none)
    (hid : org.id = id) (hisId : IsId id) (hparent : org.parentId = none)
    (hpath : org.path = slash :: id) : Inv (orgs.insert id org) := by
  refine h.insert hfree ⟨hid, hisId⟩
    (.root (AList.lookup_insert _) hparent) ?_
  rw [hpath, List.nil_append, joined_cons, joined_nil, List.append_nil]

theorem Inv.insert_child {parent : Organization} (h : Inv orgs)
    (hfree : orgs.lookup id = none)
    (hlookup : orgs.lookup parentId = some parent)
    (hid : org.id = id) (hisId : IsId id)
    (hparent : org.parentId = some parentId)
    (hpath : org.path = parent.path ++ slash :: id) :
    Inv (orgs.insert id org) := by
  obtain ⟨chain, hchain, hparentPath⟩ := h.paths parentId parent hlookup
  refine h.insert hfree ⟨hid, hisId⟩
    (.child (AList.lookup_insert _) hparent (hchain.insert hfree)) ?_
  rw [hpath, hparentPath, ← joined_concat]

end Creation

section Relocation

variable {orgs : OrgTree} {oldPrefix newPath : GoString}

/-- Each organisation is visited once. -/
theorem lookup_relocate (order : RangeOrder) (orgs : OrgTree) (k : GoString) :
    (relocate order oldPrefix newPath orgs).lookup k =
      (orgs.lookup k).map (relocated oldPrefix newPath) := by
  have hfold : ∀ (ks : List GoString) (orgs : OrgTree), ks.Nodup →
      (ks.foldl (fun orgs k =>
        HashMap.modify orgs k (relocated oldPrefix newPath)) orgs).lookup k =
        if k ∈ ks then (orgs.lookup k).map (relocated oldPrefix newPath)
        else orgs.lookup k := by
    intro ks
    induction ks with
    | nil =>
        intro orgs _
        simp
    | cons first ks ih =>
        intro orgs hnodup
        obtain ⟨hfirst, hks⟩ := List.nodup_cons.mp hnodup
        rw [List.foldl_cons, ih _ hks, HashMap.lookup_modify]
        by_cases heq : k = first
        · subst heq
          simp [hfirst]
        · simp [heq]
  have hperm := (order.perm (HashMap.toList orgs)).map Prod.fst
  rw [relocate, hfold _ _ (hperm.nodup_iff.mpr
    (HashMap.nodup_map_fst_toList orgs))]
  split
  · rfl
  next hmissing =>
    cases hk : orgs.lookup k with
    | none =>
        rfl
    | some org =>
        refine absurd (hperm.mem_iff.mpr ?_) hmissing
        exact List.mem_map.mpr ⟨(k, org), HashMap.mem_toList.mpr hk, rfl⟩

@[simp] theorem relocated_id (o : Organization) :
    (relocated oldPrefix newPath o).id = o.id := by
  unfold relocated
  split
  · rfl
  · rfl

@[simp] theorem relocated_parentId (o : Organization) :
    (relocated oldPrefix newPath o).parentId = o.parentId := by
  unfold relocated
  split
  · rfl
  · rfl

end Relocation

section Moving

variable {orgs : OrgTree} {id newParentId : GoString}
variable {org newParent : Organization} (order : RangeOrder)

/-- The map after a move. -/
def moved (orgs : OrgTree) (id newParentId : GoString)
    (org newParent : Organization) : OrgTree :=
  let newPath := newParent.path ++ slash :: id
  relocate order org.path newPath
    (orgs.insert id { org with path := newPath, parentId := some newParentId })

theorem run_move (horg : orgs.lookup id = some org) (hne : id ≠ newParentId)
    (hparent : orgs.lookup newParentId = some newParent)
    (habove : hasPrefix newParent.path (org.path ++ [slash]) = false) :
    (move order id newParentId).run orgs =
      .ok () (moved order orgs id newParentId org newParent) := by
  simp only [move, EStateM.run_bind, EStateM.run_get, horg, if_neg hne, hparent,
    habove, Bool.false_eq_true, if_false]
  rfl

/-- A move is refused, or the new parent stands elsewhere in the tree. -/
theorem move_cases (orgs : OrgTree) (id newParentId : GoString) :
    (∃ e, (move order id newParentId).run orgs = .error e orgs) ∨
      ∃ org newParent, orgs.lookup id = some org ∧ id ≠ newParentId ∧
        orgs.lookup newParentId = some newParent ∧
        hasPrefix newParent.path (org.path ++ [slash]) = false ∧
        (move order id newParentId).run orgs =
          .ok () (moved order orgs id newParentId org newParent) := by
  cases horg : orgs.lookup id with
  | none =>
      refine Or.inl ⟨"organization not found", ?_⟩
      simp only [move, EStateM.run_bind, EStateM.run_get, horg]
      rfl
  | some org =>
      by_cases hne : id = newParentId
      · refine Or.inl ⟨"cannot move to self", ?_⟩
        simp only [move, EStateM.run_bind, EStateM.run_get, horg, if_pos hne]
        rfl
      · cases hparent : orgs.lookup newParentId with
        | none =>
            refine Or.inl ⟨"new parent not found", ?_⟩
            simp only [move, EStateM.run_bind, EStateM.run_get, horg,
              if_neg hne, hparent]
            rfl
        | some newParent =>
            cases habove : hasPrefix newParent.path (org.path ++ [slash]) with
            | false =>
                exact Or.inr ⟨org, newParent, rfl, hne, rfl, habove,
                  run_move order horg hne hparent habove⟩
            | true =>
                refine Or.inl ⟨"cannot move to descendant", ?_⟩
                simp only [move, EStateM.run_bind, EStateM.run_get, horg,
                  if_neg hne, hparent, habove, if_true]
                rfl

theorem lookup_moved (k : GoString) :
    (moved order orgs id newParentId org newParent).lookup k =
      (if k = id then
        some { org with
          path := newParent.path ++ slash :: id
          parentId := some newParentId }
      else orgs.lookup k).map
        (relocated org.path (newParent.path ++ slash :: id)) := by
  rw [moved, lookup_relocate, HashMap.lookup_insert_of]

/-- A move changes one parent. -/
theorem parentOf_moved (k : GoString) :
    parentOf (moved order orgs id newParentId org newParent) k =
      if k = id then some (some newParentId) else parentOf orgs k := by
  rw [parentOf, lookup_moved, Option.map_map]
  by_cases heq : k = id
  · rw [if_pos heq, if_pos heq, Option.map_some, Function.comp_apply,
      relocated_parentId]
  · rw [if_neg heq, if_neg heq, parentOf]
    congr 1
    funext o
    exact relocated_parentId o

section Chains

variable {above chain front back : List GoString} {k : GoString}

/-- Chains without the moved organisation stay. -/
theorem Chain.moved (hchain : Chain orgs k chain) (hnot : id ∉ chain ++ [k]) :
    Chain (OrgTree.moved order orgs id newParentId org newParent) k chain := by
  refine hchain.congr fun k' hk' => ?_
  rw [parentOf_moved, if_neg]
  rintro rfl
  exact hnot hk'

/-- The new chain of the moved organisation. -/
theorem Chain.moved_self (habove : Chain orgs newParentId above)
    (hnot : id ∉ above ++ [newParentId]) :
    Chain (OrgTree.moved order orgs id newParentId org newParent) id
      (above ++ [newParentId]) := by
  refine .of_parentOf_some ?_ (habove.moved order hnot)
  rw [parentOf_moved, if_pos rfl]

/-- The organisations below the moved one go with it. -/
theorem Chain.moved_below (hchain : Chain orgs k (front ++ id :: back))
    (habove : Chain orgs newParentId above) (hnot : id ∉ above ++ [newParentId]) :
    Chain (OrgTree.moved order orgs id newParentId org newParent) k
      (above ++ [newParentId] ++ id :: back) := by
  refine hchain.graft (habove.moved_self order hnot) fun k' hk' => ?_
  rw [parentOf_moved, if_neg]
  rintro rfl
  have hnodup := hchain.nodup
  rw [List.append_assoc, List.cons_append, List.nodup_middle,
    List.nodup_cons] at hnodup
  exact hnodup.1 (List.mem_append_right _ hk')

/-- The new parent does not stand below the organisation. -/
theorem Inv.not_mem_above (h : Inv orgs) (horg : orgs.lookup id = some org)
    (hne : id ≠ newParentId) (hparent : orgs.lookup newParentId = some newParent)
    (hoff : hasPrefix newParent.path (org.path ++ [slash]) = false)
    (habove : Chain orgs newParentId above) : id ∉ above ++ [newParentId] := by
  rw [List.mem_append, List.mem_singleton, not_or]
  refine ⟨fun hmem => ?_, hne⟩
  rw [(h.hasPrefix_iff horg hparent habove).mpr hmem] at hoff
  cases hoff

/-- So the new path of the organisation is not below its old one. -/
theorem Inv.not_hasPrefix_newPath (h : Inv orgs) (horg : orgs.lookup id = some org)
    (hparent : orgs.lookup newParentId = some newParent)
    (habove : Chain orgs newParentId above) (hnot : id ∉ above ++ [newParentId]) :
    ¬ hasPrefix (newParent.path ++ slash :: id) (org.path ++ [slash]) = true := by
  obtain ⟨front, hfront, hpath⟩ := h.paths id org horg
  have hnewPath : newParent.path ++ slash :: id =
      joined slash (above ++ [newParentId] ++ [id]) := by
    rw [h.path_eq hparent habove, ← joined_concat]
  have hsep : ∀ part ∈ above ++ [newParentId] ++ [id], slash ∉ part := by
    intro part hpart
    obtain hpart | hpart := List.mem_append.mp hpart
    · exact (h.isId_of_chain habove part hpart).2
    · rw [List.mem_singleton.mp hpart]
      exact (h.ids id org horg).2.2
  rw [hasPrefix, List.isPrefixOf_iff_prefix, hpath, hnewPath,
    joined_append_isPrefix_concat
      (fun part hpart => (h.isId_of_chain hfront part hpart).2) hsep]
  intro hinit
  exact hnot (hinit.subset (by simp))

end Chains

/-- Moving an organisation keeps the invariant. -/
theorem Inv.moved (h : Inv orgs) (horg : orgs.lookup id = some org)
    (hne : id ≠ newParentId)
    (hparent : orgs.lookup newParentId = some newParent)
    (habove : hasPrefix newParent.path (org.path ++ [slash]) = false) :
    Inv (OrgTree.moved order orgs id newParentId org newParent) := by
  obtain ⟨front, hfront, hpath⟩ := h.paths id org horg
  obtain ⟨above, habove', hparentPath⟩ := h.paths newParentId newParent hparent
  have hnot := h.not_mem_above horg hne hparent habove habove'
  have hnewPath : newParent.path ++ slash :: id =
      joined slash (above ++ [newParentId] ++ [id]) := by
    rw [hparentPath, ← joined_concat]
  refine ⟨fun k o hk => ?_, fun k o hk => ?_⟩
  · rw [lookup_moved, Option.map_eq_some_iff] at hk
    obtain ⟨o', ho', rfl⟩ := hk
    rw [relocated_id]
    split at ho'
    next heq =>
      obtain rfl := Option.some.inj ho'
      rw [heq]
      exact h.ids id org horg
    · exact h.ids k o' ho'
  · rw [lookup_moved, Option.map_eq_some_iff] at hk
    obtain ⟨o', ho', rfl⟩ := hk
    split at ho'
    next heq =>
      obtain rfl := Option.some.inj ho'
      subst heq
      refine ⟨above ++ [newParentId], habove'.moved_self order hnot, ?_⟩
      rw [relocated,
        if_neg (h.not_hasPrefix_newPath horg hparent habove' hnot), hnewPath]
    next hk =>
      obtain ⟨chain, hchain, hpath'⟩ := h.paths k o' ho'
      have hbelow := h.hasPrefix_iff horg ho' hchain
      by_cases hmem : id ∈ chain
      · obtain ⟨front', back, rfl⟩ := List.append_of_mem hmem
        obtain rfl := hfront.unique hchain.of_append_cons
        refine ⟨above ++ [newParentId] ++ id :: back,
          hchain.moved_below order habove' hnot, ?_⟩
        have hdrop := @drop_joined _ slash (front ++ [id]) (back ++ [k])
        have hwhole : front ++ [id] ++ (back ++ [k]) =
            front ++ id :: back ++ [k] := by
          simp
        rw [relocated, if_pos (hbelow.mpr hmem), hpath', hpath, hnewPath,
          ← hwhole, hdrop, ← joined_append]
        simp
      · refine ⟨chain, hchain.moved order ?_, ?_⟩
        · rw [List.mem_append, List.mem_singleton, not_or]
          exact ⟨hmem, Ne.symm hk⟩
        · rw [relocated, if_neg fun hprefix => hmem (hbelow.mp hprefix), hpath']

end Moving

section Deletion

variable {orgs : OrgTree} {id : GoString} {org : Organization}
variable (order : RangeOrder)

/-- The organisation stands above no other one. -/
def IsLeaf (orgs : OrgTree) (id : GoString) : Prop :=
  ∀ k o, orgs.lookup k = some o → o.parentId ≠ some id

/-- Some path continues that of an organisation exactly if it has children. -/
theorem Inv.any_hasPrefix_iff (h : Inv orgs)
    (horg : orgs.lookup id = some org) :
    ((order.arrange (HashMap.toList orgs)).any fun e =>
      hasPrefix e.2.path (org.path ++ [slash])) = true ↔ ¬ IsLeaf orgs id := by
  rw [List.any_eq_true]
  constructor
  · rintro ⟨⟨k, o⟩, hmem, hprefix⟩ hleaf
    rw [IterOrder.mem_arrange, HashMap.mem_toList] at hmem
    obtain ⟨chain, hchain, -⟩ := h.paths k o hmem
    have hid := (h.hasPrefix_iff horg hmem hchain).mp hprefix
    clear hprefix hmem
    induction hchain with
    | root _ _ =>
        cases hid
    | @child k' parentId o' chain hlookup hparent _ ih =>
        obtain hid | hid := List.mem_append.mp hid
        · exact ih hid
        · rw [List.mem_singleton] at hid
          exact hleaf k' o' hlookup (hparent.trans (congrArg some hid.symm))
  · intro hleaf
    unfold IsLeaf at hleaf
    push Not at hleaf
    obtain ⟨k, o, hlookup, hparent⟩ := hleaf
    obtain ⟨front, hfront, -⟩ := h.paths id org horg
    refine ⟨(k, o), ?_, (h.hasPrefix_iff horg hlookup
      (.child hlookup hparent hfront)).mpr (by simp)⟩
    rw [IterOrder.mem_arrange, HashMap.mem_toList]
    exact hlookup

theorem run_delete_leaf (h : Inv orgs) (horg : orgs.lookup id = some org)
    (hleaf : IsLeaf orgs id) :
    (delete order id).run orgs = .ok () (orgs.erase id) := by
  have hany : ¬ ((order.arrange (HashMap.toList orgs)).any fun e =>
      hasPrefix e.2.path (org.path ++ [slash])) = true :=
    fun hany => (h.any_hasPrefix_iff order horg).mp hany hleaf
  simp only [delete, EStateM.run_bind, EStateM.run_get, horg, if_neg hany]
  rfl

theorem run_delete_parent (h : Inv orgs) (horg : orgs.lookup id = some org)
    (hleaf : ¬ IsLeaf orgs id) :
    (delete order id).run orgs =
      .error "cannot delete organization with children" orgs := by
  have hany := (h.any_hasPrefix_iff order horg).mpr hleaf
  simp only [delete, EStateM.run_bind, EStateM.run_get, horg, if_pos hany]
  rfl

theorem run_delete_missing (hmissing : orgs.lookup id = none) :
    (delete order id).run orgs = .error "organization not found" orgs := by
  simp only [delete, EStateM.run_bind, EStateM.run_get, hmissing]
  rfl

/-- Deleting a leaf keeps the invariant. -/
theorem Inv.erase (h : Inv orgs) (hleaf : IsLeaf orgs id) :
    Inv (orgs.erase id) := by
  have hoff : ∀ {k chain}, Chain orgs k chain → id ∉ chain := by
    intro k chain hchain
    induction hchain with
    | root _ _ =>
        exact List.not_mem_nil
    | @child k' parentId o' chain hlookup hparent _ ih =>
        rw [List.mem_append, List.mem_singleton, not_or]
        refine ⟨ih, ?_⟩
        rintro rfl
        exact hleaf k' o' hlookup hparent
  refine ⟨fun k o hk => ?_, fun k o hk => ?_⟩
  · exact h.ids k o (HashMap.lookup_erase_eq_some.mp hk).2
  · obtain ⟨hne, hold⟩ := HashMap.lookup_erase_eq_some.mp hk
    obtain ⟨chain, hchain, hpath⟩ := h.paths k o hold
    refine ⟨chain, hchain.congr fun k' hk' => ?_, hpath⟩
    have hother : k' ≠ id := by
      rintro rfl
      obtain hmem | hmem := List.mem_append.mp hk'
      · exact hoff hchain hmem
      · exact hne (List.mem_singleton.mp hmem).symm
    rw [parentOf, parentOf, AList.lookup_erase_ne hother]

end Deletion

section Invariant

variable {orgs : OrgTree} {calls : List Call} {call : Call}

theorem inv_new : Inv new where
  ids := by
    intro id org h
    cases h
  paths := by
    intro id org h
    cases h

/-- A call fails and changes nothing, or it keeps the invariant. -/
theorem Inv.step_cases (h : Inv orgs) (hid : call.HasId) :
    (∃ e, call.perform.run orgs = .error e orgs) ∨
      ∃ orgs', call.perform.run orgs = .ok () orgs' ∧ Inv orgs' := by
  cases call with
  | addRoot id name =>
      cases hlookup : orgs.lookup id with
      | some org =>
          exact Or.inl ⟨_, run_bind_of_error (run_addRoot_exists hlookup)⟩
      | none =>
          obtain ⟨org, hrun, horgId, hparent, hpath⟩ :=
            @run_addRoot orgs id name hlookup
          exact Or.inr ⟨_, run_bind_of_ok hrun,
            h.insert_root hlookup horgId hid hparent hpath⟩
  | addChild id name parentId =>
      cases hlookup : orgs.lookup id with
      | some org =>
          exact Or.inl ⟨_, run_bind_of_error (run_addChild_exists hlookup)⟩
      | none =>
          cases hfound : orgs.lookup parentId with
          | none =>
              exact Or.inl ⟨_,
                run_bind_of_error (run_addChild_noParent hlookup hfound)⟩
          | some parent =>
              obtain ⟨org, hrun, horgId, hparent, hpath⟩ :=
                @run_addChild orgs id name parentId parent hlookup hfound
              exact Or.inr ⟨_, run_bind_of_ok hrun,
                h.insert_child hlookup hfound horgId hid hparent hpath⟩
  | move order id newParentId =>
      obtain hfails | ⟨org, newParent, horg, hne, hparent, habove, hrun⟩ :=
        move_cases order orgs id newParentId
      · exact Or.inl hfails
      · exact Or.inr ⟨_, hrun, h.moved order horg hne hparent habove⟩
  | delete order id =>
      cases horg : orgs.lookup id with
      | none =>
          exact Or.inl ⟨_, run_delete_missing order horg⟩
      | some org =>
          by_cases hleaf : IsLeaf orgs id
          · exact Or.inr ⟨_, run_delete_leaf order h horg hleaf,
              h.erase hleaf⟩
          · exact Or.inl ⟨_, run_delete_parent order h horg hleaf⟩

/-- The invariant holds after every sequence of calls. -/
theorem inv_run (hids : ∀ call ∈ calls, call.HasId) : Inv (run calls) := by
  have hfold : ∀ (calls : List Call) (orgs : OrgTree), Inv orgs →
      (∀ call ∈ calls, call.HasId) → Inv (calls.foldl step orgs) := by
    intro calls
    induction calls with
    | nil =>
        intro orgs h _
        exact h
    | cons call calls ih =>
        intro orgs h hids
        refine ih _ ?_ fun c hc => hids c (List.mem_cons_of_mem _ hc)
        obtain ⟨e, hrun⟩ | ⟨orgs', hrun, hinv⟩ :=
          h.step_cases (hids call List.mem_cons_self)
        · rw [step, stateAfter, hrun]
          exact h
        · rw [step, stateAfter, hrun]
          exact hinv
  exact hfold calls new inv_new hids

end Invariant

section Answers

variable {orgs : OrgTree} {a b : GoString} {chain : List GoString}

theorem Inv.isAncestor_iff (h : Inv orgs) (a b : GoString) :
    isAncestor orgs a b = true ↔ ∃ chain, Chain orgs b chain ∧ a ∈ chain := by
  constructor
  · intro hanswer
    unfold isAncestor at hanswer
    split at hanswer
    next oa ob ha hb =>
      obtain ⟨chain, hchain, -⟩ := h.paths b ob hb
      exact ⟨chain, hchain, (h.hasPrefix_iff ha hb hchain).mp hanswer⟩
    · cases hanswer
  · rintro ⟨chain, hchain, hmem⟩
    obtain ⟨ob, hb⟩ := hchain.exists_lookup
    obtain ⟨front, back, rfl⟩ := List.append_of_mem hmem
    obtain ⟨oa, ha⟩ := hchain.of_append_cons.exists_lookup
    simp only [isAncestor, ha, hb]
    exact (h.hasPrefix_iff ha hb hchain).mpr hmem

/-- The organisations of the map are different, also without their keys. -/
theorem Inv.nodup_values (h : Inv orgs) (order : RangeOrder) :
    ((order.arrange (HashMap.toList orgs)).map Prod.snd).Nodup := by
  refine (((order.perm _).map Prod.snd).nodup_iff).mpr ?_
  refine List.Nodup.of_map Organization.id ?_
  have hkeys : ((HashMap.toList orgs).map Prod.snd).map Organization.id =
      (HashMap.toList orgs).map Prod.fst := by
    rw [List.map_map]
    refine List.map_congr_left fun e he => ?_
    exact (h.ids e.1 e.2 (HashMap.mem_toList.mp he)).1
  rw [hkeys]
  exact HashMap.nodup_map_fst_toList orgs

theorem Inv.mem_getSubtree (h : Inv orgs) (order : RangeOrder) (a : GoString)
    (o : Organization) :
    o ∈ getSubtree order orgs a ↔ orgs.lookup o.id = some o ∧
      ∃ chain, Chain orgs o.id chain ∧ a ∈ chain := by
  have hvalue : o ∈ (order.arrange (HashMap.toList orgs)).map Prod.snd ↔
      orgs.lookup o.id = some o := by
    simp only [List.mem_map, IterOrder.mem_arrange]
    constructor
    · rintro ⟨⟨k, o'⟩, hmem, rfl⟩
      rw [HashMap.mem_toList] at hmem
      rw [(h.ids k o' hmem).1]
      exact hmem
    · intro hlookup
      exact ⟨(o.id, o), HashMap.mem_toList.mpr hlookup, rfl⟩
  unfold getSubtree
  cases ha : orgs.lookup a with
  | none =>
      simp only [List.not_mem_nil, false_iff]
      rintro ⟨-, chain, hchain, hmem⟩
      obtain ⟨front, back, rfl⟩ := List.append_of_mem hmem
      obtain ⟨oa, hoa⟩ := hchain.of_append_cons.exists_lookup
      rw [ha] at hoa
      cases hoa
  | some oa =>
      rw [List.mem_filter, hvalue]
      refine and_congr_right fun ho => ?_
      obtain ⟨chain, hchain, -⟩ := h.paths o.id o ho
      rw [h.hasPrefix_iff ha ho hchain]
      constructor
      · intro hmem
        exact ⟨chain, hchain, hmem⟩
      · rintro ⟨chain', hchain', hmem⟩
        rw [hchain.unique hchain']
        exact hmem

theorem Inv.nodup_getSubtree (h : Inv orgs) (order : RangeOrder)
    (a : GoString) : (getSubtree order orgs a).Nodup := by
  unfold getSubtree
  cases orgs.lookup a with
  | none =>
      exact List.nodup_nil
  | some oa =>
      exact (h.nodup_values order).filter _

/-- The parts of a path are the chain and the organisation itself. -/
theorem Inv.parts_of_path (h : Inv orgs) (hchain : Chain orgs b chain) :
    ∀ part ∈ chain ++ [b], part ≠ [] ∧ slash ∉ part :=
  h.isId_of_chain hchain

theorem map_some_filterMap {α β : Type} {f : α → Option β} {l : List α}
    (h : ∀ a ∈ l, (f a).isSome) : (l.filterMap f).map some = l.map f := by
  induction l with
  | nil =>
      rfl
  | cons a l ih =>
      obtain ⟨b, hb⟩ := Option.isSome_iff_exists.mp (h a List.mem_cons_self)
      rw [List.filterMap_cons_some hb, List.map_cons, List.map_cons, hb,
        ih fun a' ha' => h a' (List.mem_cons_of_mem _ ha')]

theorem Inv.getAncestors_eq (h : Inv orgs) (hchain : Chain orgs b chain) :
    (getAncestors orgs b).map some = chain.map fun k => orgs.lookup k := by
  obtain ⟨ob, hb⟩ := hchain.exists_lookup
  simp only [getAncestors, hb]
  rw [h.path_eq hb hchain,
    splitOn_trim_joined (by simp) (h.parts_of_path hchain),
    List.dropLast_concat]
  refine map_some_filterMap fun k hk => ?_
  obtain ⟨front, back, rfl⟩ := List.append_of_mem hk
  obtain ⟨o, ho⟩ := hchain.of_append_cons.exists_lookup
  rw [ho]
  rfl

theorem Inv.getDepth_eq (h : Inv orgs) (hchain : Chain orgs b chain) :
    getDepth orgs b = chain.length := by
  obtain ⟨ob, hb⟩ := hchain.exists_lookup
  have hcount := @count_trim_joined _ _ slash (chain ++ [b]) (by simp)
    (h.parts_of_path hchain)
  simp only [getDepth, hb]
  rw [h.path_eq hb hchain]
  simp only [List.length_append, List.length_singleton] at hcount
  omega

theorem Inv.delete_iff (h : Inv orgs) (order : RangeOrder) (id : GoString) :
    (∃ orgs', (delete order id).run orgs = .ok () orgs') ↔
      (orgs.lookup id).isSome ∧ IsLeaf orgs id := by
  cases horg : orgs.lookup id with
  | none =>
      simp [run_delete_missing order horg]
  | some org =>
      by_cases hleaf : IsLeaf orgs id
      · simp [run_delete_leaf order h horg hleaf, hleaf]
      · simp [run_delete_parent order h horg hleaf, hleaf]

/-- The two ways in which the tree is kept agree. -/
structure Consistent (orgs : OrgTree) : Prop where
  path : ∀ id org, orgs.lookup id = some org →
    ∃ chain, Chain orgs id chain ∧ (chain ++ [id]).Nodup ∧
      org.path = joined slash (chain ++ [id])
  ancestor : ∀ a b, isAncestor orgs a b = true ↔
    ∃ chain, Chain orgs b chain ∧ a ∈ chain
  subtree : ∀ order a, (getSubtree order orgs a).Nodup ∧
    ∀ o, o ∈ getSubtree order orgs a ↔ orgs.lookup o.id = some o ∧
      ∃ chain, Chain orgs o.id chain ∧ a ∈ chain
  ancestors : ∀ b chain, Chain orgs b chain →
    (getAncestors orgs b).map some = chain.map fun k => orgs.lookup k
  depth : ∀ b chain, Chain orgs b chain → getDepth orgs b = chain.length
  deletes : ∀ order id,
    (∃ orgs', (delete order id).run orgs = .ok () orgs') ↔
      (orgs.lookup id).isSome ∧ IsLeaf orgs id
  failures : ∀ call : Call, call.HasId → ∀ e,
    outcome call.perform orgs = .error e → step orgs call = orgs

/-- The tree is consistent after every sequence of calls with proper
identifiers. -/
theorem treeConsistent_run (calls : List Call)
    (hids : ∀ call ∈ calls, call.HasId) : Consistent (run calls) where
  path := by
    intro id org horg
    obtain ⟨chain, hchain, hpath⟩ := (inv_run hids).paths id org horg
    exact ⟨chain, hchain, hchain.nodup, hpath⟩
  ancestor := (inv_run hids).isAncestor_iff
  subtree := fun order a => ⟨(inv_run hids).nodup_getSubtree order a,
    (inv_run hids).mem_getSubtree order a⟩
  ancestors := fun _ _ hchain => (inv_run hids).getAncestors_eq hchain
  depth := fun _ _ hchain => (inv_run hids).getDepth_eq hchain
  deletes := (inv_run hids).delete_iff
  failures := by
    intro call hid e hout
    obtain ⟨e', hrun⟩ | ⟨orgs', hrun, -⟩ := (inv_run hids).step_cases hid
    · rw [step, stateAfter, hrun]
    · rw [(run_eq_ok_iff.mp hrun).1] at hout
      cases hout

end Answers

section Example

/-- Two children of one root, of which the one whose name begins the other's is
moved below it, and then the root is moved in vain and deleted in vain. -/
def exampleCalls : List Call :=
  [.addRoot [114] [82], .addChild [97] [65] [114], .addChild [97, 49] [66] [114],
    .addChild [99] [67] [97], .move .asStored [97] [97, 49],
    .move .asStored [114] [99], .delete .asStored [114]]

theorem treeConsistent_exampleCalls : Consistent (run exampleCalls) :=
  treeConsistent_run exampleCalls (by
    intro call hcall
    simp only [exampleCalls, List.mem_cons, List.not_mem_nil, or_false] at hcall
    obtain rfl | rfl | rfl | rfl | rfl | rfl | rfl := hcall
    · exact ⟨by decide, by decide⟩
    · exact ⟨by decide, by decide⟩
    · exact ⟨by decide, by decide⟩
    · exact ⟨by decide, by decide⟩
    · trivial
    · trivial
    · trivial)

end Example

end OrgTree

end Control
end HyperBackup
