import HyperBackup.Badou.SnapshotRpc

/-!
# The life cycle of versions

Any sequence of calls of the version operations, over any number of
repositories, from an empty table.  The versions that were created are read off
the answers of the calls, so that what the table shows later can be compared
with what was given out.

The path to `Sealed` is a fact about histories, as a version may go back from
`Verifying` to `Writing` and from there to `Created`.  It is found backwards:
whoever has a status other than `Created` came to it from a status that the
table of transitions allows.
-/

namespace HyperBackup
namespace Badou

open Lib Lib.Program

def VersionOps.versionCount (ops : VersionOps) (repoId : RepositoryId) : Nat :=
  ((ops.repoVersions.lookup repoId).map List.length).getD 0

/-- A version is sealed, or was before. -/
def VersionStatus.isSealedOrLater : VersionStatus → Bool
  | .created => false
  | .writing => false
  | .verifying => false
  | .committing => false
  | .sealed => true
  | .expired => true
  | .deleted => true
  | .gcPending => true
  | .purged => true

/-- There is no way back from a sealed version. -/
theorem VersionStatus.isSealedOrLater_of_canTransitionTo
    {a b : VersionStatus} (hab : a.canTransitionTo b = true)
    (ha : a.isSealedOrLater = true) :
    b.isSealedOrLater = true := by
  cases a with
  | created | writing | verifying | committing =>
      simp [isSealedOrLater] at ha
  | sealed | expired | deleted | gcPending =>
      cases b <;> simp_all [canTransitionTo, isSealedOrLater]
  | purged =>
      simp [canTransitionTo] at hab

namespace VersionLifeCycle

/-- The calls, with what is drawn for them. -/
inductive Call
  | createVersion (now : DateTime) (v : VersionId) (snapshot : Uuid)
      (repoId : RepositoryId) (parentVersionId : Option VersionId)
  | getVersion (v : VersionId)
  | listVersions (repoId : RepositoryId)
  | transition (v : VersionId) (target : VersionStatus)
  | startWriting (v : VersionId)
  | versionCount (repoId : RepositoryId)

inductive Reply
  | version (version : Version)
  | versions (versions : List Version)
  | count (n : Nat)

def Call.perform : Call → EStateM VersionOpsError VersionOps Reply
  | .createVersion now v snapshot repoId parent => do
      return .version
        (← VersionOps.createVersion now v snapshot repoId parent)
  | .getVersion v => do
      return .version (← ofResult id ((← get).getVersion v))
  | .listVersions repoId => do
      return .versions ((← get).listVersions repoId)
  | .transition v target => do
      return .version (← VersionOps.transition v target)
  | .startWriting v => do
      return .version (← VersionOps.startWriting v)
  | .versionCount repoId => do
      return .count ((← get).versionCount repoId)

/-- How many identifiers of 16 bytes a vector can hold: its buffer has at most
`2 ^ 63 - 1` bytes. -/
def vecCapacity : Nat :=
  (2 ^ 63 - 1) / 16

/-- The call panics: its version does not fit into the vector of the
repository. -/
def Panics (ops : VersionOps) : Call → Prop
  | .createVersion _ _ _ repoId parent =>
      (∀ p ∈ parent, (ops.versions.lookup p).isSome) ∧
        vecCapacity ≤ ((ops.repoVersions.lookup repoId).getD []).length
  | _ => False

def step (ops : VersionOps) (call : Call) : VersionOps :=
  stateAfter call.perform ops

def run (ops : VersionOps) (calls : List Call) : VersionOps :=
  calls.foldl step ops

/-- The version that a call created. -/
def createdBy (ops : VersionOps) : Call → List Version
  | .createVersion now v snapshot repoId parent =>
      (outcome (VersionOps.createVersion now v snapshot repoId parent)
        ops).toOption.toList
  | _ => []

/-- The versions that were created, in this order. -/
def created (ops : VersionOps) : List Call → List Version
  | [] => []
  | call :: calls => createdBy ops call ++ created (step ops call) calls

/-- The versions of one repository. -/
def ofRepo (repoId : RepositoryId) (versions : List Version) : List Version :=
  versions.filter fun version => version.repoId = repoId

/-- All calls return. -/
def Completes (ops : VersionOps) : List Call → Prop
  | [] => True
  | call :: calls => ¬ Panics ops call ∧ Completes (step ops call) calls

def statusOf (ops : VersionOps) (v : VersionId) : Option VersionStatus :=
  (ops.versions.lookup v).map fun version => version.status

section Runs

variable (ops : VersionOps)

theorem run_append (calls calls' : List Call) :
    run ops (calls ++ calls') = run (run ops calls) calls' :=
  List.foldl_append

theorem run_concat (calls : List Call) (call : Call) :
    run ops (calls ++ [call]) = step (run ops calls) call :=
  run_append ops calls [call]

theorem created_append (calls calls' : List Call) :
    created ops (calls ++ calls') =
      created ops calls ++ created (run ops calls) calls' := by
  induction calls generalizing ops with
  | nil =>
      rfl
  | cons call calls ih =>
      simp only [List.cons_append, created, ih, List.append_assoc]
      rfl

theorem created_concat (calls : List Call) (call : Call) :
    created ops (calls ++ [call]) =
      created ops calls ++ createdBy (run ops calls) call := by
  rw [created_append, created, created, List.append_nil]

theorem completes_append (calls calls' : List Call) :
    Completes ops (calls ++ calls') ↔
      Completes ops calls ∧ Completes (run ops calls) calls' := by
  induction calls generalizing ops with
  | nil =>
      simp [Completes, run]
  | cons call calls ih =>
      simp only [List.cons_append, Completes, ih, and_assoc]
      rfl

end Runs

section Steps

variable {ops : VersionOps}

/-- There is one version more. -/
structure Adds (ops : VersionOps) (version : Version) (ops' : VersionOps) :
    Prop where
  parent : ∀ p ∈ version.parentVersionId, (ops.versions.lookup p).isSome
  status : version.status = .created
  sequence : version.sequence =
    (ops.sequences.lookup version.repoId).getD 0 + 1
  versions : ops'.versions = ops.versions.insert version.versionId version
  repoVersions : ops'.repoVersions = ops.repoVersions.insert version.repoId
    ((ops.repoVersions.lookup version.repoId).getD [] ++ [version.versionId])
  sequences : ops'.sequences =
    ops.sequences.insert version.repoId version.sequence

/-- A creation is refused, or adds a version to the repository it names. -/
theorem createVersion_cases
    (now : DateTime) (v : VersionId) (snapshot : Uuid) (repoId : RepositoryId)
    (parent : Option VersionId) (ops : VersionOps) :
    (∃ e, (VersionOps.createVersion now v snapshot repoId parent).run ops =
      .error e ops) ∨
    ∃ version ops',
      (VersionOps.createVersion now v snapshot repoId parent).run ops =
        .ok version ops' ∧
      Adds ops version ops' ∧ version.repoId = repoId ∧
      version.parentVersionId = parent := by
  cases parent with
  | none =>
      exact Or.inr ⟨_, _, rfl,
        ⟨by simp, rfl, rfl, rfl, rfl, rfl⟩, rfl, rfl⟩
  | some p =>
      cases hp : ops.versions.lookup p with
      | none =>
          exact Or.inl ⟨_, VersionOps.run_createVersion_error hp now v snapshot
            repoId⟩
      | some found =>
          right
          simp only [VersionOps.createVersion, EStateM.run_bind, EStateM.run_get,
            hp, Option.isNone_some, Bool.false_eq_true, if_false,
            EStateM.run_pure, EStateM.run_set]
          refine ⟨_, _, rfl, ⟨?_, rfl, rfl, rfl, rfl, rfl⟩, rfl, rfl⟩
          intro q hq
          obtain rfl := Option.some.inj hq
          rw [hp]
          rfl

/-- A transition is refused, or changes the status of its version as the table
of transitions allows. -/
theorem transition_cases (v : VersionId) (target : VersionStatus)
    (ops : VersionOps) :
    (∃ e, (VersionOps.transition v target).run ops = .error e ops) ∨
    ∃ version, ops.versions.lookup v = some version ∧
      version.status.canTransitionTo target = true ∧
      (VersionOps.transition v target).run ops =
        .ok { version with status := target }
          { ops with versions :=
              ops.versions.insert v { version with status := target } } := by
  cases hv : ops.versions.lookup v with
  | none =>
      left
      refine ⟨.notFound v, ?_⟩
      simp only [VersionOps.transition, EStateM.run_bind, EStateM.run_get, hv]
      rfl
  | some version =>
      by_cases hok : version.status.canTransitionTo target = true
      · exact Or.inr ⟨version, rfl, hok, VersionOps.run_transition hv hok⟩
      · left
        refine ⟨.invalidTransition version.status target, ?_⟩
        simp only [VersionOps.transition, EStateM.run_bind, EStateM.run_get, hv,
          hok]
        rfl

/-- A program of which the reply is made keeps its state. -/
theorem stateAfter_reply {α : Type} (x : EStateM VersionOpsError VersionOps α)
    (f : α → Reply) (ops : VersionOps) :
    stateAfter (do return f (← x)) ops = stateAfter x ops := by
  rw [stateAfter_bind]
  cases outcome x ops with
  | ok a =>
      rfl
  | error e =>
      rfl

/-- The status of one version changes. -/
structure Changes (ops : VersionOps) (v : VersionId) (version : Version)
    (target : VersionStatus) (ops' : VersionOps) : Prop where
  found : ops.versions.lookup v = some version
  allowed : version.status.canTransitionTo target = true
  versions : ops'.versions =
    ops.versions.insert v { version with status := target }
  repoVersions : ops'.repoVersions = ops.repoVersions
  sequences : ops'.sequences = ops.sequences

theorem stateAfter_transition (v : VersionId) (target : VersionStatus)
    (ops : VersionOps) :
    stateAfter (VersionOps.transition v target) ops = ops ∨
      ∃ version, Changes ops v version target
        (stateAfter (VersionOps.transition v target) ops) := by
  obtain hsame | ⟨version, hfound, hallowed, hresult⟩ :=
    VersionOps.stateAfter_transition_cases v target ops
  · exact Or.inl hsame
  · rw [hresult]
    exact Or.inr ⟨version, hfound, hallowed, rfl, rfl, rfl⟩

theorem step_getVersion (v : VersionId) : step ops (.getVersion v) = ops := by
  change stateAfter
    (do return Reply.version (← ofResult id (ops.getVersion v))) ops = ops
  rw [stateAfter_reply, stateAfter_ofResult]

/-- All that a call can do. -/
theorem step_cases (ops : VersionOps) (call : Call) :
    (step ops call = ops ∧ createdBy ops call = []) ∨
    (∃ version, Adds ops version (step ops call) ∧
      createdBy ops call = [version] ∧
      (¬ Panics ops call →
        ((ops.repoVersions.lookup version.repoId).getD []).length <
          vecCapacity)) ∨
    (∃ v version target, Changes ops v version target (step ops call) ∧
      createdBy ops call = []) := by
  cases call with
  | createVersion now v snapshot repoId parent =>
      simp only [step, Call.perform, stateAfter_reply, createdBy, Panics]
      obtain ⟨e, hrun⟩ | ⟨version, ops', hrun, hadds, hrepo, hparent⟩ :=
        createVersion_cases now v snapshot repoId parent ops
      · left
        simp only [stateAfter, outcome, hrun]
        exact ⟨trivial, rfl⟩
      · right
        left
        simp only [stateAfter, outcome, hrun]
        refine ⟨version, hadds, rfl, ?_⟩
        intro hfits
        rw [hrepo]
        exact Nat.lt_of_not_le fun hfull =>
          hfits ⟨hparent ▸ hadds.parent, hfull⟩
  | transition v target =>
      simp only [step, Call.perform, stateAfter_reply]
      obtain hsame | ⟨version, hchanges⟩ := stateAfter_transition v target ops
      · exact Or.inl ⟨hsame, rfl⟩
      · exact Or.inr (Or.inr ⟨v, version, target, hchanges, rfl⟩)
  | startWriting v =>
      simp only [step, Call.perform, stateAfter_reply, VersionOps.startWriting]
      obtain hsame | ⟨version, hchanges⟩ := stateAfter_transition v .writing ops
      · exact Or.inl ⟨hsame, rfl⟩
      · exact Or.inr (Or.inr ⟨v, version, .writing, hchanges, rfl⟩)
  | getVersion v =>
      exact Or.inl ⟨step_getVersion v, rfl⟩
  | listVersions repoId =>
      exact Or.inl ⟨rfl, rfl⟩
  | versionCount repoId =>
      exact Or.inl ⟨rfl, rfl⟩

/-- A call that fails changes nothing. -/
theorem step_of_error {call : Call} {e : VersionOpsError}
    (h : outcome call.perform ops = .error e) :
    step ops call = ops := by
  cases call with
  | createVersion now v snapshot repoId parent =>
      obtain ⟨e', hrun⟩ | ⟨version, ops', hrun, -⟩ :=
        createVersion_cases now v snapshot repoId parent ops
      · exact stateAfter_bind_of_error hrun
      · rw [Call.perform, outcome_bind_of_run hrun] at h
        cases h
  | transition v target =>
      obtain ⟨e', hrun⟩ | ⟨version, -, -, hrun⟩ := transition_cases v target ops
      · exact stateAfter_bind_of_error hrun
      · rw [Call.perform, outcome_bind_of_run hrun] at h
        cases h
  | startWriting v =>
      obtain ⟨e', hrun⟩ | ⟨version, -, -, hrun⟩ := transition_cases v .writing ops
      · exact stateAfter_bind_of_error hrun
      · rw [Call.perform, VersionOps.startWriting,
          outcome_bind_of_run hrun] at h
        cases h
  | getVersion v =>
      exact step_getVersion v
  | listVersions repoId =>
      rfl
  | versionCount repoId =>
      rfl

end Steps

section Invariant

variable {ops ops' : VersionOps} {versions : List Version} {version : Version}

/-- Every parent was created earlier. -/
def ParentsEarlier (versions : List Version) : Prop :=
  ∀ before version after, versions = before ++ version :: after →
    ∀ p ∈ version.parentVersionId, ∃ w ∈ before, w.versionId = p

/-- What the three maps have of the versions that were created. -/
structure Inv (ops : VersionOps) (versions : List Version) : Prop where
  stored : ∀ version ∈ versions, ∃ status,
    ops.versions.lookup version.versionId =
      some { version with status := status }
  known : ∀ v found, ops.versions.lookup v = some found →
    ∃ version ∈ versions, version.versionId = v ∧
      found = { version with status := found.status }
  listed : ∀ repoId, (ops.repoVersions.lookup repoId).getD [] =
    (ofRepo repoId versions).map Version.versionId
  counted : ∀ repoId, ((ops.sequences.lookup repoId).getD 0).toNat =
    (ofRepo repoId versions).length
  numbered : ∀ repoId,
    (ofRepo repoId versions).map (fun version => version.sequence.toNat) =
      List.range' 1 (ofRepo repoId versions).length
  parents : ParentsEarlier versions

theorem inv_new : Inv .new [] where
  stored := by simp
  known := by simp [VersionOps.new]
  listed := by simp [VersionOps.new, ofRepo]
  counted := by simp [VersionOps.new, ofRepo]
  numbered := by simp [ofRepo]
  parents := by simp [ParentsEarlier]

theorem ofRepo_concat (repoId : RepositoryId) (versions : List Version)
    (version : Version) :
    ofRepo repoId (versions ++ [version]) = ofRepo repoId versions ++
      if version.repoId = repoId then [version] else [] := by
  by_cases hrepo : version.repoId = repoId
  · simp [ofRepo, hrepo]
  · simp [ofRepo, hrepo]

theorem parentsEarlier_concat
    (h : ParentsEarlier versions)
    (hparent : ∀ p ∈ version.parentVersionId,
      ∃ w ∈ versions, w.versionId = p) :
    ParentsEarlier (versions ++ [version]) := by
  intro before w after heq p hp
  obtain ⟨rfl, rfl⟩ | ⟨rest, rfl⟩ :
      (before = versions ∧ w = version) ∨
        ∃ rest, versions = before ++ w :: rest := by
    cases after using List.reverseRecOn with
    | nil =>
        obtain ⟨hbefore, hw⟩ := List.append_inj' heq rfl
        exact Or.inl ⟨hbefore.symm, (List.cons.inj hw).1.symm⟩
    | append_singleton rest last =>
        rw [← List.cons_append, ← List.append_assoc] at heq
        exact Or.inr ⟨rest, (List.append_inj' heq rfl).1⟩
  · exact hparent p hp
  · exact h before w rest rfl p hp

/-- A change of a status keeps everything else. -/
theorem Inv.of_changes {v : VersionId} {target : VersionStatus}
    (hinv : Inv ops versions) (h : Changes ops v version target ops') :
    Inv ops' versions where
  stored := by
    intro w hw
    obtain ⟨status, hstatus⟩ := hinv.stored w hw
    rw [h.versions, HashMap.lookup_insert_of]
    by_cases heq : w.versionId = v
    · subst heq
      rw [h.found] at hstatus
      rw [if_pos rfl, Option.some.inj hstatus]
      exact ⟨target, rfl⟩
    · rw [if_neg heq]
      exact ⟨status, hstatus⟩
  known := by
    intro w found hw
    rw [h.versions] at hw
    rcases HashMap.lookup_insert_eq_some.mp hw with ⟨heq, rfl⟩ | ⟨-, hold⟩
    · obtain ⟨original, hmem, hid, hsame⟩ := hinv.known v version h.found
      refine ⟨original, hmem, hid.trans heq.symm, ?_⟩
      rw [hsame]
    · exact hinv.known w found hold
  listed := by
    rw [h.repoVersions]
    exact hinv.listed
  counted := by
    rw [h.sequences]
    exact hinv.counted
  numbered := hinv.numbered
  parents := hinv.parents

/-- A new version gets the next number of its repository. -/
theorem Inv.toNat_sequence
    (hinv : Inv ops versions) (h : Adds ops version ops')
    (hfits : ((ops.repoVersions.lookup version.repoId).getD []).length <
      vecCapacity) :
    version.sequence.toNat = (ofRepo version.repoId versions).length + 1 := by
  have hcount := hinv.counted version.repoId
  rw [hinv.listed, List.length_map, vecCapacity] at hfits
  rw [h.sequence, UInt64.toNat_add, hcount, UInt64.toNat_one, Nat.mod_eq_of_lt]
  omega

theorem Inv.of_adds
    (hinv : Inv ops versions) (h : Adds ops version ops')
    (hfresh : version.versionId ∉ versions.map Version.versionId)
    (hfits : ((ops.repoVersions.lookup version.repoId).getD []).length <
      vecCapacity) :
    Inv ops' (versions ++ [version]) where
  stored := by
    intro w hw
    rw [h.versions, HashMap.lookup_insert_of]
    rw [List.mem_append, List.mem_singleton] at hw
    by_cases heq : w.versionId = version.versionId
    · rw [if_pos heq]
      obtain hold | rfl := hw
      · exact absurd (heq ▸ List.mem_map_of_mem hold) hfresh
      · exact ⟨w.status, rfl⟩
    · rw [if_neg heq]
      obtain hold | rfl := hw
      · exact hinv.stored w hold
      · exact absurd rfl heq
  known := by
    intro w found hw
    rw [h.versions] at hw
    rcases HashMap.lookup_insert_eq_some.mp hw with ⟨heq, rfl⟩ | ⟨-, hold⟩
    · exact ⟨found, by simp, heq.symm, rfl⟩
    · obtain ⟨original, hmem, hrest⟩ := hinv.known w found hold
      exact ⟨original, List.mem_append_left _ hmem, hrest⟩
  listed := by
    intro repoId
    rw [h.repoVersions, HashMap.lookup_insert_of, ofRepo_concat]
    by_cases heq : repoId = version.repoId
    · subst heq
      rw [if_pos rfl, if_pos rfl, Option.getD_some, hinv.listed, List.map_append,
        List.map_singleton]
    · rw [if_neg heq, if_neg (Ne.symm heq), List.append_nil, hinv.listed]
  counted := by
    intro repoId
    rw [h.sequences, HashMap.lookup_insert_of, ofRepo_concat]
    by_cases heq : repoId = version.repoId
    · subst heq
      rw [if_pos rfl, if_pos rfl, Option.getD_some, List.length_append]
      exact hinv.toNat_sequence h hfits
    · rw [if_neg heq, if_neg (Ne.symm heq), List.append_nil, hinv.counted]
  numbered := by
    intro repoId
    rw [ofRepo_concat]
    by_cases heq : version.repoId = repoId
    · subst heq
      rw [if_pos rfl, List.map_append, List.map_singleton, hinv.numbered,
        hinv.toNat_sequence h hfits, List.length_append, List.length_singleton,
        List.range'_concat, Nat.one_mul, Nat.add_comm 1]
    · rw [if_neg heq, List.append_nil, hinv.numbered]
  parents := by
    refine parentsEarlier_concat hinv.parents fun p hp => ?_
    obtain ⟨found, hfound⟩ := Option.isSome_iff_exists.mp (h.parent p hp)
    obtain ⟨w, hw, hid, -⟩ := hinv.known p found hfound
    exact ⟨w, hw, hid⟩

end Invariant

section Histories

/-- All calls return, and the identifiers drawn for new versions are
distinct. -/
structure Legal (calls : List Call) : Prop where
  completes : Completes .new calls
  fresh : ((created .new calls).map Version.versionId).Nodup

/-- How the status of a version can differ before and after a call. -/
def StatusStep (ops ops' : VersionOps) (v : VersionId) : Prop :=
  statusOf ops' v = statusOf ops v ∨
    (statusOf ops v = none ∧ statusOf ops' v = some .created) ∨
    ∃ a b, statusOf ops v = some a ∧ statusOf ops' v = some b ∧
      a.canTransitionTo b = true

variable {calls done later : List Call} {call : Call} {v : VersionId}

theorem Legal.of_initial (h : Legal calls) (hinit : done <+: calls) :
    Legal done := by
  obtain ⟨rest, rfl⟩ := hinit
  refine ⟨((completes_append _ done rest).mp h.completes).1, ?_⟩
  have hfresh := h.fresh
  rw [created_append, List.map_append] at hfresh
  exact hfresh.of_append_left

theorem Legal.inv (h : Legal calls) :
    Inv (run .new calls) (created .new calls) := by
  induction calls using List.reverseRecOn with
  | nil =>
      exact inv_new
  | append_singleton calls call ih =>
      have hinv := ih (h.of_initial (List.prefix_append _ _))
      have hreturns := ((completes_append _ calls [call]).mp h.completes).2.1
      have hfresh := h.fresh
      rw [created_concat] at hfresh ⊢
      rw [run_concat]
      obtain ⟨hsame, hnone⟩ | ⟨version, hadds, hone, hfits⟩ |
          ⟨v, version, target, hchanges, hnone⟩ := step_cases (run .new calls) call
      · rw [hsame, hnone, List.append_nil]
        exact hinv
      · rw [hone] at hfresh ⊢
        rw [List.map_append, List.map_singleton,
          ← List.concat_eq_append, List.nodup_concat] at hfresh
        exact hinv.of_adds hadds hfresh.1 (hfits hreturns)
      · rw [hnone, List.append_nil]
        exact hinv.of_changes hchanges

/-- Every call changes a status as the table of transitions allows. -/
theorem Legal.statusStep (h : Legal (calls ++ [call])) (v : VersionId) :
    StatusStep (run .new calls) (run .new (calls ++ [call])) v := by
  have hinv := (h.of_initial (List.prefix_append _ _)).inv
  have hfresh := h.fresh
  rw [created_concat] at hfresh
  rw [run_concat]
  unfold StatusStep statusOf
  obtain ⟨hsame, -⟩ | ⟨version, hadds, hone, -⟩ |
      ⟨w, version, target, hchanges, -⟩ := step_cases (run .new calls) call
  · rw [hsame]
    exact Or.inl rfl
  · rw [hone, List.map_append, List.map_singleton,
      ← List.concat_eq_append, List.nodup_concat] at hfresh
    rw [hadds.versions, HashMap.lookup_insert_of]
    by_cases hv : v = version.versionId
    · refine Or.inr (Or.inl ⟨?_, ?_⟩)
      · cases hfound : (run .new calls).versions.lookup v with
        | none =>
            rfl
        | some found =>
            obtain ⟨w, hw, hid, -⟩ := hinv.known v found hfound
            exact absurd (List.mem_map.mpr ⟨w, hw, hid.trans hv⟩) hfresh.1
      · rw [if_pos hv, Option.map_some, hadds.status]
    · rw [if_neg hv]
      exact Or.inl rfl
  · rw [hchanges.versions, HashMap.lookup_insert_of]
    by_cases hv : v = w
    · rw [if_pos hv, hv, hchanges.found]
      exact Or.inr (Or.inr ⟨_, _, rfl, rfl, hchanges.allowed⟩)
    · rw [if_neg hv]
      exact Or.inl rfl

/-- Whoever is not in the first status had one from which it could get to its
own. -/
theorem Legal.came_from {status : VersionStatus} (h : Legal calls)
    (hstatus : statusOf (run .new calls) v = some status)
    (hnew : status ≠ .created) :
    ∃ done source, done <+: calls ∧
      statusOf (run .new done) v = some source ∧
      source.canTransitionTo status = true := by
  induction calls using List.reverseRecOn with
  | nil =>
      simp [statusOf, run, VersionOps.new] at hstatus
  | append_singleton calls call ih =>
      have hinit : calls <+: calls ++ [call] := List.prefix_append _ _
      obtain hsame | ⟨-, hcreated⟩ | ⟨a, b, ha, hb, hab⟩ := h.statusStep v
      · rw [hsame] at hstatus
        obtain ⟨done, source, hdone, hsource⟩ :=
          ih (h.of_initial hinit) hstatus
        exact ⟨done, source, hdone.trans hinit, hsource⟩
      · rw [hstatus] at hcreated
        exact absurd (Option.some.inj hcreated) hnew
      · rw [hstatus] at hb
        obtain rfl := Option.some.inj hb
        exact ⟨calls, a, hinit, ha, hab⟩

/-- A sealed version was committing before, verifying before that, and writing
before that. -/
theorem Legal.path_to_sealed (h : Legal calls)
    (hsealed : statusOf (run .new calls) v = some .sealed) :
    ∃ x y z, x <+: y ∧ y <+: z ∧ z <+: calls ∧
      statusOf (run .new x) v = some .writing ∧
      statusOf (run .new y) v = some .verifying ∧
      statusOf (run .new z) v = some .committing := by
  obtain ⟨z, c, hz, hcommitting, hcs⟩ := h.came_from hsealed (by decide)
  obtain rfl : c = .committing := by
    cases c <;> simp_all [VersionStatus.canTransitionTo]
  obtain ⟨y, b, hy, hverifying, hbc⟩ :=
    (h.of_initial hz).came_from hcommitting (by decide)
  obtain rfl : b = .verifying := by
    cases b <;> simp_all [VersionStatus.canTransitionTo]
  obtain ⟨x, a, hx, hwriting, hab⟩ :=
    (h.of_initial (hy.trans hz)).came_from hverifying (by decide)
  obtain rfl : a = .writing := by
    cases a <;> simp_all [VersionStatus.canTransitionTo]
  exact ⟨x, y, z, hx, hy, hz, hwriting, hverifying, hcommitting⟩

/-- Sealed is left for later statuses only. -/
theorem Legal.stays_sealed {status : VersionStatus}
    (h : Legal (done ++ later))
    (hstatus : statusOf (run .new done) v = some status)
    (hsealed : status.isSealedOrLater = true) :
    ∃ status', statusOf (run .new (done ++ later)) v = some status' ∧
      status'.isSealedOrLater = true := by
  induction later using List.reverseRecOn with
  | nil =>
      rw [List.append_nil]
      exact ⟨status, hstatus, hsealed⟩
  | append_singleton later call ih =>
      rw [← List.append_assoc] at h ⊢
      obtain ⟨a, ha, hasealed⟩ := ih (h.of_initial (List.prefix_append _ _))
      obtain hsame | ⟨hnone, -⟩ | ⟨a', b, ha', hb, hab⟩ := h.statusStep v
      · exact ⟨a, hsame.trans ha, hasealed⟩
      · rw [ha] at hnone
        cases hnone
      · rw [ha] at ha'
        obtain rfl := Option.some.inj ha'
        exact ⟨b, hb,
          VersionStatus.isSealedOrLater_of_canTransitionTo hab hasealed⟩

end Histories

section Listing

variable {ops : VersionOps} {versions : List Version}

/-- The version as it was created, in whatever status. -/
def SameVersion (now first : Version) : Prop :=
  now = { first with status := now.status }

theorem forall₂_lookup {versions : List Version}
    (h : ∀ version ∈ versions, ∃ status,
      ops.versions.lookup version.versionId =
        some { version with status := status }) :
    List.Forall₂ SameVersion
      ((versions.map Version.versionId).filterMap fun id =>
        ops.versions.lookup id) versions := by
  induction versions with
  | nil =>
      exact List.Forall₂.nil
  | cons version versions ih =>
      obtain ⟨status, hstatus⟩ := h version List.mem_cons_self
      simp only [List.map_cons, List.filterMap_cons, hstatus]
      exact List.Forall₂.cons rfl
        (ih fun w hw => h w (List.mem_cons_of_mem _ hw))

/-- A repository lists its versions in order of creation. -/
theorem Inv.listVersions (hinv : Inv ops versions) (repoId : RepositoryId) :
    List.Forall₂ SameVersion (ops.listVersions repoId)
      (ofRepo repoId versions) := by
  rw [VersionOps.listVersions, hinv.listed]
  exact forall₂_lookup fun version hversion =>
    hinv.stored version (List.mem_filter.mp hversion).1

/-- What is listed is what the table has for the repository. -/
theorem Inv.mem_listVersions (hinv : Inv ops versions) (repoId : RepositoryId)
    (version : Version) :
    version ∈ ops.listVersions repoId ↔
      ops.versions.lookup version.versionId = some version ∧
        version.repoId = repoId := by
  rw [VersionOps.listVersions, hinv.listed, List.mem_filterMap]
  constructor
  · rintro ⟨id, hid, hlookup⟩
    obtain ⟨w, hw, rfl⟩ := List.mem_map.mp hid
    obtain ⟨hmem, hrepo⟩ := List.mem_filter.mp hw
    obtain ⟨status, hstatus⟩ := hinv.stored w hmem
    rw [hlookup] at hstatus
    obtain rfl := Option.some.inj hstatus
    exact ⟨hlookup, of_decide_eq_true hrepo⟩
  · rintro ⟨hlookup, rfl⟩
    obtain ⟨w, hw, hid, hsame⟩ := hinv.known _ _ hlookup
    refine ⟨version.versionId, List.mem_map.mpr ⟨w, ?_, hid⟩, hlookup⟩
    have hrepo : w.repoId = version.repoId := by
      rw [hsame]
    exact List.mem_filter.mpr ⟨hw, decide_eq_true hrepo⟩

/-- The first version is the parent of the second. -/
def IsParent (ops : VersionOps) (p v : VersionId) : Prop :=
  ∃ version, ops.versions.lookup v = some version ∧
    version.parentVersionId = some p

/-- Chains of parents are finite: the place in the order of creation goes
down. -/
theorem Inv.wellFounded_isParent (hinv : Inv ops versions)
    (hfresh : (versions.map Version.versionId).Nodup) :
    WellFounded (IsParent ops) := by
  refine Subrelation.wf (r := InvImage (· < ·)
    fun v => (versions.map Version.versionId).idxOf v) ?_
    (InvImage.wf _ wellFounded_lt)
  rintro p v ⟨found, hfound, hparent⟩
  obtain ⟨version, hmem, rfl, hsame⟩ := hinv.known v found hfound
  obtain ⟨before, after, rfl⟩ := List.append_of_mem hmem
  rw [hsame] at hparent
  obtain ⟨w, hw, rfl⟩ := hinv.parents before version after rfl p hparent
  have hearlier : w.versionId ∈ before.map Version.versionId :=
    List.mem_map_of_mem hw
  rw [List.map_append, List.map_cons] at hfresh
  have hnew : version.versionId ∉ before.map Version.versionId := by
    intro hold
    exact (List.nodup_append.mp hfresh).2.2 _ hold _ List.mem_cons_self rfl
  simp only [InvImage, List.map_append, List.map_cons]
  rw [List.idxOf_append_of_mem hearlier, List.idxOf_append_of_notMem hnew]
  have hlt := List.idxOf_lt_length_of_mem hearlier
  omega

end Listing

/-- The life cycle of the versions over a sequence of calls. -/
structure LifeCycle (calls : List Call) : Prop where
  changes : ∀ done call, done ++ [call] <+: calls → ∀ v,
    StatusStep (run .new done) (run .new (done ++ [call])) v
  failures : ∀ done call e, done ++ [call] <+: calls →
    outcome call.perform (run .new done) = .error e →
    run .new (done ++ [call]) = run .new done
  path : ∀ done v, done <+: calls →
    statusOf (run .new done) v = some .sealed →
    ∃ x y z, x <+: y ∧ y <+: z ∧ z <+: done ∧
      statusOf (run .new x) v = some .writing ∧
      statusOf (run .new y) v = some .verifying ∧
      statusOf (run .new z) v = some .committing
  noReturn : ∀ done later v, done ++ later <+: calls →
    statusOf (run .new done) v = some .sealed →
    ∀ status ∈ [VersionStatus.writing, .verifying, .committing],
      statusOf (run .new (done ++ later)) v ≠ some status
  numbered : ∀ repoId, (ofRepo repoId (created .new calls)).map
      (fun version => version.sequence.toNat) =
    List.range' 1 (ofRepo repoId (created .new calls)).length
  listed : ∀ repoId, List.Forall₂ SameVersion
    ((run .new calls).listVersions repoId) (ofRepo repoId (created .new calls))
  complete : ∀ repoId version, version ∈ (run .new calls).listVersions repoId ↔
    (run .new calls).versions.lookup version.versionId = some version ∧
      version.repoId = repoId
  parents : ParentsEarlier (created .new calls)
  finite : WellFounded (IsParent (run .new calls))

/-- Every sequence of calls that return keeps to the life cycle. -/
theorem lifeCycle (calls : List Call) (h : Legal calls) : LifeCycle calls where
  changes := by
    intro done call hinit v
    exact (h.of_initial hinit).statusStep v
  failures := by
    intro done call e _ herror
    rw [run_concat]
    exact step_of_error herror
  path := by
    intro done v hinit hsealed
    exact (h.of_initial hinit).path_to_sealed hsealed
  noReturn := by
    intro done later v hinit hsealed status hstatus hreturned
    obtain ⟨status', hnow, hlater⟩ :=
      (h.of_initial hinit).stays_sealed hsealed rfl
    rw [hreturned] at hnow
    obtain rfl := Option.some.inj hnow
    simp only [List.mem_cons, List.not_mem_nil, or_false] at hstatus
    obtain rfl | rfl | rfl := hstatus
    · cases hlater
    · cases hlater
    · cases hlater
  numbered := h.inv.numbered
  listed := h.inv.listVersions
  complete := h.inv.mem_listVersions
  parents := h.inv.parents
  finite := h.inv.wellFounded_isParent h.fresh

section Example

def exampleRepo : RepositoryId :=
  ⟨1⟩

def exampleVersion : VersionId :=
  ⟨7⟩

/-- A version goes back once before it is sealed; another has it as parent. -/
def exampleCalls : List Call :=
  [.createVersion 0 exampleVersion 8 exampleRepo none,
    .startWriting exampleVersion,
    .transition exampleVersion .verifying,
    .startWriting exampleVersion,
    .transition exampleVersion .sealed,
    .transition exampleVersion .verifying,
    .transition exampleVersion .committing,
    .transition exampleVersion .sealed,
    .createVersion 1 ⟨9⟩ 10 exampleRepo (some exampleVersion)]

theorem exampleCalls_lifeCycle :
    statusOf (run .new exampleCalls) exampleVersion = some .sealed ∧
      LifeCycle exampleCalls :=
  ⟨by decide, lifeCycle exampleCalls ⟨by
    simp only [exampleCalls, Completes, Panics]
    decide, by decide⟩⟩

end Example

end VersionLifeCycle

end Badou
end HyperBackup
