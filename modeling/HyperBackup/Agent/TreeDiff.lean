import HyperBackup.Agent.Scanner

/-!
# The comparison of two file trees

Every current path is added, the new name of a renamed file, modified or
unchanged, and every path of the baseline is deleted, the old name of a renamed
file or still there.  The renamed files are a matching between the paths that
are gone and the paths that are new, and no two that fit are left over.

The loop over the baseline keeps `Matched`, from which the statement follows.
-/

namespace HyperBackup
namespace Agent
namespace FileTreeDiff

open Lib

/-- Size and time of modification agree. -/
def Agree (entry : FileEntry) (base : FileSnapshotEntry) : Prop :=
  entry.size = base.size ∧ entry.modifiedAt = base.mtime

section Statement

variable (current : List FileEntry) (baseline : BackupSnapshot) (d : FileTreeDiff)

/-- What may become of a current path. -/
inductive Fate
  | added
  | renamed
  | modified
  | unchanged

/-- What may become of a path of the baseline. -/
inductive BaseFate
  | deleted
  | renamed
  | common

def HasFate (path : String) : Fate → Prop
  | .added => path ∈ d.added.map FileEntry.path
  | .renamed => path ∈ d.renamed.map RenamedFile.newPath
  | .modified => path ∈ d.modified.map FileEntry.path
  | .unchanged => ∃ entry ∈ current, ∃ base ∈ baseline.files,
      entry.path = path ∧ base.path = path ∧ Agree entry base

def HasBaseFate (path : String) : BaseFate → Prop
  | .deleted => path ∈ d.deleted
  | .renamed => path ∈ d.renamed.map RenamedFile.oldPath
  | .common => path ∈ current.map FileEntry.path

/-- The current paths that are reported. -/
def reported : List String :=
  d.added.map FileEntry.path ++ d.renamed.map RenamedFile.newPath ++
    d.modified.map FileEntry.path

/-- The paths of the baseline that are reported to be gone. -/
def gone : List String :=
  d.deleted ++ d.renamed.map RenamedFile.oldPath

/-- The comparison accounts for every path once, and its renamed files are a
matching that cannot be extended. -/
structure IsDiff : Prop where
  fates : ∀ path ∈ current.map FileEntry.path,
    ∃! fate, HasFate current baseline d path fate
  base_fates : ∀ path ∈ baseline.files.map FileSnapshotEntry.path,
    ∃! fate, HasBaseFate current d path fate
  reported_once : (reported d).Nodup ∧
    ∀ path ∈ reported d, path ∈ current.map FileEntry.path
  gone_once : (gone d).Nodup ∧
    ∀ path ∈ gone d, path ∈ baseline.files.map FileSnapshotEntry.path
  common : ∀ entry ∈ current, ∀ base ∈ baseline.files, entry.path = base.path →
    (entry.path ∉ reported d ↔ Agree entry base)
  pairs : ∀ r ∈ d.renamed, ∃ entry ∈ current, ∃ base ∈ baseline.files,
    entry.path = r.newPath ∧ base.path = r.oldPath ∧
    r.newPath ∉ baseline.files.map FileSnapshotEntry.path ∧
    r.oldPath ∉ current.map FileEntry.path ∧ Agree entry base
  maximal : ∀ entry ∈ d.added, ∀ base ∈ baseline.files, base.path ∈ d.deleted →
    ¬ Agree entry base

end Statement

section Loop

variable {current new : List FileEntry} {done : List FileSnapshotEntry}
variable {m : Matching} {base : FileSnapshotEntry}

/-- What the loop has made of the files of the baseline so far. -/
structure Matched (current new : List FileEntry) (done : List FileSnapshotEntry)
    (m : Matching) : Prop where
  perm : (m.deleted ++ m.renamed.map RenamedFile.oldPath).Perm
    ((done.filter fun b => b.path ∉ current.map FileEntry.path).map
      FileSnapshotEntry.path)
  matched : m.matchedNewPaths = m.renamed.map RenamedFile.newPath
  nodup : (m.renamed.map RenamedFile.newPath).Nodup
  pairs : ∀ r ∈ m.renamed, ∃ entry ∈ new, ∃ b ∈ done, entry.path = r.newPath ∧
    b.path = r.oldPath ∧ Agree entry b
  maximal : ∀ path ∈ m.deleted, ∃ b ∈ done, b.path = path ∧
    ∀ entry ∈ new, Agree entry b → entry.path ∈ m.matchedNewPaths

theorem matched_nil : Matched current new []
    { deleted := [], renamed := [], matchedNewPaths := [] } where
  perm := .nil
  matched := rfl
  nodup := .nil
  pairs := fun r hr => by cases hr
  maximal := fun path hpath => by cases hpath

theorem Matched.of_common (h : Matched current new done m)
    (hcommon : base.path ∈ current.map FileEntry.path) :
    Matched current new (done ++ [base]) m where
  perm := by
    have hfilter : (done ++ [base]).filter
        (fun b => b.path ∉ current.map FileEntry.path) =
          done.filter fun b => b.path ∉ current.map FileEntry.path := by
      rw [List.filter_append, List.filter_cons_of_neg (by simpa using hcommon),
        List.filter_nil, List.append_nil]
    rw [hfilter]
    exact h.perm
  matched := h.matched
  nodup := h.nodup
  pairs := by
    intro r hr
    obtain ⟨entry, hentry, b, hb, hrest⟩ := h.pairs r hr
    exact ⟨entry, hentry, b, List.mem_append_left _ hb, hrest⟩
  maximal := by
    intro path hpath
    obtain ⟨b, hb, hrest⟩ := h.maximal path hpath
    exact ⟨b, List.mem_append_left _ hb, hrest⟩

/-- The paths that are gone, with one more. -/
theorem gone_append_singleton (hgone : base.path ∉ current.map FileEntry.path) :
    ((done ++ [base]).filter fun b => b.path ∉ current.map FileEntry.path).map
        FileSnapshotEntry.path =
      (done.filter fun b => b.path ∉ current.map FileEntry.path).map
        FileSnapshotEntry.path ++ [base.path] := by
  rw [List.filter_append, List.filter_cons_of_pos (by simpa using hgone),
    List.filter_nil, List.map_append]
  rfl

theorem Matched.renamed {entry : FileEntry} (h : Matched current new done m)
    (hgone : base.path ∉ current.map FileEntry.path) (hentry : entry ∈ new)
    (hfree : entry.path ∉ m.matchedNewPaths) (hagree : Agree entry base) :
    Matched current new (done ++ [base])
      { m with
        renamed := m.renamed ++ [⟨base.path, entry.path⟩]
        matchedNewPaths := m.matchedNewPaths ++ [entry.path] } where
  perm := by
    rw [gone_append_singleton hgone, List.map_append, ← List.append_assoc]
    exact h.perm.append_right _
  matched := by
    rw [h.matched, List.map_append]
    rfl
  nodup := by
    rw [h.matched] at hfree
    rw [List.map_append]
    exact h.nodup.append (List.nodup_singleton _)
      (List.disjoint_singleton.mpr hfree)
  pairs := by
    intro r hr
    rcases List.mem_append.mp hr with hold | hnew
    · obtain ⟨e, he, b, hb, hrest⟩ := h.pairs r hold
      exact ⟨e, he, b, List.mem_append_left _ hb, hrest⟩
    · obtain rfl := List.mem_singleton.mp hnew
      exact ⟨entry, hentry, base, List.mem_append_right _ (List.mem_singleton_self _),
        rfl, rfl, hagree⟩
  maximal := by
    intro path hpath
    obtain ⟨b, hb, hpath', hall⟩ := h.maximal path hpath
    exact ⟨b, List.mem_append_left _ hb, hpath', fun e he hagree =>
      List.mem_append_left _ (hall e he hagree)⟩

theorem Matched.deleted (h : Matched current new done m)
    (hgone : base.path ∉ current.map FileEntry.path)
    (hnone : ∀ entry ∈ new, Agree entry base → entry.path ∈ m.matchedNewPaths) :
    Matched current new (done ++ [base])
      { m with deleted := m.deleted ++ [base.path] } where
  perm := by
    rw [gone_append_singleton hgone, List.append_assoc]
    refine (List.Perm.append_left _ List.perm_append_comm).trans ?_
    rw [← List.append_assoc]
    exact h.perm.append_right _
  matched := h.matched
  nodup := h.nodup
  pairs := by
    intro r hr
    obtain ⟨entry, hentry, b, hb, hrest⟩ := h.pairs r hr
    exact ⟨entry, hentry, b, List.mem_append_left _ hb, hrest⟩
  maximal := by
    intro path hpath
    rcases List.mem_append.mp hpath with hold | hnew
    · obtain ⟨b, hb, hrest⟩ := h.maximal path hold
      exact ⟨b, List.mem_append_left _ hb, hrest⟩
    · obtain rfl := List.mem_singleton.mp hnew
      exact ⟨base, List.mem_append_right _ (List.mem_singleton_self _), rfl, hnone⟩

/-- One more file of the baseline. -/
theorem Matched.step (h : Matched current new done m) (base : FileSnapshotEntry) :
    Matched current new (done ++ [base]) (matchBaseFile current new m base) := by
  unfold matchBaseFile
  by_cases hcommon : base.path ∈ current.map FileEntry.path
  · rw [if_pos hcommon]
    exact h.of_common hcommon
  · rw [if_neg hcommon]
    cases hfind : new.find? fun curr => curr.path ∉ m.matchedNewPaths ∧
        curr.size = base.size ∧ curr.modifiedAt = base.mtime with
    | some entry =>
        have hfits : entry.path ∉ m.matchedNewPaths ∧ Agree entry base := by
          simpa [Agree] using List.find?_some hfind
        exact h.renamed hcommon (List.mem_of_find?_eq_some hfind) hfits.1 hfits.2
    | none =>
        refine h.deleted hcommon fun entry hentry hagree => ?_
        by_contra hfree
        have hunfit := List.find?_eq_none.mp hfind entry hentry
        exact hunfit (by simpa [hfree, Agree] using hagree)

/-- The whole loop. -/
theorem matched_foldl (files : List FileSnapshotEntry) :
    Matched current new files (files.foldl (matchBaseFile current new)
      { deleted := [], renamed := [], matchedNewPaths := [] }) := by
  induction files using List.reverseRecOn with
  | nil =>
      exact matched_nil
  | append_singleton files base ih =>
      rw [List.foldl_concat]
      exact ih.step base

end Loop

section Lists

variable {current : List FileEntry} {baseline : BackupSnapshot}

/-- The files whose paths are not in the baseline. -/
def newFiles (current : List FileEntry) (baseline : BackupSnapshot) :
    List FileEntry :=
  (current.filter (isChanged baseline)).filter fun entry =>
    !((baselineMap baseline).lookup entry.path).isSome

theorem matched_compute (current : List FileEntry) (baseline : BackupSnapshot) :
    ∃ m, Matched current (newFiles current baseline) baseline.files m ∧
      (compute current baseline).added =
        (newFiles current baseline).filter (fun e => e.path ∉ m.matchedNewPaths) ∧
      (compute current baseline).deleted = m.deleted ∧
      (compute current baseline).renamed = m.renamed :=
  ⟨_, matched_foldl baseline.files, rfl, rfl, rfl⟩

theorem mem_newFiles_iff {entry : FileEntry} :
    entry ∈ newFiles current baseline ↔ entry ∈ current ∧
      entry.path ∉ baseline.files.map FileSnapshotEntry.path := by
  unfold newFiles
  rw [List.mem_filter, List.mem_filter, Bool.not_eq_true', Bool.eq_false_iff, Ne,
    isSome_lookup_baselineMap]
  constructor
  · rintro ⟨⟨hentry, -⟩, hnew⟩
    exact ⟨hentry, hnew⟩
  · rintro ⟨hentry, hnew⟩
    exact ⟨⟨hentry, isChanged_of_not_mem hnew⟩, hnew⟩

theorem isChanged_iff (hbase : (baseline.files.map FileSnapshotEntry.path).Nodup)
    {entry : FileEntry} {base : FileSnapshotEntry} (hmem : base ∈ baseline.files)
    (hpath : base.path = entry.path) :
    isChanged baseline entry = true ↔ ¬ Agree entry base := by
  have hlookup : (baselineMap baseline).lookup entry.path = some base := by
    refine HashMap.lookup_collect_of_forall ?_ ?_
    · rw [List.map_map, ← hpath]
      exact List.mem_map_of_mem hmem
    · intro base' hmem'
      obtain ⟨b, hb, heq⟩ := List.mem_map.mp hmem'
      obtain ⟨hb', rfl⟩ := Prod.mk.inj heq
      exact List.inj_on_of_nodup_map hbase hb hmem (hb'.trans hpath.symm)
  simp only [isChanged, hlookup, Agree, Bool.or_eq_true, decide_eq_true_eq]
  exact not_and_or.symm

theorem mem_modified_iff
    (hbase : (baseline.files.map FileSnapshotEntry.path).Nodup) {entry : FileEntry} :
    entry ∈ (compute current baseline).modified ↔ entry ∈ current ∧
      ∃ base ∈ baseline.files, base.path = entry.path ∧ ¬ Agree entry base := by
  have hfilter : entry ∈ (compute current baseline).modified ↔
      (entry ∈ current ∧ isChanged baseline entry = true) ∧
        entry.path ∈ baseline.files.map FileSnapshotEntry.path := by
    rw [← isSome_lookup_baselineMap, ← List.mem_filter]
    exact List.mem_filter
  rw [hfilter]
  constructor
  · rintro ⟨⟨hentry, hchanged⟩, hpath⟩
    obtain ⟨base, hmem, hpath⟩ := List.mem_map.mp hpath
    exact ⟨hentry, base, hmem, hpath, (isChanged_iff hbase hmem hpath).mp hchanged⟩
  · rintro ⟨hentry, base, hmem, hpath, hdiffer⟩
    refine ⟨⟨hentry, (isChanged_iff hbase hmem hpath).mpr hdiffer⟩, ?_⟩
    rw [← hpath]
    exact List.mem_map_of_mem hmem

/-- The paths that are added. -/
theorem mem_map_added_iff {path : String} :
    path ∈ (compute current baseline).added.map FileEntry.path ↔
      path ∈ current.map FileEntry.path ∧
      path ∉ baseline.files.map FileSnapshotEntry.path ∧
      path ∉ (compute current baseline).renamed.map RenamedFile.newPath := by
  obtain ⟨m, hm, hadded, -, hrenamed⟩ := matched_compute current baseline
  rw [hadded, hrenamed, ← hm.matched]
  constructor
  · intro hpath
    obtain ⟨entry, hentry, rfl⟩ := List.mem_map.mp hpath
    obtain ⟨hnew, hfree⟩ := List.mem_filter.mp hentry
    obtain ⟨hcurrent, hpath⟩ := mem_newFiles_iff.mp hnew
    exact ⟨List.mem_map_of_mem hcurrent, hpath, of_decide_eq_true hfree⟩
  · rintro ⟨hcurrent, hnew, hfree⟩
    obtain ⟨entry, hentry, rfl⟩ := List.mem_map.mp hcurrent
    refine List.mem_map_of_mem (List.mem_filter.mpr ?_)
    exact ⟨mem_newFiles_iff.mpr ⟨hentry, hnew⟩, decide_eq_true hfree⟩

theorem renamed_pairs {r : RenamedFile} (hr : r ∈ (compute current baseline).renamed) :
    ∃ entry ∈ current, ∃ base ∈ baseline.files,
      entry.path = r.newPath ∧ base.path = r.oldPath ∧
      r.newPath ∉ baseline.files.map FileSnapshotEntry.path ∧
      r.oldPath ∉ current.map FileEntry.path ∧ Agree entry base := by
  obtain ⟨m, hm, -, -, hrenamed⟩ := matched_compute current baseline
  rw [hrenamed] at hr
  obtain ⟨entry, hentry, base, hbase, hnew, hold, hagree⟩ := hm.pairs r hr
  obtain ⟨hcurrent, hpath⟩ := mem_newFiles_iff.mp hentry
  have hgone : r.oldPath ∈ m.deleted ++ m.renamed.map RenamedFile.oldPath :=
    List.mem_append_right _ (List.mem_map_of_mem hr)
  obtain ⟨b, hb, hpath'⟩ := List.mem_map.mp (hm.perm.mem_iff.mp hgone)
  refine ⟨entry, hcurrent, base, hbase, hnew, hold, hnew ▸ hpath, ?_, hagree⟩
  rw [← hpath']
  exact of_decide_eq_true (List.mem_filter.mp hb).2

/-- The paths of the baseline that are gone. -/
theorem mem_gone_iff {path : String} :
    path ∈ gone (compute current baseline) ↔
      path ∈ baseline.files.map FileSnapshotEntry.path ∧
      path ∉ current.map FileEntry.path := by
  obtain ⟨m, hm, -, hdeleted, hrenamed⟩ := matched_compute current baseline
  rw [gone, hdeleted, hrenamed, hm.perm.mem_iff]
  constructor
  · intro hpath
    obtain ⟨b, hb, rfl⟩ := List.mem_map.mp hpath
    obtain ⟨hmem, hgone⟩ := List.mem_filter.mp hb
    exact ⟨List.mem_map_of_mem hmem, of_decide_eq_true hgone⟩
  · rintro ⟨hpath, hgone⟩
    obtain ⟨b, hb, rfl⟩ := List.mem_map.mp hpath
    exact List.mem_map_of_mem (List.mem_filter.mpr ⟨hb, decide_eq_true hgone⟩)

theorem nodup_gone (hbase : (baseline.files.map FileSnapshotEntry.path).Nodup) :
    (gone (compute current baseline)).Nodup := by
  obtain ⟨m, hm, -, hdeleted, hrenamed⟩ := matched_compute current baseline
  rw [gone, hdeleted, hrenamed, hm.perm.nodup_iff]
  exact hbase.sublist (List.filter_sublist.map _)

theorem maximal_compute (hbase : (baseline.files.map FileSnapshotEntry.path).Nodup)
    {entry : FileEntry} (hentry : entry ∈ (compute current baseline).added)
    {base : FileSnapshotEntry} (hmem : base ∈ baseline.files)
    (hdeleted : base.path ∈ (compute current baseline).deleted) :
    ¬ Agree entry base := by
  obtain ⟨m, hm, hadded, hdel, -⟩ := matched_compute current baseline
  rw [hadded] at hentry
  rw [hdel] at hdeleted
  obtain ⟨hnew, hfree⟩ := List.mem_filter.mp hentry
  obtain ⟨b, hb, hpath, hall⟩ := hm.maximal _ hdeleted
  obtain rfl := List.inj_on_of_nodup_map hbase hb hmem hpath
  exact fun hagree => of_decide_eq_true hfree (hall entry hnew hagree)

end Lists

section Law

variable {current : List FileEntry} {baseline : BackupSnapshot}

/-- An entry and a file of the baseline are given by their path. -/
theorem agree_of_agree (hcurrent : (current.map FileEntry.path).Nodup)
    (hbase : (baseline.files.map FileSnapshotEntry.path).Nodup)
    {entry entry' : FileEntry} {base base' : FileSnapshotEntry}
    (hentry : entry ∈ current) (hentry' : entry' ∈ current)
    (hmem : base ∈ baseline.files) (hmem' : base' ∈ baseline.files)
    (hpath : entry.path = entry'.path) (hpath' : base.path = base'.path)
    (h : Agree entry base) : Agree entry' base' := by
  obtain rfl := List.inj_on_of_nodup_map hcurrent hentry hentry' hpath
  obtain rfl := List.inj_on_of_nodup_map hbase hmem hmem' hpath'
  exact h

/-- A new name is a current path that is not in the baseline. -/
theorem mem_of_mem_newPath {path : String}
    (h : path ∈ (compute current baseline).renamed.map RenamedFile.newPath) :
    path ∈ current.map FileEntry.path ∧
      path ∉ baseline.files.map FileSnapshotEntry.path := by
  obtain ⟨r, hr, rfl⟩ := List.mem_map.mp h
  obtain ⟨entry, hentry, base, -, hnew, -, hpath, -⟩ := renamed_pairs hr
  exact ⟨hnew ▸ List.mem_map_of_mem hentry, hpath⟩

/-- A path of both trees is modified if its files do not agree. -/
theorem mem_map_modified_iff (hcurrent : (current.map FileEntry.path).Nodup)
    (hbase : (baseline.files.map FileSnapshotEntry.path).Nodup)
    {entry : FileEntry} {base : FileSnapshotEntry} (hentry : entry ∈ current)
    (hmem : base ∈ baseline.files) (hpath : base.path = entry.path) :
    entry.path ∈ (compute current baseline).modified.map FileEntry.path ↔
      ¬ Agree entry base := by
  constructor
  · intro hmodified hagree
    obtain ⟨entry', hentry', hpath'⟩ := List.mem_map.mp hmodified
    obtain ⟨hcur', base', hmem', hbase', hdiffer⟩ := (mem_modified_iff hbase).mp hentry'
    exact hdiffer (agree_of_agree hcurrent hbase hentry hcur' hmem hmem' hpath'.symm
      (hpath.trans (hpath'.symm.trans hbase'.symm)) hagree)
  · intro hdiffer
    exact List.mem_map_of_mem
      ((mem_modified_iff hbase).mpr ⟨hentry, base, hmem, hpath, hdiffer⟩)

/-- A path that the baseline has is unchanged or modified. -/
theorem fates_of_common (hcurrent : (current.map FileEntry.path).Nodup)
    (hbase : (baseline.files.map FileSnapshotEntry.path).Nodup) {entry : FileEntry}
    (hentry : entry ∈ current)
    (hcommon : entry.path ∈ baseline.files.map FileSnapshotEntry.path) :
    ∃! fate, HasFate current baseline (compute current baseline) entry.path fate := by
  obtain ⟨base, hmem, hpath⟩ := List.mem_map.mp hcommon
  have hmodified := mem_map_modified_iff hcurrent hbase hentry hmem hpath
  by_cases hagree : Agree entry base
  · refine ⟨.unchanged, ⟨entry, hentry, base, hmem, rfl, hpath, hagree⟩, ?_⟩
    intro fate hfate
    cases fate with
    | added =>
        exact absurd hcommon (mem_map_added_iff.mp hfate).2.1
    | renamed =>
        exact absurd hcommon (mem_of_mem_newPath hfate).2
    | modified =>
        exact absurd hagree (hmodified.mp hfate)
    | unchanged =>
        rfl
  · refine ⟨.modified, hmodified.mpr hagree, ?_⟩
    intro fate hfate
    cases fate with
    | added =>
        exact absurd hcommon (mem_map_added_iff.mp hfate).2.1
    | renamed =>
        exact absurd hcommon (mem_of_mem_newPath hfate).2
    | modified =>
        rfl
    | unchanged =>
        obtain ⟨entry', hentry', base', hmem', hp, hp', hagree'⟩ := hfate
        exact absurd (agree_of_agree hcurrent hbase hentry' hentry hmem' hmem hp
          (hp'.trans hpath.symm) hagree') hagree

/-- A path that the baseline does not have is renamed or added. -/
theorem fates_of_new
    (hbase : (baseline.files.map FileSnapshotEntry.path).Nodup) {entry : FileEntry}
    (h : entry.path ∈ current.map FileEntry.path)
    (hcommon : entry.path ∉ baseline.files.map FileSnapshotEntry.path) :
    ∃! fate, HasFate current baseline (compute current baseline) entry.path fate := by
  have hunchanged : ¬ HasFate current baseline (compute current baseline)
      entry.path .unchanged := by
    rintro ⟨entry', -, base', hmem', -, hp', -⟩
    exact hcommon (hp' ▸ List.mem_map_of_mem hmem')
  have hunmodified : ¬ HasFate current baseline (compute current baseline)
      entry.path .modified := by
    intro hmodified
    obtain ⟨entry', hentry', hp⟩ := List.mem_map.mp hmodified
    obtain ⟨-, base', hmem', hp', -⟩ := (mem_modified_iff hbase).mp hentry'
    exact hcommon (hp ▸ hp' ▸ List.mem_map_of_mem hmem')
  by_cases hrenamed : entry.path ∈
      (compute current baseline).renamed.map RenamedFile.newPath
  · refine ⟨.renamed, hrenamed, ?_⟩
    intro fate hfate
    cases fate with
    | added =>
        exact absurd hrenamed (mem_map_added_iff.mp hfate).2.2
    | renamed =>
        rfl
    | modified =>
        exact absurd hfate hunmodified
    | unchanged =>
        exact absurd hfate hunchanged
  · refine ⟨.added, mem_map_added_iff.mpr ⟨h, hcommon, hrenamed⟩, ?_⟩
    intro fate hfate
    cases fate with
    | added =>
        rfl
    | renamed =>
        exact absurd hfate hrenamed
    | modified =>
        exact absurd hfate hunmodified
    | unchanged =>
        exact absurd hfate hunchanged

theorem fates_compute (hcurrent : (current.map FileEntry.path).Nodup)
    (hbase : (baseline.files.map FileSnapshotEntry.path).Nodup) {path : String}
    (h : path ∈ current.map FileEntry.path) :
    ∃! fate, HasFate current baseline (compute current baseline) path fate := by
  obtain ⟨entry, hentry, rfl⟩ := List.mem_map.mp h
  by_cases hcommon : entry.path ∈ baseline.files.map FileSnapshotEntry.path
  · exact fates_of_common hcurrent hbase hentry hcommon
  · exact fates_of_new hbase h hcommon

theorem base_fates_compute
    (hbase : (baseline.files.map FileSnapshotEntry.path).Nodup) {path : String}
    (h : path ∈ baseline.files.map FileSnapshotEntry.path) :
    ∃! fate, HasBaseFate current (compute current baseline) path fate := by
  have hnodup := @nodup_gone current baseline hbase
  have hdisjoint := List.disjoint_of_nodup_append hnodup
  have hgone := @mem_gone_iff current baseline path
  rw [gone, List.mem_append] at hgone
  by_cases hcommon : path ∈ current.map FileEntry.path
  · refine ⟨.common, hcommon, ?_⟩
    intro fate hfate
    cases fate with
    | deleted =>
        exact absurd hcommon (hgone.mp (Or.inl hfate)).2
    | renamed =>
        exact absurd hcommon (hgone.mp (Or.inr hfate)).2
    | common =>
        rfl
  · rcases hgone.mpr ⟨h, hcommon⟩ with hdeleted | hrenamed
    · refine ⟨.deleted, hdeleted, ?_⟩
      intro fate hfate
      cases fate with
      | deleted =>
          rfl
      | renamed =>
          exact absurd hfate (hdisjoint hdeleted)
      | common =>
          exact absurd hfate hcommon
    · refine ⟨.renamed, hrenamed, ?_⟩
      intro fate hfate
      cases fate with
      | deleted =>
          exact absurd hrenamed (hdisjoint hfate)
      | renamed =>
          rfl
      | common =>
          exact absurd hfate hcommon

theorem nodup_reported (hcurrent : (current.map FileEntry.path).Nodup)
    (hbase : (baseline.files.map FileSnapshotEntry.path).Nodup) :
    (reported (compute current baseline)).Nodup := by
  obtain ⟨m, hm, hadded, -, hrenamed⟩ := matched_compute current baseline
  have hnew : ((compute current baseline).added.map FileEntry.path).Nodup := by
    rw [hadded]
    exact hcurrent.sublist (((List.filter_sublist.trans
      List.filter_sublist).trans List.filter_sublist).map _)
  have hmodified : ((compute current baseline).modified.map FileEntry.path).Nodup :=
    hcurrent.sublist ((List.filter_sublist.trans List.filter_sublist).map _)
  have hnames : ((compute current baseline).renamed.map
      RenamedFile.newPath).Nodup := by
    rw [hrenamed]
    exact hm.nodup
  -- The three lists have nothing in common, since every path has one fate.
  have hfate : ∀ path fate fate',
      HasFate current baseline (compute current baseline) path fate →
      HasFate current baseline (compute current baseline) path fate' →
      path ∈ current.map FileEntry.path → fate = fate' := by
    intro path fate fate' h h' hpath
    exact (fates_compute hcurrent hbase hpath).unique h h'
  refine List.Nodup.append (hnew.append hnames ?_) hmodified ?_
  · intro path hpath hpath'
    have hsame := hfate path .added .renamed hpath hpath' (mem_map_added_iff.mp hpath).1
    cases hsame
  · intro path hpath hpath'
    rcases List.mem_append.mp hpath with hpath | hpath
    · have hsame := hfate path .added .modified hpath hpath'
        (mem_map_added_iff.mp hpath).1
      cases hsame
    · have hsame := hfate path .renamed .modified hpath hpath'
        (mem_of_mem_newPath hpath).1
      cases hsame

theorem mem_of_mem_reported
    (hbase : (baseline.files.map FileSnapshotEntry.path).Nodup) {path : String}
    (h : path ∈ reported (compute current baseline)) :
    path ∈ current.map FileEntry.path := by
  rcases List.mem_append.mp h with h | h
  · rcases List.mem_append.mp h with h | h
    · exact (mem_map_added_iff.mp h).1
    · exact (mem_of_mem_newPath h).1
  · obtain ⟨entry, hentry, rfl⟩ := List.mem_map.mp h
    exact List.mem_map_of_mem ((mem_modified_iff hbase).mp hentry).1

/-- The comparison of two lists with distinct paths. -/
theorem isDiff_compute (hcurrent : (current.map FileEntry.path).Nodup)
    (hbase : (baseline.files.map FileSnapshotEntry.path).Nodup) :
    IsDiff current baseline (compute current baseline) where
  fates := fun _ h => fates_compute hcurrent hbase h
  base_fates := fun _ h => base_fates_compute hbase h
  reported_once :=
    ⟨nodup_reported hcurrent hbase, fun _ h => mem_of_mem_reported hbase h⟩
  gone_once := ⟨nodup_gone hbase, fun _ h => (mem_gone_iff.mp h).1⟩
  common := by
    intro entry hentry base hmem hpath
    have hcommon : entry.path ∈ baseline.files.map FileSnapshotEntry.path :=
      hpath ▸ List.mem_map_of_mem hmem
    have hmodified := mem_map_modified_iff hcurrent hbase hentry hmem hpath.symm
    have hreported : entry.path ∈ reported (compute current baseline) ↔
        ¬ Agree entry base := by
      rw [← hmodified, reported, List.mem_append, List.mem_append]
      refine or_iff_right ?_
      rintro (h | h)
      · exact (mem_map_added_iff.mp h).2.1 hcommon
      · exact (mem_of_mem_newPath h).2 hcommon
    rw [hreported, not_not]
  pairs := fun _ hr => renamed_pairs hr
  maximal := fun _ hentry _ hmem hdeleted => maximal_compute hbase hentry hmem hdeleted

/-- One file, new in the tree. -/
def oneNew : FileEntry where
  path := "/data/new"
  size := 100
  modifiedAt := 0
  attributes := {}
  chunks := []
  fileHash := zeroDigest

/-- Two files of its size and time. -/
def twoOld : BackupSnapshot where
  versionId := ⟨0⟩
  timestamp := 0
  files := [⟨"/data/a", 100, 0, zeroDigest⟩, ⟨"/data/b", 100, 0, zeroDigest⟩]

/-- Two files that are gone compete for one that is new. -/
theorem isDiff_competing : IsDiff [oneNew] twoOld (compute [oneNew] twoOld) :=
  isDiff_compute (by decide) (by decide)

end Law

end FileTreeDiff
end Agent
end HyperBackup
