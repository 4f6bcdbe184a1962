import HyperBackup.Domain
import HyperBackup.Lib.HashMap
import HyperBackup.Lib.Runs
import HyperBackup.Lib.Sha256

/-!
# Upgrading a binary

An upgrade task downloads a binary, backs up the current one, replaces it, and
may be rolled back.  The task records two paths; a step that uses one of them
does not look at what happened to the file there.  A copy that breaks off leaves
a part of the file, and a backup may be made of a binary that has been replaced.

Beside the contents of every file the model keeps its origin: the original
binary, a download that was received in full and verified, or anything else.
The origin is passed on by copying and renaming.  As long as only a verified
download is installed and only a copy of the original is put back, the target is
one of the two.
-/

namespace HyperBackup
namespace Control
namespace Upgrade

open Lib Lib.Runs

inductive UpgradeStatus
  | downloading
  | waiting
  | replacing
  | restarting
  | completed
  | failed
  | rolledBack
deriving DecidableEq

structure UpgradeTask where
  id : Uuid
  deviceId : Uuid
  fromVersion : String
  toVersion : String
  downloadURL : String
  checksum : String
  status : UpgradeStatus
  startedAt : DateTime
  completedAt : Option DateTime
  errorMsg : String
  backupPath : String
  newBinaryPath : String

def createUpgradeTask (id : Uuid) (now : DateTime) (deviceId : Uuid)
    (fromVersion toVersion downloadURL checksum : String) : UpgradeTask where
  id := id
  deviceId := deviceId
  fromVersion := fromVersion
  toVersion := toVersion
  downloadURL := downloadURL
  checksum := checksum
  status := .downloading
  startedAt := now
  completedAt := none
  errorMsg := ""
  backupPath := ""
  newBinaryPath := ""

/-- The directory of the manager, how paths are joined, and the binary that is
upgraded. -/
structure Setup where
  workDir : String
  join : String → String → String
  targetPath : String

/-- Where the contents of a file come from. -/
inductive Origin
  | original
  | verified
  | unknown
deriving DecidableEq

/-- The task, the files with their origins, and the downloads that have been
received in full. -/
structure World where
  task : UpgradeTask
  files : HashMap String Bytes
  origin : String → Origin
  received : List Bytes

variable (setup : Setup)

def binaryPath (task : UpgradeTask) : String :=
  setup.join setup.workDir ("agent-" ++ task.toVersion ++ "-" ++ uuidText task.id)

def backupPath (task : UpgradeTask) : String :=
  setup.join setup.workDir
    ("agent-backup-" ++ task.fromVersion ++ "-" ++ uuidText task.id)

def computeChecksum (data : Bytes) : String :=
  Hex.encode (Sha256.hash data).toList

namespace World

def write (path : String) (data : Bytes) (o : Origin) (w : World) : World :=
  { w with
    files := w.files.insert path data
    origin := Function.update w.origin path o }

def remove (path : String) (w : World) : World :=
  { w with files := w.files.erase path }

/-- Rename a file, unless that fails. -/
def rename (err : Option String) (old new : String) (w : World) :
    Except String Unit × World :=
  match err with
  | some err => (.error err, w)
  | none =>
      match w.files.lookup old with
      | none =>
          (.error ("rename " ++ old ++ " " ++ new ++ ": no such file or directory"), w)
      | some data => (.ok (), (w.remove old).write new data (w.origin old))

def withTask (task : UpgradeTask) (w : World) : World :=
  { w with task := task }

def markFailed (now : DateTime) (errMsg : String) (w : World) : World :=
  w.withTask
    { w.task with status := .failed, errorMsg := errMsg, completedAt := some now }

end World

/-- What the server answers: an error, or a status and a body. -/
inductive Response
  | failed (err : String)
  | answered (statusCode : Nat) (body : Bytes)

/-- A copy breaks off after some bytes, with an error. -/
abbrev Break : Type :=
  Option (Nat × String)

structure Download where
  now : DateTime
  response : Response
  createErr : Option String
  copyErr : Break
  removeFails : Bool

/-- The task with the path of its download. -/
def downloading (w : World) : World :=
  w.withTask { w.task with newBinaryPath := binaryPath setup w.task }

/-- The body has been written in full; its checksum is compared. -/
def finishDownload (d : Download) (body : Bytes) (w : World) :
    Except String Unit × World :=
  let path := binaryPath setup w.task
  let w := { w with received := w.received ++ [body] }
  let downloadedChecksum := computeChecksum body
  if w.task.checksum ≠ "" ∧ downloadedChecksum ≠ w.task.checksum then
    let w := w.write path body .unknown
    let w := if d.removeFails then w else w.remove path
    (.error "checksum mismatch", w.markFailed d.now
      ("checksum mismatch: expected " ++ w.task.checksum ++ ", got " ++
        downloadedChecksum))
  else
    let w := w.write path body .verified
    (.ok (), w.withTask { w.task with status := .waiting })

def downloadBinary (d : Download) (w : World) : Except String Unit × World :=
  let w := downloading setup w
  match d.response with
  | .failed err => (.error err, w.markFailed d.now ("download failed: " ++ err))
  | .answered statusCode body =>
      if statusCode ≠ 200 then
        let err := "download returned " ++ toString statusCode
        (.error err, w.markFailed d.now err)
      else
        match d.createErr with
        | some err =>
            (.error err, w.markFailed d.now ("create file failed: " ++ err))
        | none =>
            match d.copyErr with
            | some (n, err) =>
                let w := w.write (binaryPath setup w.task) (body.take n) .unknown
                (.error err, w.markFailed d.now ("write failed: " ++ err))
            | none => finishDownload setup d body w

/-- The task with the path of its backup. -/
def backingUp (w : World) : World :=
  w.withTask { w.task with backupPath := backupPath setup w.task }

structure Backup where
  openErr : Option String
  createErr : Option String
  copyErr : Break

/-- The file of the backup has been created; the current binary is copied. -/
def copyBinary (err : Break) (currentPath : String) (w : World) :
    Except String Unit × World :=
  let path := backupPath setup w.task
  let created := w.write path [] .unknown
  let data := (created.files.lookup currentPath).getD []
  match err with
  | some (n, err) =>
      (.error ("backup copy failed: " ++ err),
        created.write path (data.take n) .unknown)
  | none => (.ok (), created.write path data (created.origin currentPath))

def backupCurrentBinary (b : Backup) (currentPath : String) (w : World) :
    Except String Unit × World :=
  let w := backingUp setup w
  match b.openErr with
  | some err => (.error ("open current binary failed: " ++ err), w)
  | none =>
      match w.files.lookup currentPath with
      | none =>
          (.error ("open current binary failed: open " ++ currentPath ++
            ": no such file or directory"), w)
      | some _ =>
          match b.createErr with
          | some err => (.error ("create backup failed: " ++ err), w)
          | none => copyBinary setup b.copyErr currentPath w

structure Replacement where
  now : DateTime
  backup : Backup
  renameErr : Option String

/-- The backup that a replacement makes unless one is recorded. -/
def ensureBackup (b : Backup) (w : World) : Except String Unit × World :=
  if w.task.backupPath = "" then
    backupCurrentBinary setup b setup.targetPath w
  else (.ok (), w)

/-- A backup is there; the new binary is moved to the target. -/
def installBinary (r : Replacement) (w : World) : Except String Unit × World :=
  match w.rename r.renameErr w.task.newBinaryPath setup.targetPath with
  | (.error err, w) => (.error err, w.markFailed r.now ("replace failed: " ++ err))
  | (.ok (), w) => (.ok (), w.withTask { w.task with status := .restarting })

def replaceBinary (r : Replacement) (w : World) : Except String Unit × World :=
  let w := w.withTask { w.task with status := .replacing }
  match ensureBackup setup r.backup w with
  | (.error err, w) => (.error err, w.markFailed r.now ("backup failed: " ++ err))
  | (.ok (), w) => installBinary setup r w

def completeUpgrade (now : DateTime) (w : World) : World :=
  w.withTask { w.task with status := .completed, completedAt := some now }

structure RollbackCall where
  now : DateTime
  statErr : Option String
  renameErr : Option String

/-- The backup has been found; it is moved to the target. -/
def putBack (r : RollbackCall) (w : World) : Except String Unit × World :=
  match w.rename r.renameErr w.task.backupPath setup.targetPath with
  | (.error err, w) => (.error ("rollback replace failed: " ++ err), w)
  | (.ok (), w) => (.ok (), w.withTask
      { w.task with status := .rolledBack, completedAt := some r.now })

def rollback (r : RollbackCall) (w : World) : Except String Unit × World :=
  if w.task.backupPath = "" then
    (.error "no backup available for rollback", w)
  else
    match r.statErr with
    | some err => (.error ("backup file not found: " ++ err), w)
    | none =>
        match w.files.lookup w.task.backupPath with
        | none =>
            (.error ("backup file not found: stat " ++ w.task.backupPath ++
              ": no such file or directory"), w)
        | some _ => putBack setup r w

/-- The calls for a task, with the failures that they meet. -/
inductive Call
  | downloadBinary (d : Download)
  | backupCurrentBinary (b : Backup)
  | replaceBinary (r : Replacement)
  | completeUpgrade (now : DateTime)
  | rollback (r : RollbackCall)

def step (w : World) : Call → World
  | .downloadBinary d => (downloadBinary setup d w).2
  | .backupCurrentBinary b => (backupCurrentBinary setup b setup.targetPath w).2
  | .replaceBinary r => (replaceBinary setup r w).2
  | .completeUpgrade now => completeUpgrade now w
  | .rollback r => (rollback setup r w).2

/-- A new task, with the original binary in place. -/
def start (task : UpgradeTask) (files : HashMap String Bytes) : World where
  task := task
  files := files
  origin := Function.update (fun _ => .unknown) setup.targetPath .original
  received := []

/-- The data have been received in full and have the expected checksum. -/
def Verified (w : World) (data : Bytes) : Prop :=
  data ∈ w.received ∧ computeChecksum data = w.task.checksum

/-- The target is the original binary or a verified download. -/
def Sound (original : Bytes) (w : World) : Prop :=
  ∃ data, w.files.lookup setup.targetPath = some data ∧
    (data = original ∨ Verified w data)

/-- A successful rollback puts the original binary back. -/
def Restores (original : Bytes) (w : World) : Call → Prop
  | .rollback r => (rollback setup r w).1 = .ok () →
      (rollback setup r w).2.files.lookup setup.targetPath = some original
  | _ => True

/-- A file that is not there, or has an origin. -/
def ComesFrom (o : Origin) (path : String) (w : World) : Prop :=
  w.files.lookup path = none ∨ w.origin path = o

/-- A binary that is installed has been downloaded in full and verified; a backup
that is put back is a full copy of the original; the work files are not the
target. -/
def Undisturbed (w : World) : Call → Prop
  | .downloadBinary _ => binaryPath setup w.task ≠ setup.targetPath
  | .backupCurrentBinary _ => backupPath setup w.task ≠ setup.targetPath
  | .replaceBinary _ => backupPath setup w.task ≠ setup.targetPath ∧
      ComesFrom .verified w.task.newBinaryPath w
  | .completeUpgrade _ => True
  | .rollback _ => ComesFrom .original w.task.backupPath w

section Invariant

variable {setup : Setup} {original data : Bytes} {w : World} {path old : String}
variable {o : Origin}

/-- The origin of every file is what it says, and the target has one. -/
structure Inv (setup : Setup) (original : Bytes) (w : World) : Prop where
  checksum_ne : w.task.checksum ≠ ""
  is_original : ∀ path data, w.files.lookup path = some data →
    w.origin path = .original → data = original
  is_verified : ∀ path data, w.files.lookup path = some data →
    w.origin path = .verified → Verified w data
  target : (w.files.lookup setup.targetPath).isSome
  target_known : w.origin setup.targetPath ≠ .unknown

theorem Inv.sound (h : Inv setup original w) : Sound setup original w := by
  obtain ⟨data, hdata⟩ := Option.isSome_iff_exists.mp h.target
  refine ⟨data, hdata, ?_⟩
  cases ho : w.origin setup.targetPath with
  | original =>
      exact Or.inl (h.is_original _ data hdata ho)
  | verified =>
      exact Or.inr (h.is_verified _ data hdata ho)
  | unknown =>
      exact absurd ho h.target_known

theorem inv_withTask (h : Inv setup original w) {task : UpgradeTask}
    (htask : task.checksum = w.task.checksum) :
    Inv setup original (w.withTask task) where
  checksum_ne := by
    rw [World.withTask, htask]
    exact h.checksum_ne
  is_original := h.is_original
  is_verified := fun path data hdata ho => by
    obtain ⟨hreceived, hchecksum⟩ := h.is_verified path data hdata ho
    exact ⟨hreceived, by rw [World.withTask, htask, hchecksum]⟩
  target := h.target
  target_known := h.target_known

theorem inv_markFailed (h : Inv setup original w) (now : DateTime) (errMsg : String) :
    Inv setup original (w.markFailed now errMsg) :=
  inv_withTask h rfl

theorem inv_received (h : Inv setup original w) (body : Bytes) :
    Inv setup original { w with received := w.received ++ [body] } where
  checksum_ne := h.checksum_ne
  is_original := h.is_original
  is_verified := fun path data hdata ho => by
    obtain ⟨hreceived, hchecksum⟩ := h.is_verified path data hdata ho
    exact ⟨List.mem_append_left _ hreceived, hchecksum⟩
  target := h.target
  target_known := h.target_known

/-- A file other than the target may get any contents that fit its origin. -/
theorem inv_write (h : Inv setup original w) (hpath : path ≠ setup.targetPath)
    (horiginal : o = .original → data = original)
    (hverified : o = .verified → Verified w data) :
    Inv setup original (w.write path data o) := by
  have hcases : ∀ p d, (w.write path data o).files.lookup p = some d →
      (p = path ∧ d = data ∧ (w.write path data o).origin p = o) ∨
        (w.files.lookup p = some d ∧ (w.write path data o).origin p = w.origin p) := by
    intro p d hd
    rcases HashMap.lookup_insert_eq_some.mp hd with ⟨hp, heq⟩ | ⟨hp, hold⟩
    · exact Or.inl ⟨hp, heq, by simp [World.write, hp]⟩
    · exact Or.inr ⟨hold, by simp [World.write, hp]⟩
  refine ⟨h.checksum_ne, fun p d hd ho => ?_, fun p d hd ho => ?_, ?_, ?_⟩
  · rcases hcases p d hd with ⟨-, rfl, heq⟩ | ⟨hold, heq⟩
    · exact horiginal (heq ▸ ho)
    · exact h.is_original p d hold (heq ▸ ho)
  · rcases hcases p d hd with ⟨-, rfl, heq⟩ | ⟨hold, heq⟩
    · exact hverified (heq ▸ ho)
    · exact h.is_verified p d hold (heq ▸ ho)
  · rw [World.write, HashMap.lookup_insert_of, if_neg (Ne.symm hpath)]
    exact h.target
  · simpa [World.write, Ne.symm hpath] using h.target_known

theorem inv_write_unknown (h : Inv setup original w)
    (hpath : path ≠ setup.targetPath) (data : Bytes) :
    Inv setup original (w.write path data .unknown) :=
  inv_write h hpath (fun ho => by cases ho) (fun ho => by cases ho)

theorem inv_remove (h : Inv setup original w) (hpath : path ≠ setup.targetPath) :
    Inv setup original (w.remove path) := by
  have hkept : ∀ p d, (w.remove path).files.lookup p = some d →
      w.files.lookup p = some d := by
    intro p d hd
    rw [World.remove, HashMap.lookup_erase_of] at hd
    split at hd
    · cases hd
    · exact hd
  refine ⟨h.checksum_ne, fun p d hd => h.is_original p d (hkept p d hd),
    fun p d hd => h.is_verified p d (hkept p d hd), ?_, h.target_known⟩
  rw [World.remove, HashMap.lookup_erase_of, if_neg (Ne.symm hpath)]
  exact h.target

/-- A file with an origin may be moved to the target. -/
theorem inv_move (h : Inv setup original w) (hold : w.files.lookup old = some data)
    (hknown : w.origin old ≠ .unknown) :
    Inv setup original ((w.remove old).write setup.targetPath data (w.origin old)) := by
  have hcases : ∀ p d,
      ((w.remove old).write setup.targetPath data (w.origin old)).files.lookup p =
          some d →
        w.files.lookup (if p = setup.targetPath then old else p) = some d := by
    intro p d hd
    rw [World.write, HashMap.lookup_insert_of] at hd
    by_cases hp : p = setup.targetPath
    · rw [if_pos hp] at hd ⊢
      rw [hold, hd]
    · rw [if_neg hp] at hd ⊢
      rw [World.remove, HashMap.lookup_erase_of] at hd
      split at hd
      · cases hd
      · exact hd
  have horigin : ∀ p,
      ((w.remove old).write setup.targetPath data (w.origin old)).origin p =
        w.origin (if p = setup.targetPath then old else p) := by
    intro p
    by_cases hp : p = setup.targetPath
    · simp [World.write, hp]
    · simp [World.write, World.remove, hp]
  refine ⟨h.checksum_ne, fun p d hd ho => ?_, fun p d hd ho => ?_, ?_, ?_⟩
  · exact h.is_original _ d (hcases p d hd) (horigin p ▸ ho)
  · exact h.is_verified _ d (hcases p d hd) (horigin p ▸ ho)
  · rw [World.write, HashMap.lookup_insert_of, if_pos rfl]
    rfl
  · rw [horigin, if_pos rfl]
    exact hknown

/-- A rename to the target, if the file that is moved has an origin. -/
theorem inv_rename (h : Inv setup original w) (err : Option String)
    (hknown : ∀ data, w.files.lookup old = some data → w.origin old ≠ .unknown) :
    Inv setup original (w.rename err old setup.targetPath).2 := by
  unfold World.rename
  cases err with
  | some err =>
      exact h
  | none =>
      cases hold : w.files.lookup old with
      | none =>
          exact h
      | some data =>
          exact inv_move h hold (hknown data hold)

theorem inv_finishDownload (h : Inv setup original w)
    (hpath : binaryPath setup w.task ≠ setup.targetPath) (d : Download) (body : Bytes) :
    Inv setup original (finishDownload setup d body w).2 := by
  have hreceived := inv_received h body
  unfold finishDownload
  simp only
  split
  · have hwritten := inv_write_unknown hreceived hpath body
    refine inv_markFailed ?_ d.now _
    split
    · exact hwritten
    · exact inv_remove hwritten hpath
  next hmatch =>
    refine inv_withTask (inv_write hreceived hpath (fun ho => by cases ho) fun _ => ?_) rfl
    refine ⟨List.mem_append_right _ (List.mem_singleton_self _), ?_⟩
    by_contra hne
    exact hmatch ⟨h.checksum_ne, hne⟩

theorem inv_downloadBinary (h : Inv setup original w)
    (hpath : binaryPath setup w.task ≠ setup.targetPath) (d : Download) :
    Inv setup original (downloadBinary setup d w).2 := by
  have hdownloading : Inv setup original (downloading setup w) := inv_withTask h rfl
  unfold downloadBinary
  simp only
  split
  · exact inv_markFailed hdownloading d.now _
  split
  · exact inv_markFailed hdownloading d.now _
  split
  · exact inv_markFailed hdownloading d.now _
  split
  · exact inv_markFailed (inv_write_unknown hdownloading hpath _) d.now _
  · exact inv_finishDownload hdownloading hpath d _

/-- Every file is as it was, or has an origin. -/
def Known (w w' : World) : Prop :=
  ∀ p, w'.origin p ≠ .unknown ∨
    w'.files.lookup p = w.files.lookup p ∧ w'.origin p = w.origin p

/-- The backup has the origin of the target, if it is made in full. -/
theorem inv_copyBinary (h : Inv setup original w)
    (hpath : backupPath setup w.task ≠ setup.targetPath) (err : Break) :
    Inv setup original (copyBinary setup err setup.targetPath w).2 ∧
      ((copyBinary setup err setup.targetPath w).1 = .ok () →
        Known w (copyBinary setup err setup.targetPath w).2) := by
  have hcreated := inv_write_unknown h hpath []
  cases err with
  | some e =>
      exact ⟨inv_write_unknown hcreated hpath _, fun hok => by cases hok⟩
  | none =>
      obtain ⟨data, hdata⟩ := Option.isSome_iff_exists.mp hcreated.target
      have hcopy : copyBinary setup none setup.targetPath w =
          (.ok (), (w.write (backupPath setup w.task) [] .unknown).write
            (backupPath setup w.task) data
            ((w.write (backupPath setup w.task) [] .unknown).origin
              setup.targetPath)) := by
        simp only [copyBinary, hdata, Option.getD_some]
      rw [hcopy]
      refine ⟨inv_write hcreated hpath (hcreated.is_original _ data hdata)
        (hcreated.is_verified _ data hdata), fun _ p => ?_⟩
      by_cases hp : p = backupPath setup w.task
      · left
        rw [hp]
        simpa [World.write] using hcreated.target_known
      · right
        simp [World.write, hp]

theorem inv_backupCurrentBinary (h : Inv setup original w)
    (hpath : backupPath setup w.task ≠ setup.targetPath) (b : Backup) :
    Inv setup original (backupCurrentBinary setup b setup.targetPath w).2 ∧
      ((backupCurrentBinary setup b setup.targetPath w).1 = .ok () →
        Known w (backupCurrentBinary setup b setup.targetPath w).2) := by
  have hbackingUp : Inv setup original (backingUp setup w) := inv_withTask h rfl
  unfold backupCurrentBinary
  simp only
  split
  · exact ⟨hbackingUp, fun hok => by cases hok⟩
  split
  · exact ⟨hbackingUp, fun hok => by cases hok⟩
  split
  · exact ⟨hbackingUp, fun hok => by cases hok⟩
  · exact inv_copyBinary hbackingUp hpath b.copyErr

theorem inv_ensureBackup (h : Inv setup original w)
    (hpath : backupPath setup w.task ≠ setup.targetPath) (b : Backup) :
    Inv setup original (ensureBackup setup b w).2 ∧
      ((ensureBackup setup b w).1 = .ok () → Known w (ensureBackup setup b w).2) := by
  unfold ensureBackup
  split
  · exact inv_backupCurrentBinary h hpath b
  · exact ⟨h, fun _ p => Or.inr ⟨rfl, rfl⟩⟩

/-- A backup leaves the path of the download as it is. -/
theorem newBinaryPath_ensureBackup (setup : Setup) (b : Backup) (w : World) :
    (ensureBackup setup b w).2.task.newBinaryPath = w.task.newBinaryPath := by
  unfold ensureBackup
  split
  · unfold backupCurrentBinary
    simp only
    split
    · rfl
    split
    · rfl
    split
    · rfl
    · unfold copyBinary
      simp only
      split <;> rfl
  · rfl

theorem ComesFrom.known (h : ComesFrom o path w) (ho : o ≠ .unknown) :
    ∀ data, w.files.lookup path = some data → w.origin path ≠ .unknown := by
  intro data hdata
  rcases h with hnone | horigin
  · rw [hnone] at hdata
    cases hdata
  · rw [horigin]
    exact ho

theorem inv_installBinary (h : Inv setup original w)
    (hknown : ∀ data, w.files.lookup w.task.newBinaryPath = some data →
      w.origin w.task.newBinaryPath ≠ .unknown) (r : Replacement) :
    Inv setup original (installBinary setup r w).2 := by
  have hrenamed := inv_rename h r.renameErr hknown
  unfold installBinary
  cases hrename : w.rename r.renameErr w.task.newBinaryPath setup.targetPath with
  | mk result w' =>
      rw [hrename] at hrenamed
      cases result with
      | error err =>
          exact inv_markFailed hrenamed r.now _
      | ok _ =>
          exact inv_withTask hrenamed rfl

theorem inv_replaceBinary (h : Inv setup original w)
    (hpath : backupPath setup w.task ≠ setup.targetPath)
    (hverified : ComesFrom .verified w.task.newBinaryPath w) (r : Replacement) :
    Inv setup original (replaceBinary setup r w).2 := by
  have hreplacing : Inv setup original
      (w.withTask { w.task with status := .replacing }) :=
    inv_withTask h rfl
  obtain ⟨hinv, hknown⟩ := inv_ensureBackup hreplacing hpath r.backup
  have hsame := newBinaryPath_ensureBackup setup r.backup
    (w.withTask { w.task with status := .replacing })
  unfold replaceBinary
  simp only
  cases hbackup : ensureBackup setup r.backup
      (w.withTask { w.task with status := .replacing }) with
  | mk result w' =>
      rw [hbackup] at hinv hknown hsame
      cases result with
      | error err =>
          exact inv_markFailed hinv r.now _
      | ok _ =>
          refine inv_installBinary hinv (fun data hdata => ?_) r
          rcases hknown rfl w'.task.newBinaryPath with hnow | ⟨hfile, horigin⟩
          · exact hnow
          · -- the backup has not touched the download
            rw [hfile, hsame] at hdata
            rw [horigin, hsame]
            exact hverified.known (by simp) data hdata

/-- A rename that succeeds moves a file. -/
theorem lookup_rename_of_ok {err : Option String} {old new : String}
    (hok : (w.rename err old new).1 = .ok ()) :
    ∃ data, w.files.lookup old = some data ∧
      (w.rename err old new).2.files.lookup new = some data := by
  unfold World.rename at hok ⊢
  cases err with
  | some err =>
      cases hok
  | none =>
      cases hold : w.files.lookup old with
      | none =>
          rw [hold] at hok
          cases hok
      | some data =>
          refine ⟨data, rfl, ?_⟩
          simp [World.write]

theorem inv_putBack (h : Inv setup original w)
    (horiginal : ComesFrom .original w.task.backupPath w) (r : RollbackCall) :
    Inv setup original (putBack setup r w).2 ∧
      ((putBack setup r w).1 = .ok () →
        (putBack setup r w).2.files.lookup setup.targetPath = some original) := by
  have hrenamed := inv_rename h r.renameErr (horiginal.known (by simp))
  have hfile := @lookup_rename_of_ok w r.renameErr w.task.backupPath setup.targetPath
  unfold putBack
  cases hrename : w.rename r.renameErr w.task.backupPath setup.targetPath with
  | mk result w' =>
      rw [hrename] at hrenamed hfile
      cases result with
      | error err =>
          exact ⟨hrenamed, fun hok => by cases hok⟩
      | ok _ =>
          refine ⟨inv_withTask hrenamed rfl, fun _ => ?_⟩
          obtain ⟨data, hold, hnew⟩ := hfile rfl
          rcases horiginal with hnone | ho
          · rw [hnone] at hold
            cases hold
          · rw [← h.is_original _ data hold ho]
            exact hnew

theorem inv_rollback (h : Inv setup original w)
    (horiginal : ComesFrom .original w.task.backupPath w) (r : RollbackCall) :
    Inv setup original (rollback setup r w).2 ∧
      ((rollback setup r w).1 = .ok () →
        (rollback setup r w).2.files.lookup setup.targetPath = some original) := by
  unfold rollback
  split
  · exact ⟨h, fun hok => by cases hok⟩
  split
  · exact ⟨h, fun hok => by cases hok⟩
  split
  · exact ⟨h, fun hok => by cases hok⟩
  · exact inv_putBack h horiginal r

theorem inv_step (h : Inv setup original w) {call : Call}
    (hquiet : Undisturbed setup w call) :
    Inv setup original (step setup w call) ∧ Restores setup original w call := by
  cases call with
  | downloadBinary d =>
      exact ⟨inv_downloadBinary h hquiet d, trivial⟩
  | backupCurrentBinary b =>
      exact ⟨(inv_backupCurrentBinary h hquiet b).1, trivial⟩
  | replaceBinary r =>
      exact ⟨inv_replaceBinary h hquiet.1 hquiet.2 r, trivial⟩
  | completeUpgrade now =>
      exact ⟨inv_withTask h rfl, trivial⟩
  | rollback r =>
      exact inv_rollback h hquiet r

theorem inv_start {task : UpgradeTask} {files : HashMap String Bytes}
    (hchecksum : task.checksum ≠ "")
    (hfiles : files.lookup setup.targetPath = some original) :
    Inv setup original (start setup task files) := by
  have horigin : ∀ path, (start setup task files).origin path ≠ .unknown →
      path = setup.targetPath ∧ (start setup task files).origin path = .original := by
    intro path ho
    by_cases hpath : path = setup.targetPath
    · exact ⟨hpath, by simp [start, hpath]⟩
    · exact absurd (by simp [start, hpath]) ho
  refine ⟨hchecksum, fun path data hdata ho => ?_, fun path data hdata ho => ?_, ?_, ?_⟩
  · obtain ⟨rfl, -⟩ := horigin path (by simp [ho])
    exact Option.some.inj (hdata.symm.trans hfiles)
  · have hknown := (horigin path (by simp [ho])).2
    rw [ho] at hknown
    cases hknown
  · exact Option.isSome_iff_exists.mpr ⟨original, hfiles⟩
  · simp [start]

end Invariant

/-- In a run that installs verified downloads only, and puts back full copies of
the original only, the target is sound in every state, and every successful
rollback restores the original. -/
theorem upgrade_sound (setup : Setup) (task : UpgradeTask) (original : Bytes)
    (files : HashMap String Bytes) (calls : List Call) (hchecksum : task.checksum ≠ "")
    (hfiles : files.lookup setup.targetPath = some original)
    (hquiet : Always (step setup) (Undisturbed setup) (start setup task files) calls) :
    (∀ before, before <+: calls →
        Sound setup original (before.foldl (step setup) (start setup task files))) ∧
      Always (step setup) (Restores setup original) (start setup task files) calls := by
  have hstart : Inv setup original (start setup task files) :=
    inv_start hchecksum hfiles
  have hstep : ∀ w call, Inv setup original w → Undisturbed setup w call →
      Inv setup original (step setup w call) :=
    fun w call h hquiet => (inv_step h hquiet).1
  refine ⟨fun before hbefore => ?_, ?_⟩
  · exact (forall_prefix_of_always hstep hstart hquiet before hbefore).sound
  · exact always_of_inv hstep (fun w call h hquiet => (inv_step h hquiet).2) hstart
      hquiet

/-- A manager that works in one directory and upgrades a binary in another. -/
def sampleSetup : Setup where
  workDir := "/work"
  join := fun dir name => dir ++ "/" ++ name
  targetPath := "/opt/agent"

/-- A task whose checksum is that of the byte 7. -/
def sampleTask : UpgradeTask :=
  createUpgradeTask 1 0 2 "1.0" "2.0" "http://server/agent" (computeChecksum [7])

def sampleFiles : HashMap String Bytes :=
  (∅ : HashMap String Bytes).insert "/opt/agent" [1]

def faultless : Backup where
  openErr := none
  createErr := none
  copyErr := none

/-- A download that breaks off, and a replacement after it. -/
def brokenOff : List Call := [
  .downloadBinary {
    now := 0
    response := .answered 200 [7]
    createErr := none
    copyErr := some (0, "unexpected EOF")
    removeFails := false },
  .replaceBinary { now := 1, backup := faultless, renameErr := none }]

/-- The part of the download that was written is installed. -/
theorem upgrade_not_sound :
    ¬ ∀ (setup : Setup) (task : UpgradeTask) (original : Bytes)
      (files : HashMap String Bytes) (calls : List Call), task.checksum ≠ "" →
        files.lookup setup.targetPath = some original →
          (∀ before, before <+: calls → Sound setup original
            (before.foldl (step setup) (start setup task files))) ∧
          Always (step setup) (Restores setup original) (start setup task files)
            calls := by
  intro h
  have hchecksum : sampleTask.checksum ≠ "" := by decide +kernel
  obtain ⟨data, hdata, hsound⟩ := (h sampleSetup sampleTask [1] sampleFiles brokenOff
    hchecksum rfl).1 brokenOff (List.prefix_refl _)
  have htarget : (brokenOff.foldl (step sampleSetup)
      (start sampleSetup sampleTask sampleFiles)).files.lookup "/opt/agent" =
        some [] := by
    decide +kernel
  have hreceived : (brokenOff.foldl (step sampleSetup)
      (start sampleSetup sampleTask sampleFiles)).received = [] := by
    decide +kernel
  obtain rfl := Option.some.inj (hdata.symm.trans htarget)
  rcases hsound with heq | ⟨hmem, -⟩
  · cases heq
  · rw [hreceived] at hmem
    cases hmem

/-- A download in full, its installation, and a rollback. -/
def undone : List Call := [
  .downloadBinary {
    now := 0
    response := .answered 200 [7]
    createErr := none
    copyErr := none
    removeFails := false },
  .replaceBinary { now := 1, backup := faultless, renameErr := none },
  .rollback { now := 2, statErr := none, renameErr := none }]

theorem upgrade_sound_undone :
    (∀ before, before <+: undone → Sound sampleSetup [1]
      (before.foldl (step sampleSetup) (start sampleSetup sampleTask sampleFiles))) ∧
    Always (step sampleSetup) (Restores sampleSetup [1])
      (start sampleSetup sampleTask sampleFiles) undone := by
  refine upgrade_sound sampleSetup sampleTask [1] sampleFiles undone (by decide +kernel)
    rfl ⟨?_, ⟨?_, Or.inr ?_⟩, Or.inr ?_, trivial⟩
  · change binaryPath sampleSetup sampleTask ≠ sampleSetup.targetPath
    decide +kernel
  · decide +kernel
  · decide +kernel
  · decide +kernel

end Upgrade
end Control
end HyperBackup
