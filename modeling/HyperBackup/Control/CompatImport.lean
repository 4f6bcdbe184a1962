import HyperBackup.Domain
import HyperBackup.Lib.HashMap
import HyperBackup.Lib.Runs
import HyperBackup.Lib.Sha256

/-!
# Importing a configuration

The importer keeps the result of every import under the SHA-256 hash of the
configuration.  A call first looks for a stored result under the read lock; if
there is none it parses and maps the configuration, and stores its own result
under the write lock.  The steps of any number of calls with one configuration
interleave.

A call does not look again before it stores, and a call that fails to parse
stores a result without its error.  Calls therefore agree exactly if no second
job is stored and no stored failure is found.
-/

namespace HyperBackup
namespace Control
namespace CompatImport

open Lib Lib.Runs

inductive SourceFormat
  | json
  | sqlite
  | xml
  | other (text : String) (h : text ∉ ["json", "sqlite", "xml"])
deriving DecidableEq

inductive ImportStatus
  | success
  | partial_
  | failed
deriving DecidableEq

inductive UnsupportedPolicy
  | abort
  | skip
  | other (text : String) (h : text ∉ ["abort", "skip"])
deriving DecidableEq

def UnsupportedPolicy.text : UnsupportedPolicy → String
  | .abort => "abort"
  | .skip => "skip"
  | .other text _ => text

/-- A decoded JSON value, of which only strings are looked at. -/
inductive Value (V : Type)
  | string (s : String)
  | other (v : V)

/-- A decoded JSON object, or nil. -/
abbrev Object (V : Type) : Type :=
  Option (HashMap String (Value V))

structure DuplicatiConfig (V : Type) where
  name : String
  sources : List String
  destination : Object V
  encryption : Object V
  compression : String
  schedule : Object V
  retention : Object V
  options : Object V
  filters : List (Object V)

/-- A value of a field mapping. -/
inductive FieldValue (V : Type)
  | string (s : String)
  | strings (l : List String)
  | value (v : Value V)
  | object (o : Object V)
  | objects (l : List (Object V))

structure FieldMapping (V : Type) where
  duplicatiField : String
  hbxField : String
  duplicatiValue : FieldValue V
  hbxValue : FieldValue V
  supported : Bool

structure UnsupportedItem (V : Type) where
  field : String
  value : FieldValue V
  reason : String
  action : String

structure ImportResult (V : Type) where
  importId : Uuid
  sourceHash : String
  status : ImportStatus
  resultingJobId : Option Uuid
  fieldMappings : List (FieldMapping V)
  unsupportedItems : List (UnsupportedItem V)
  importedAt : DateTime
  idempotent : Bool

section Mapping

variable {V : Type}

/-- The entry of an object; nil has none. -/
def Object.get (o : Object V) (key : String) : Option (Value V) :=
  o.bind fun m => m.lookup key

/-- The string under a key, empty if there is none. -/
def Object.getString (o : Object V) (key : String) : String :=
  match o.get key with
  | some (.string s) => s
  | _ => ""

def mapDestType (duplicatiType : String) : String :=
  if duplicatiType = "file" ∨ duplicatiType = "local" then "local"
  else if duplicatiType = "s3" then "s3"
  else if duplicatiType = "ftp" then "ftp"
  else if duplicatiType = "ftps" then "ftps"
  else if duplicatiType = "webdav" then "webdav"
  else if duplicatiType = "smb" then "smb"
  else if duplicatiType = "azure" then "azure_blob"
  else if duplicatiType = "gcs" then "gcs"
  else if duplicatiType = "openstack" then "openstack"
  else duplicatiType

def mapEncryptionType (duplicatiType : String) : String :=
  if duplicatiType = "AES256" ∨ duplicatiType = "AES-256" then "aes-256-gcm"
  else if duplicatiType = "PGP" then "pgp"
  else if duplicatiType = "" ∨ duplicatiType = "none" then "none"
  else duplicatiType

def mapCompression (duplicatiComp : String) : String :=
  if duplicatiComp = "zip" then "zstd"
  else if duplicatiComp = "gzip" then "gzip"
  else if duplicatiComp = "none" then "none"
  else duplicatiComp

def supportedOptions : List String := [
  "blocksize",
  "threshold",
  "dblock-size",
  "disable-filetime-check",
  "skip-files-larger-than",
  "exclude-files-attributes",
  "upload-unchanged-backups",
  "list-verify-uploads",
  "asynchronous-upload-limit",
  "asynchronous-concurrent-upload-limit"]

def isOptionSupported (option : String) : Bool :=
  option ∈ supportedOptions

def supportedFilters : List String :=
  ["include", "exclude", "regex", "wildcard"]

def isFilterSupported (filterType : String) : Bool :=
  filterType ∈ supportedFilters

/-- A mapping of a supported field. -/
def mapping (duplicatiField hbxField : String)
    (duplicatiValue hbxValue : FieldValue V) : FieldMapping V where
  duplicatiField := duplicatiField
  hbxField := hbxField
  duplicatiValue := duplicatiValue
  hbxValue := hbxValue
  supported := true

/-- The entries of the options, in the order of the iteration. -/
def optionList (order : IterOrder (String × Value V)) (cfg : DuplicatiConfig V) :
    List (String × Value V) :=
  match cfg.options with
  | some options => order.arrange (HashMap.toList options)
  | none => []

def mapFields (policy : UnsupportedPolicy) (order : IterOrder (String × Value V))
    (cfg : DuplicatiConfig V) : List (FieldMapping V) × List (UnsupportedItem V) :=
  let destType := cfg.destination.getString "Type"
  let encType := cfg.encryption.getString "Type"
  let mappings :=
    [mapping "Name" "job.name" (.string cfg.name) (.string cfg.name),
      mapping "Sources" "source_config.paths" (.strings cfg.sources)
        (.strings cfg.sources),
      mapping "Destination.Type" "storage_backend" (.string destType)
        (.string (mapDestType destType))] ++
    (match cfg.destination.get "Path" with
      | some destPath => [mapping "Destination.Path" "backend_config.root_path"
          (.value destPath) (.value destPath)]
      | none => []) ++
    [mapping "Encryption.Type" "encryption_config.algorithm" (.string encType)
        (.string (mapEncryptionType encType)),
      mapping "Compression" "compression_config.algorithm"
        (.string cfg.compression) (.string (mapCompression cfg.compression))] ++
    (if cfg.schedule.isSome then
      [mapping "Schedule" "schedule_config" (.object cfg.schedule)
        (.object cfg.schedule)] else []) ++
    (if cfg.retention.isSome then
      [mapping "Retention" "retention_config" (.object cfg.retention)
        (.object cfg.retention)] else []) ++
    ((optionList order cfg).filter fun e => isOptionSupported e.1).map
      (fun e => mapping ("Options." ++ e.1) ("options." ++ e.1) (.value e.2)
        (.value e.2)) ++
    (if cfg.filters ≠ [] then
      [mapping "Filters" "source_config.filters" (.objects cfg.filters)
        (.objects cfg.filters)] else [])
  let unsupported :=
    ((optionList order cfg).filter fun e => !isOptionSupported e.1).map
      (fun e => {
        field := "Options." ++ e.1
        value := .value e.2
        reason := "option '" ++ e.1 ++ "' is not supported by HBX"
        action := policy.text }) ++
    (cfg.filters.filter fun f => !isFilterSupported (f.getString "Type")).map
      (fun f => {
        field := "Filters"
        value := .object f
        reason := "filter type '" ++ f.getString "Type" ++ "' is not supported"
        action := policy.text })
  (mappings, unsupported)

end Mapping

/-- The importer for one configuration, and how JSON is decoded. -/
structure Importer (V : Type) where
  unsupportedPolicy : UnsupportedPolicy
  unmarshal : Bytes → Except String (DuplicatiConfig V)

section Importing

variable {V : Type}

def computeHash (configData : Bytes) : String :=
  Hex.encode (Sha256.hash configData).toList

def parseJSON (imp : Importer V) (data : Bytes) :
    Except String (DuplicatiConfig V) :=
  match imp.unmarshal data with
  | .error err => .error ("failed to parse JSON config: " ++ err)
  | .ok cfg =>
      if cfg.name = "" then .error "config missing required field: Name"
      else if cfg.sources = [] then
        .error "config missing required field: Sources"
      else .ok cfg

def parseConfig (imp : Importer V) (format : SourceFormat) (data : Bytes) :
    Except String (DuplicatiConfig V) :=
  match format with
  | .json => parseJSON imp data
  | .sqlite => .error
      "sqlite format parsing not yet implemented, use JSON export from Duplicati"
  | .xml => .error
      "xml format parsing not yet implemented, use JSON export from Duplicati"
  | .other text _ => .error ("unknown config format: " ++ text)

def importStatus (policy : UnsupportedPolicy)
    (unsupported : List (UnsupportedItem V)) : ImportStatus :=
  if unsupported ≠ [] then
    if policy = .abort then .failed else .partial_
  else .success

/-- What a call draws: the identifiers of the import and of the job, the time,
and the order in which the options are gone through. -/
structure Draws (V : Type) where
  importId : Uuid
  jobId : Uuid
  now : DateTime
  order : IterOrder (String × Value V)

/-- The result of a call that has found none stored, and its error. -/
def parse (imp : Importer V) (format : SourceFormat) (configData : Bytes)
    (d : Draws V) : ImportResult V × Option String :=
  match parseConfig imp format configData with
  | .error err =>
      ({ importId := d.importId
         sourceHash := computeHash configData
         status := .failed
         resultingJobId := none
         fieldMappings := []
         unsupportedItems := []
         importedAt := d.now
         idempotent := false }, some err)
  | .ok cfg =>
      let (mappings, unsupported) := mapFields imp.unsupportedPolicy d.order cfg
      let status := importStatus imp.unsupportedPolicy unsupported
      ({ importId := d.importId
         sourceHash := computeHash configData
         status := status
         resultingJobId := if status ≠ .failed then some d.jobId else none
         fieldMappings := mappings
         unsupportedItems := unsupported
         importedAt := d.now
         idempotent := false }, none)

/-- How far a call of `Import` has come. -/
inductive Call (V : Type)
  | missed
  | parsed (result : ImportResult V) (err : Option String)
  | returned (result : ImportResult V) (err : Option String)

/-- The stored results and the calls. -/
structure World (V : Type) where
  imports : HashMap String (ImportResult V)
  calls : HashMap Nat (Call V)

def new : World V where
  imports := ∅
  calls := ∅

inductive Action (V : Type)
  | check (call : Nat)
  | parse (call : Nat) (d : Draws V)
  | store (call : Nat)

/-- The world after a step of a call. -/
def World.withCall (w : World V) (call : Nat) (c : Call V) : World V where
  imports := w.imports
  calls := w.calls.insert call c

variable (imp : Importer V) (format : SourceFormat) (configData : Bytes)

def check (call : Nat) (w : World V) : World V :=
  match w.calls.lookup call with
  | some _ => w
  | none =>
      match w.imports.lookup (computeHash configData) with
      | some existing =>
          w.withCall call (.returned { existing with idempotent := true } none)
      | none => w.withCall call .missed

def store (call : Nat) (w : World V) : World V :=
  match w.calls.lookup call with
  | some (.parsed result err) =>
      { imports := w.imports.insert (computeHash configData) result
        calls := w.calls.insert call (.returned result err) }
  | _ => w

def step (w : World V) : Action V → World V
  | .check call => check configData call w
  | .parse call d =>
      match w.calls.lookup call with
      | some .missed =>
          let (result, err) := parse imp format configData d
          w.withCall call (.parsed result err)
      | _ => w
  | .store call => store configData call w

/-- All calls that have returned agree on the status, the job and the error. -/
def Agree (w : World V) : Prop :=
  ∀ call call' result result' err err',
    w.calls.lookup call = some (.returned result err) →
      w.calls.lookup call' = some (.returned result' err') →
        result.status = result'.status ∧
          result.resultingJobId = result'.resultingJobId ∧ err = err'

/-- The configuration has unsupported items. -/
def HasUnsupported (cfg : DuplicatiConfig V) : Prop :=
  (∃ options e, cfg.options = some options ∧ e ∈ HashMap.toList options ∧
      isOptionSupported e.1 = false) ∨
    ∃ f ∈ cfg.filters, isFilterSupported (Object.getString f "Type") = false

/-- The configuration can be parsed, and the import is not aborted. -/
def YieldsJob : Prop :=
  ∃ cfg, parseConfig imp format configData = .ok cfg ∧
    (HasUnsupported cfg → imp.unsupportedPolicy ≠ .abort)

/-- No call finds a stored result of a configuration that cannot be parsed, and
no call stores a second result of one that yields a job. -/
def Undisturbed (w : World V) : Action V → Prop
  | .check call =>
      w.calls.lookup call = none →
        w.imports.lookup (computeHash configData) ≠ none →
          ∃ cfg, parseConfig imp format configData = .ok cfg
  | .store call =>
      ∀ result err, w.calls.lookup call = some (.parsed result err) →
        YieldsJob imp format configData →
          w.imports.lookup (computeHash configData) = none
  | .parse _ _ => True

/-- A drawn job is not the job of another call. -/
def DrawsFresh (w : World V) : Action V → Prop
  | .parse _ d =>
      ∀ call result err,
        w.calls.lookup call = some (.parsed result err) ∨
            w.calls.lookup call = some (.returned result err) →
          result.resultingJobId ≠ some d.jobId
  | _ => True

end Importing

section Results

variable {V : Type} {policy : UnsupportedPolicy} {cfg : DuplicatiConfig V}
variable {imp : Importer V} {format : SourceFormat} {configData : Bytes}
variable {d d' : Draws V}

theorem unsupportedItems_ne_nil_iff (order : IterOrder (String × Value V)) :
    (mapFields policy order cfg).2 ≠ [] ↔ HasUnsupported cfg := by
  simp only [mapFields, ne_eq, List.append_eq_nil_iff, List.map_eq_nil_iff,
    List.filter_eq_nil_iff, not_and_or, not_forall, Bool.not_eq_eq_eq_not,
    Bool.not_true, Bool.not_eq_false]
  unfold HasUnsupported optionList
  cases hoptions : cfg.options with
  | none =>
      simp
  | some options =>
      simp

/-- The error of a call that parses. -/
def parseError (imp : Importer V) (format : SourceFormat) (configData : Bytes) :
    Option String :=
  match parseConfig imp format configData with
  | .error err => some err
  | .ok _ => none

theorem parse_err :
    (parse imp format configData d).2 = parseError imp format configData := by
  unfold parse parseError
  cases parseConfig imp format configData <;> rfl

/-- The status does not depend on what a call draws. -/
theorem parse_status :
    (parse imp format configData d).1.status =
      (parse imp format configData d').1.status := by
  unfold parse
  cases parseConfig imp format configData with
  | error err =>
      rfl
  | ok cfg =>
      have heq : (mapFields imp.unsupportedPolicy d.order cfg).2 ≠ [] ↔
          (mapFields imp.unsupportedPolicy d'.order cfg).2 ≠ [] := by
        rw [unsupportedItems_ne_nil_iff, unsupportedItems_ne_nil_iff]
      simp only [importStatus, heq]

theorem importStatus_eq_failed_iff {unsupported : List (UnsupportedItem V)} :
    importStatus policy unsupported = .failed ↔
      unsupported ≠ [] ∧ policy = .abort := by
  unfold importStatus
  by_cases hitems : unsupported = []
  · simp [hitems]
  · by_cases habort : policy = .abort <;> simp [hitems, habort]

theorem yieldsJob_iff_of_ok (h : parseConfig imp format configData = .ok cfg)
    (order : IterOrder (String × Value V)) :
    YieldsJob imp format configData ↔
      importStatus imp.unsupportedPolicy
        (mapFields imp.unsupportedPolicy order cfg).2 ≠ .failed := by
  rw [ne_eq, importStatus_eq_failed_iff, unsupportedItems_ne_nil_iff, not_and]
  constructor
  · rintro ⟨cfg', hcfg', hyields⟩
    rw [h] at hcfg'
    obtain rfl := Except.ok.inj hcfg'
    exact hyields
  · intro hyields
    exact ⟨cfg, h, hyields⟩

theorem parse_job_of_yields (h : YieldsJob imp format configData) :
    (parse imp format configData d).1.resultingJobId = some d.jobId := by
  obtain ⟨cfg, hcfg, -⟩ := id h
  have hstatus := (yieldsJob_iff_of_ok hcfg d.order).mp h
  unfold parse
  simp only [hcfg]
  exact if_pos hstatus

theorem parse_job_of_not_yields (h : ¬ YieldsJob imp format configData) :
    (parse imp format configData d).1.resultingJobId = none := by
  cases hcfg : parseConfig imp format configData with
  | error err =>
      unfold parse
      simp only [hcfg]
  | ok cfg =>
      have hstatus := mt (yieldsJob_iff_of_ok hcfg d.order).mpr h
      unfold parse
      simp only [hcfg]
      exact if_neg hstatus

/-- The result has the status that every call computes, and a job if there is
one to be had. -/
structure Fits (imp : Importer V) (format : SourceFormat) (configData : Bytes)
    (result : ImportResult V) : Prop where
  status : ∀ d, result.status = (parse imp format configData d).1.status
  job : result.resultingJobId ≠ none ↔ YieldsJob imp format configData

theorem fits_parse : Fits imp format configData (parse imp format configData d).1 := by
  refine ⟨fun d' => parse_status, ?_⟩
  by_cases h : YieldsJob imp format configData
  · simp [parse_job_of_yields h, h]
  · simp [parse_job_of_not_yields h, h]

end Results

section Agreement

variable {V : Type} {imp : Importer V} {format : SourceFormat} {configData : Bytes}
variable {w w' : World V} {i : Nat} {c : Call V} {d : Draws V}
variable {result : ImportResult V} {err : Option String}

/-- The call has a result, stored or not. -/
def World.HasResult (w : World V) (i : Nat) (result : ImportResult V)
    (err : Option String) : Prop :=
  w.calls.lookup i = some (.parsed result err) ∨
    w.calls.lookup i = some (.returned result err)

structure Inv (imp : Importer V) (format : SourceFormat) (configData : Bytes)
    (w : World V) : Prop where
  parsed : ∀ i result err, w.calls.lookup i = some (.parsed result err) →
    Fits imp format configData result ∧ err = parseError imp format configData
  returned : ∀ i result err, w.calls.lookup i = some (.returned result err) →
    Fits imp format configData result ∧
      w.imports.lookup (computeHash configData) ≠ none
  stored : ∀ result, w.imports.lookup (computeHash configData) = some result →
    ∃ i, w.calls.lookup i =
      some (.returned result (parseError imp format configData))
  distinct : ∀ i j result result' err err',
    w.calls.lookup i = some (.parsed result err) → w.HasResult j result' err' →
      j ≠ i → result.resultingJobId ≠ none →
        result.resultingJobId ≠ result'.resultingJobId

theorem inv_new : Inv imp format configData new where
  parsed := fun i result err h => by cases h
  returned := fun i result err h => by cases h
  stored := fun result h => by cases h
  distinct := fun i j result result' err err' h => by cases h

/-- A call of which no result is known takes a step that shows none. -/
theorem Inv.withCall_missed (h : Inv imp format configData w)
    (hi : w.calls.lookup i = none) :
    Inv imp format configData (w.withCall i .missed) := by
  have hold : ∀ j x, x ≠ .missed →
      (w.withCall i .missed).calls.lookup j = some x → w.calls.lookup j = some x := by
    intro j x hx hlookup
    rcases HashMap.lookup_insert_eq_some.mp hlookup with ⟨-, rfl⟩ | ⟨-, hold⟩
    · exact absurd rfl hx
    · exact hold
  refine ⟨fun j result err hj => ?_, fun j result err hj => ?_, fun result hresult => ?_,
    fun j k result result' err err' hj hk hne => ?_⟩
  · exact h.parsed j result err (hold j _ (by simp) hj)
  · exact h.returned j result err (hold j _ (by simp) hj)
  · obtain ⟨j, hj⟩ := h.stored result hresult
    refine ⟨j, ?_⟩
    have hne : j ≠ i := by
      rintro rfl
      rw [hi] at hj
      cases hj
    rw [World.withCall, HashMap.lookup_insert_of, if_neg hne]
    exact hj
  · refine h.distinct j k result result' err err' (hold j _ (by simp) hj) ?_ hne
    exact hk.imp (hold k _ (by simp)) (hold k _ (by simp))

/-- A call that finds a stored result returns it. -/
theorem Inv.withCall_returned (h : Inv imp format configData w)
    (hi : w.calls.lookup i = none)
    (hresult : w.imports.lookup (computeHash configData) = some result) :
    Inv imp format configData
      (w.withCall i (.returned { result with idempotent := true } none)) := by
  obtain ⟨k, hk⟩ := h.stored result hresult
  have hki : k ≠ i := by
    rintro rfl
    rw [hi] at hk
    cases hk
  have hfits := (h.returned k _ _ hk).1
  refine ⟨fun j r e hj => ?_, fun j r e hj => ?_, fun r hr => ?_,
    fun j j' r r' e e' hj hj' hne hjob => ?_⟩
  · rcases HashMap.lookup_insert_eq_some.mp hj with ⟨-, heq⟩ | ⟨-, hold⟩
    · cases heq
    · exact h.parsed j r e hold
  · rcases HashMap.lookup_insert_eq_some.mp hj with ⟨-, heq⟩ | ⟨-, hold⟩
    · obtain ⟨rfl, -⟩ := Call.returned.inj heq
      exact ⟨⟨hfits.status, hfits.job⟩, by simp [World.withCall, hresult]⟩
    · exact h.returned j r e hold
  · obtain ⟨j, hj⟩ := h.stored r hr
    refine ⟨j, ?_⟩
    have hne : j ≠ i := by
      rintro rfl
      rw [hi] at hj
      cases hj
    rw [World.withCall, HashMap.lookup_insert_of, if_neg hne]
    exact hj
  · rcases HashMap.lookup_insert_eq_some.mp hj with ⟨-, heq⟩ | ⟨-, hold⟩
    · cases heq
    · rcases hj' with hparsed | hreturned
      · rcases HashMap.lookup_insert_eq_some.mp hparsed with ⟨-, heq⟩ | ⟨-, hold'⟩
        · cases heq
        · exact h.distinct j j' r r' e e' hold (Or.inl hold') hne hjob
      · rcases HashMap.lookup_insert_eq_some.mp hreturned with ⟨-, heq⟩ | ⟨-, hold'⟩
        · -- the result found is that of the call that stored it
          obtain ⟨rfl, -⟩ := Call.returned.inj heq
          have hkj : k ≠ j := by
            rintro rfl
            rw [hold] at hk
            cases hk
          exact h.distinct j k r result e _ hold (Or.inr hk) hkj hjob
        · exact h.distinct j j' r r' e e' hold (Or.inr hold') hne hjob

theorem inv_check (h : Inv imp format configData w) :
    Inv imp format configData (check configData i w) := by
  unfold check
  cases hi : w.calls.lookup i with
  | some c =>
      exact h
  | none =>
      cases hresult : w.imports.lookup (computeHash configData) with
      | none =>
          exact h.withCall_missed hi
      | some result =>
          exact h.withCall_returned hi hresult

/-- A call that has found nothing parses. -/
theorem Inv.withCall_parsed (h : Inv imp format configData w)
    (hi : w.calls.lookup i = some .missed) (hfresh : DrawsFresh w (.parse i d)) :
    Inv imp format configData (w.withCall i (.parsed
      (parse imp format configData d).1 (parse imp format configData d).2)) := by
  have hfits : Fits imp format configData (parse imp format configData d).1 := fits_parse
  have hjob : ∀ id, (parse imp format configData d).1.resultingJobId = some id →
      id = d.jobId := by
    intro id hid
    have hyields := hfits.job.mp (by simp [hid])
    rw [parse_job_of_yields hyields] at hid
    exact (Option.some.inj hid).symm
  have hothers : ∀ j r e, w.HasResult j r e → r.resultingJobId ≠ none →
      r.resultingJobId ≠ (parse imp format configData d).1.resultingJobId := by
    intro j r e hj hne heq
    obtain ⟨id, hid⟩ := Option.ne_none_iff_exists'.mp hne
    rw [hid] at heq
    exact hfresh j r e hj (by rw [hid, hjob id heq.symm])
  refine ⟨fun j r e hj => ?_, fun j r e hj => ?_, fun r hr => ?_,
    fun j j' r r' e e' hj hj' hne hsome => ?_⟩
  · rcases HashMap.lookup_insert_eq_some.mp hj with ⟨-, heq⟩ | ⟨-, hold⟩
    · obtain ⟨rfl, rfl⟩ := Call.parsed.inj heq
      exact ⟨hfits, parse_err⟩
    · exact h.parsed j r e hold
  · rcases HashMap.lookup_insert_eq_some.mp hj with ⟨-, heq⟩ | ⟨-, hold⟩
    · cases heq
    · exact h.returned j r e hold
  · obtain ⟨j, hj⟩ := h.stored r hr
    refine ⟨j, ?_⟩
    have hne : j ≠ i := by
      rintro rfl
      rw [hi] at hj
      cases hj
    rw [World.withCall, HashMap.lookup_insert_of, if_neg hne]
    exact hj
  · rcases HashMap.lookup_insert_eq_some.mp hj with ⟨rfl, heq⟩ | ⟨hji, hold⟩
    · obtain ⟨rfl, rfl⟩ := Call.parsed.inj heq
      have hold' : w.HasResult j' r' e' := by
        refine hj'.imp (fun hparsed => ?_) (fun hreturned => ?_)
        · exact (HashMap.lookup_insert_eq_some.mp hparsed).elim
            (fun heq => absurd heq.1 hne) And.right
        · exact (HashMap.lookup_insert_eq_some.mp hreturned).elim
            (fun heq => absurd heq.1 hne) And.right
      intro heq'
      exact hothers j' r' e' hold' (heq' ▸ hsome) heq'.symm
    · rcases hj' with hparsed | hreturned
      · rcases HashMap.lookup_insert_eq_some.mp hparsed with ⟨-, heq⟩ | ⟨-, hold'⟩
        · obtain ⟨rfl, rfl⟩ := Call.parsed.inj heq
          exact hothers j r e (Or.inl hold) hsome
        · exact h.distinct j j' r r' e e' hold (Or.inl hold') hne hsome
      · rcases HashMap.lookup_insert_eq_some.mp hreturned with ⟨-, heq⟩ | ⟨-, hold'⟩
        · cases heq
        · exact h.distinct j j' r r' e e' hold (Or.inr hold') hne hsome

/-- A call that has parsed stores its result and returns. -/
theorem inv_store (h : Inv imp format configData w) :
    Inv imp format configData (store configData i w) := by
  unfold store
  split
  next result err hi =>
    obtain ⟨hfits, herr⟩ := h.parsed i result err hi
    have hsome : (w.imports.insert (computeHash configData) result).lookup
        (computeHash configData) = some result := by
      rw [HashMap.lookup_insert_of, if_pos rfl]
    refine ⟨fun j r e hj => ?_, fun j r e hj => ?_, fun r hr => ?_,
      fun j j' r r' e e' hj hj' hne hjob => ?_⟩
    · rcases HashMap.lookup_insert_eq_some.mp hj with ⟨-, heq⟩ | ⟨-, hold⟩
      · cases heq
      · exact h.parsed j r e hold
    · refine ⟨?_, by simp [hsome]⟩
      rcases HashMap.lookup_insert_eq_some.mp hj with ⟨-, heq⟩ | ⟨-, hold⟩
      · obtain ⟨rfl, -⟩ := Call.returned.inj heq
        exact hfits
      · exact (h.returned j r e hold).1
    · obtain rfl := Option.some.inj (hsome.symm.trans hr)
      refine ⟨i, ?_⟩
      rw [HashMap.lookup_insert_of, if_pos rfl, herr]
    · rcases HashMap.lookup_insert_eq_some.mp hj with ⟨-, heq⟩ | ⟨hji, hold⟩
      · cases heq
      · rcases hj' with hparsed | hreturned
        · rcases HashMap.lookup_insert_eq_some.mp hparsed with ⟨-, heq⟩ | ⟨-, hold'⟩
          · cases heq
          · exact h.distinct j j' r r' e e' hold (Or.inl hold') hne hjob
        · rcases HashMap.lookup_insert_eq_some.mp hreturned with ⟨rfl, heq⟩ | ⟨-, hold'⟩
          · obtain ⟨rfl, rfl⟩ := Call.returned.inj heq
            exact h.distinct j j' r r' e e' hold (Or.inl hi) hne hjob
          · exact h.distinct j j' r r' e e' hold (Or.inr hold') hne hjob
  next =>
    exact h

theorem inv_step {a : Action V} (h : Inv imp format configData w)
    (hfresh : DrawsFresh w a) :
    Inv imp format configData (step imp format configData w a) := by
  cases a with
  | check i =>
      exact inv_check h
  | parse i d =>
      simp only [step]
      split
      next hi =>
        exact h.withCall_parsed hi hfresh
      next =>
        exact h
  | store i =>
      exact inv_store h

/-- Whether calls agree is unchanged by a step after which the call has not
returned either. -/
theorem agree_of_not_returned (hcalls : w'.calls = w.calls.insert i c)
    (hc : ∀ r e, c ≠ .returned r e) (hi : ∀ r e, w.calls.lookup i ≠ some (.returned r e)) :
    Agree w' ↔ Agree w := by
  have hsame : ∀ j r e, w'.calls.lookup j = some (.returned r e) ↔
      w.calls.lookup j = some (.returned r e) := by
    intro j r e
    rw [hcalls, HashMap.lookup_insert_of]
    by_cases hj : j = i
    · subst hj
      rw [if_pos rfl]
      exact iff_of_false (fun heq => hc r e (Option.some.inj heq)) (hi r e)
    · rw [if_neg hj]
  unfold Agree
  simp only [hsame]

/-- When a call returns, it has to agree with those that returned before. -/
theorem agree_of_returned (hcalls : w'.calls = w.calls.insert i (.returned result err))
    (hi : ∀ r e, w.calls.lookup i ≠ some (.returned r e)) :
    Agree w' ↔ Agree w ∧ ∀ j r e, w.calls.lookup j = some (.returned r e) →
      result.status = r.status ∧ result.resultingJobId = r.resultingJobId ∧ err = e := by
  have hnew : w'.calls.lookup i = some (.returned result err) := by
    rw [hcalls, HashMap.lookup_insert_of, if_pos rfl]
  have hkept : ∀ j r e, w.calls.lookup j = some (.returned r e) →
      w'.calls.lookup j = some (.returned r e) := by
    intro j r e hj
    have hne : j ≠ i := by
      rintro rfl
      exact hi r e hj
    rw [hcalls, HashMap.lookup_insert_of, if_neg hne, hj]
  constructor
  · intro h
    exact ⟨fun j j' r r' e e' hj hj' =>
        h j j' r r' e e' (hkept j r e hj) (hkept j' r' e' hj'),
      fun j r e hj => h i j result r err e hnew (hkept j r e hj)⟩
  · rintro ⟨hold, hwith⟩ j j' r r' e e' hj hj'
    rw [hcalls] at hj hj'
    rcases HashMap.lookup_insert_eq_some.mp hj with ⟨-, heq⟩ | ⟨-, hjold⟩
    · obtain ⟨rfl, rfl⟩ := Call.returned.inj heq
      rcases HashMap.lookup_insert_eq_some.mp hj' with ⟨-, heq'⟩ | ⟨-, hjold'⟩
      · obtain ⟨rfl, rfl⟩ := Call.returned.inj heq'
        exact ⟨rfl, rfl, rfl⟩
      · exact hwith j' r' e' hjold'
    · rcases HashMap.lookup_insert_eq_some.mp hj' with ⟨-, heq'⟩ | ⟨-, hjold'⟩
      · obtain ⟨rfl, rfl⟩ := Call.returned.inj heq'
        obtain ⟨hstatus, hjob, herr⟩ := hwith j r e hjold
        exact ⟨hstatus.symm, hjob.symm, herr.symm⟩
      · exact hold j j' r r' e e' hjold hjold'

theorem parseError_eq_none_iff :
    parseError imp format configData = none ↔
      ∃ cfg, parseConfig imp format configData = .ok cfg := by
  unfold parseError
  cases parseConfig imp format configData with
  | error err =>
      simp
  | ok cfg =>
      simp

theorem agree_check (h : Inv imp format configData w) :
    Agree (check configData i w) ↔
      Agree w ∧ Undisturbed imp format configData w (.check i) := by
  simp only [check, Undisturbed]
  cases hi : w.calls.lookup i with
  | some c =>
      simp
  | none =>
      have hnot : ∀ r e, w.calls.lookup i ≠ some (.returned r e) := by
        simp [hi]
      cases hresult : w.imports.lookup (computeHash configData) with
      | none =>
          simp only [ne_eq, not_true_eq_false, false_implies, implies_true, and_true]
          exact agree_of_not_returned rfl (by simp) hnot
      | some result =>
          obtain ⟨k, hk⟩ := h.stored result hresult
          simp only [ne_eq, reduceCtorEq, not_false_eq_true, forall_const,
            ← parseError_eq_none_iff]
          refine (agree_of_returned rfl hnot).trans (and_congr_right fun hagree => ?_)
          constructor
          · intro hwith
            exact (hwith k result _ hk).2.2.symm
          · intro hnone j r e hj
            obtain ⟨hstatus, hjob, herr⟩ := hagree k j result r _ e hk hj
            exact ⟨hstatus, hjob, by rw [← herr, hnone]⟩

theorem agree_store (h : Inv imp format configData w) :
    Agree (store configData i w) ↔
      Agree w ∧ Undisturbed imp format configData w (.store i) := by
  unfold store
  split
  next result err hi =>
    have hnot : ∀ r e, w.calls.lookup i ≠ some (.returned r e) := by
      simp [hi]
    obtain ⟨hfits, herr⟩ := h.parsed i result err hi
    refine (agree_of_returned rfl hnot).trans (and_congr_right fun hagree => ?_)
    constructor
    · intro hwith r e hr hyields
      obtain ⟨rfl, rfl⟩ := Call.parsed.inj (Option.some.inj (hi.symm.trans hr))
      cases hstored : w.imports.lookup (computeHash configData) with
      | none =>
          rfl
      | some other =>
          -- the call that stored the other result has another job
          obtain ⟨k, hk⟩ := h.stored other hstored
          have hne : k ≠ i := by
            rintro rfl
            exact hnot _ _ hk
          exact absurd (hwith k other _ hk).2.1
            (h.distinct i k result other err _ hi (Or.inr hk) hne (hfits.job.mpr hyields))
    · intro hquiet j r e hj
      obtain ⟨hfits', hstored⟩ := h.returned j r e hj
      have hno : ¬ YieldsJob imp format configData :=
        fun hyields => hstored (hquiet result err hi hyields)
      have hnojob := not_ne_iff.mp (mt hfits.job.mp hno)
      have hnojob' := not_ne_iff.mp (mt hfits'.job.mp hno)
      obtain ⟨other, hother⟩ := Option.ne_none_iff_exists'.mp hstored
      obtain ⟨k, hk⟩ := h.stored other hother
      have d : Draws V := ⟨0, 0, 0, IterOrder.asStored⟩
      exact ⟨by rw [hfits.status d, hfits'.status d], by rw [hnojob, hnojob'],
        by rw [herr, (hagree k j other r _ e hk hj).2.2]⟩
  next hnot =>
    refine ⟨fun hagree => ⟨hagree, fun r e hr => absurd hr (hnot r e)⟩, And.left⟩

theorem agree_step {a : Action V} (h : Inv imp format configData w) :
    Agree (step imp format configData w a) ↔
      Agree w ∧ Undisturbed imp format configData w a := by
  cases a with
  | check i =>
      exact agree_check h
  | parse i d =>
      simp only [Undisturbed, and_true, step]
      split
      next hi =>
        exact agree_of_not_returned rfl (by simp) (by simp [hi])
      next =>
        rfl
  | store i =>
      exact agree_store h

end Agreement

section Interleavings

variable {V : Type}

/-- The calls of a run agree, if and only if no call finds a stored failure to
parse, and no call stores a second job. -/
theorem imports_agree_iff (imp : Importer V) (format : SourceFormat)
    (configData : Bytes) (actions : List (Action V))
    (hfresh : Always (step imp format configData) DrawsFresh new actions) :
    Agree (actions.foldl (step imp format configData) new) ↔
      Always (step imp format configData) (Undisturbed imp format configData) new
        actions := by
  have hnew : Agree (new : World V) := by
    intro i j r r' e e' h
    cases h
  have hiff := good_foldl_iff (I := Inv imp format configData)
    (fun w a h hfresh => inv_step h hfresh) (fun w a h _ => agree_step h) inv_new hfresh
  rw [hiff, and_iff_right hnew]

/-- An importer that decodes a configuration with a name and a source. -/
def sampleImporter : Importer Unit where
  unsupportedPolicy := .skip
  unmarshal := fun _ => .ok {
    name := "documents"
    sources := ["/home"]
    destination := none
    encryption := none
    compression := ""
    schedule := none
    retention := none
    options := none
    filters := [] }

/-- What the calls draw that draw a given job. -/
def sampleDraws (jobId : Uuid) : Draws Unit where
  importId := jobId + 100
  jobId := jobId
  now := 0
  order := IterOrder.asStored

/-- Two calls that both find no result. -/
def concurrent : List (Action Unit) := [
  .check 0, .check 1,
  .parse 0 (sampleDraws 1), .parse 1 (sampleDraws 2),
  .store 0, .store 1]

/-- The two calls report different jobs. -/
theorem imports_not_agree :
    ¬ ∀ (imp : Importer Unit) (format : SourceFormat) (configData : Bytes)
      (actions : List (Action Unit)),
      Always (step imp format configData) DrawsFresh new actions →
        Agree (actions.foldl (step imp format configData) new) := by
  intro h
  have hfresh : Always (step sampleImporter .json []) DrawsFresh new concurrent := by
    have hmissed : ∀ i x, ((∅ : HashMap Nat (Call Unit)).insert 0 .missed |>.insert 1
        .missed).lookup i = some x → x = .missed := by
      intro i x hx
      rcases HashMap.lookup_insert_eq_some.mp hx with ⟨-, rfl⟩ | ⟨-, hx⟩
      · rfl
      · rcases HashMap.lookup_insert_eq_some.mp hx with ⟨-, rfl⟩ | ⟨-, hx⟩
        · rfl
        · cases hx
    refine ⟨trivial, trivial, fun i r e hr => ?_, fun i r e hr => ?_, trivial, trivial,
      trivial⟩
    · rcases hr with hr | hr
      · cases hmissed i _ hr
      · cases hmissed i _ hr
    · rcases hr with hr | hr
      · rcases HashMap.lookup_insert_eq_some.mp hr with ⟨-, heq⟩ | ⟨-, hr⟩
        · obtain ⟨rfl, -⟩ := Call.parsed.inj heq
          decide
        · cases hmissed i _ hr
      · rcases HashMap.lookup_insert_eq_some.mp hr with ⟨-, heq⟩ | ⟨-, hr⟩
        · cases heq
        · cases hmissed i _ hr
  have hagree := h sampleImporter .json [] concurrent hfresh
  have hjobs := (hagree 0 1 _ _ _ _ rfl rfl).2.1
  exact absurd hjobs (by decide)

/-- A call that finds the result of an earlier one. -/
def repeated : List (Action Unit) := [
  .check 0, .parse 0 (sampleDraws 1), .store 0, .check 1]

theorem imports_agree_iff_repeated :
    Agree (repeated.foldl (step sampleImporter .json []) new) := by
  refine (imports_agree_iff sampleImporter .json [] repeated ?_).mpr ?_
  · refine ⟨trivial, fun i r e hr => ?_, trivial, trivial, trivial⟩
    rcases hr with hr | hr
    · rcases HashMap.lookup_insert_eq_some.mp hr with ⟨-, heq⟩ | ⟨-, hr⟩
      · cases heq
      · cases hr
    · rcases HashMap.lookup_insert_eq_some.mp hr with ⟨-, heq⟩ | ⟨-, hr⟩
      · cases heq
      · cases hr
  · exact ⟨fun _ _ => ⟨_, rfl⟩, trivial, fun r e _ _ => rfl, fun _ _ => ⟨_, rfl⟩, trivial⟩

end Interleavings

end CompatImport
end Control
end HyperBackup
