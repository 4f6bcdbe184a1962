import HyperBackup.Badou.RepositoryRpc
import HyperBackup.Lib.Purge
import HyperBackup.Provider.ChunkAddressing
import HyperBackup.Provider.Auth

/-!
# Who changes the server

A request reaches the server with its metadata.  Of the twenty requests that the
server knows, eleven are in the runs here: those for chunks, snapshots and recovery,
and the one that creates a repository.  Each of their handlers first checks the
credentials in the metadata: any that are accepted are enough to read, a change needs the
role of an operator or an administrator, and a new repository that of an
administrator.  A request that is refused, and one that only reads, leaves the
server as it is, so it can be taken out of a run without any effect on the others.

A request to delete a snapshot needs the role for a change, but never changes
anything.
-/

namespace HyperBackup
namespace Provider
namespace Permissions

open Lib Lib.Program Badou Auth

/-- A request without its metadata, with what its handler draws.  The requests to
open, close, list, delete, configure and measure repositories are left out, and so
are those that verify: to close a repository drops its handle, for which no role is
needed. -/
inductive Rpc
  | repositoryCreate (draws : CreateDraws) (inner : RepositoryCreateRequest)
  | chunkPut (inner : ChunkPutRequest)
  | chunkGet (inner : ChunkGetRequest)
  | chunkExists (inner : ChunkExistsRequest)
  | chunkDelete (inner : ChunkDeleteRequest)
  | chunkBatchPut (inner : List (Except Status ChunkPutRequest))
  | snapshotCommit (draws : RequestDraws) (inner : SnapshotCommitRequest)
  | snapshotGet (draws : Badou.ManifestDraws) (inner : SnapshotGetRequest)
  | snapshotList (inner : SnapshotListRequest)
  | snapshotDelete (inner : SnapshotDeleteRequest)
  | recoveryOpen (inner : RecoveryOpenRequest)

/-- A request as it arrives. -/
structure Arrival where
  now : UInt64
  metadata : Metadata
  rpc : Rpc

inductive Answer
  | repository (info : RepositoryInfo)
  | chunkInfo (info : ChunkInfo)
  | chunk (data : ChunkData)
  | existence (response : ChunkExistsResponse)
  | deleted (deleted : Bool)
  | batch (response : ChunkBatchPutResponse)
  | committed (response : SnapshotCommitResponse)
  | snapshot (response : SnapshotGetResponse)
  | snapshots (response : SnapshotListResponse)
  | recovered (chunks : List RecoveryChunk)

section Handlers

variable (ext : Externals) (layout : BadouDataLayout) (crypto : Crypto)
variable (config : AuthConfig)

/-- A request with the outcome of a check of its credentials. -/
def checked {α : Type} (check : Except Status (JwtClaims × Nat)) (inner : α) :
    Badou.Request α where
  auth := check.map fun _ => ()
  inner := inner

/-- The handler of a request, and the credentials that it checks. -/
def serve (a : Arrival) : Server.ServerM Answer :=
  let auth := requireAuth crypto a.now config a.metadata
  let write := requireWrite crypto a.now config a.metadata
  let admin := requireAdmin crypto a.now config a.metadata
  match a.rpc with
  | .repositoryCreate draws inner =>
      return .repository (← Server.repositoryCreate draws (checked admin inner))
  | .chunkPut inner =>
      return .chunkInfo (← Server.chunkPut ext layout (checked write inner))
  | .chunkGet inner =>
      return .chunk (← Server.chunkGet ext (checked auth inner))
  | .chunkExists inner =>
      return .existence (← Server.chunkExists ext (checked auth inner))
  | .chunkDelete inner =>
      return .deleted (← Server.chunkDelete ext (checked write inner))
  | .chunkBatchPut inner =>
      return .batch (← Server.chunkBatchPut ext layout (checked write inner))
  | .snapshotCommit draws inner =>
      return .committed (← Server.snapshotCommit ext layout draws (checked write inner))
  | .snapshotGet draws inner =>
      return .snapshot (← Server.snapshotGet ext draws (checked auth inner))
  | .snapshotList inner =>
      return .snapshots (← Server.snapshotList ext (checked auth inner))
  | .snapshotDelete inner =>
      return .deleted (← Server.snapshotDelete ext (checked write inner))
  | .recoveryOpen inner =>
      return .recovered (← Server.recoveryOpen ext (checked auth inner))

def step (s : ServerState) (a : Arrival) : ServerState :=
  stateAfter (serve ext layout crypto config a) s

def answer (s : ServerState) (a : Arrival) : Except Status Answer :=
  outcome (serve ext layout crypto config a) s

def run (s : ServerState) (arrivals : List Arrival) : ServerState :=
  arrivals.foldl (step ext layout crypto config) s

/-- The check that a request has to pass before it can change anything. -/
def changeCheck (a : Arrival) : Option (Except Status (JwtClaims × Nat)) :=
  match a.rpc with
  | .repositoryCreate _ _ => some (requireAdmin crypto a.now config a.metadata)
  | .chunkPut _ | .chunkDelete _ | .chunkBatchPut _ | .snapshotCommit _ _ =>
      some (requireWrite crypto a.now config a.metadata)
  | .chunkGet _ | .chunkExists _ | .snapshotGet _ _ | .snapshotList _
  | .snapshotDelete _ | .recoveryOpen _ => none

/-- A request that may change the server. -/
def mayChange (a : Arrival) : Bool :=
  match changeCheck crypto config a with
  | some (.ok _) => true
  | _ => false

end Handlers

section Silence

variable {ext : Externals} {layout : BadouDataLayout} {crypto : Crypto}
variable {config : AuthConfig} {s : ServerState} {a : Arrival}

/-- To wrap up what a handler answers changes no state. -/
theorem stateAfter_answered {α : Type} (x : Server.ServerM α) (f : α → Answer) :
    stateAfter (do return f (← x)) s = stateAfter x s := by
  rw [stateAfter_bind]
  cases outcome x s with
  | ok b => rfl
  | error e => rfl

theorem preserves_chunkExists (request : Badou.Request ChunkExistsRequest)
    (I : ServerState → Prop) : Preserves (Server.chunkExists ext request) I := by
  refine preserves_bind (preserves_ofResult _ _ _) fun _ => ?_
  refine preserves_bind (preserves_ofResult _ _ _) fun _ => ?_
  refine preserves_bind (preserves_ofResult _ _ _) fun _ => ?_
  exact preserves_bind (BaDouProvider.preserves_openRepo _ _) fun _ => preserves_pure _ _

theorem preserves_snapshotGet (draws : Badou.ManifestDraws)
    (request : Badou.Request SnapshotGetRequest) (I : ServerState → Prop) :
    Preserves (Server.snapshotGet ext draws request) I := by
  refine preserves_bind (preserves_ofResult _ _ _) fun _ => ?_
  refine preserves_bind (preserves_ofResult _ _ _) fun _ => ?_
  refine preserves_bind (preserves_ofResult _ _ _) fun _ => ?_
  refine preserves_bind (BaDouProvider.preserves_openRepo _ _) fun _ => ?_
  exact preserves_bind (preserves_ofResult _ _ _) fun _ => preserves_pure _ _

theorem preserves_snapshotList (request : Badou.Request SnapshotListRequest)
    (I : ServerState → Prop) : Preserves (Server.snapshotList ext request) I := by
  refine preserves_bind (preserves_ofResult _ _ _) fun _ => ?_
  refine preserves_bind (preserves_ofResult _ _ _) fun _ => ?_
  refine preserves_bind (fun s h => h) fun _ => ?_
  exact preserves_bind (BaDouProvider.preserves_openRepo _ _) fun _ => preserves_pure _ _

theorem preserves_snapshotDelete (request : Badou.Request SnapshotDeleteRequest)
    (I : ServerState → Prop) : Preserves (Server.snapshotDelete ext request) I := by
  refine preserves_bind (preserves_ofResult _ _ _) fun _ => ?_
  refine preserves_bind (preserves_ofResult _ _ _) fun _ => ?_
  refine preserves_bind (preserves_ofResult _ _ _) fun _ => ?_
  refine preserves_bind (BaDouProvider.preserves_openRepo _ _) fun _ => ?_
  refine preserves_bind (preserves_ofResult _ _ _) fun snapshot => ?_
  split
  · exact fun s h => h
  · exact preserves_pure _ _

theorem preserves_recoveryOpen (request : Badou.Request RecoveryOpenRequest)
    (I : ServerState → Prop) : Preserves (Server.recoveryOpen ext request) I := by
  refine preserves_bind ?_ fun _ => preserves_pure _ _
  refine preserves_bind (preserves_ofResult _ _ _) fun _ => ?_
  refine preserves_bind (preserves_ofResult _ _ _) fun _ => ?_
  refine preserves_bind (preserves_ofResult _ _ _) fun _ => ?_
  refine preserves_bind (fun s h => h) fun _ => ?_
  refine preserves_bind (preserves_ofResult _ _ _) fun _ => ?_
  exact preserves_bind (BaDouProvider.preserves_openRepo _ _) fun _ => preserves_ofResult _ _ _

/-- A handler that starts with a check that fails does nothing. -/
theorem stateAfter_refused {α : Type} {check : Except Status (JwtClaims × Nat)}
    (f : Unit → Server.ServerM α) (h : ∀ result, check ≠ .ok result) :
    stateAfter ((ofResult id (check.map fun _ => ()) : Server.ServerM Unit) >>= f) s = s := by
  cases check with
  | error e => rfl
  | ok result => exact absurd rfl (h result)

/-- A request that may not change the server does not change it. -/
theorem step_of_not_mayChange (h : mayChange crypto config a = false) :
    step ext layout crypto config s a = s := by
  have hrefused : ∀ {check}, changeCheck crypto config a = some check →
      ∀ result, check ≠ .ok result := by
    rintro check hcheck result rfl
    rw [mayChange, hcheck] at h
    cases h
  obtain ⟨now, metadata, rpc⟩ := a
  cases rpc with
  | repositoryCreate draws inner =>
      exact (stateAfter_answered _ _).trans (stateAfter_refused _ (hrefused rfl))
  | chunkPut inner =>
      exact (stateAfter_answered _ _).trans (stateAfter_refused _ (hrefused rfl))
  | chunkDelete inner =>
      exact (stateAfter_answered _ _).trans (stateAfter_refused _ (hrefused rfl))
  | chunkBatchPut inner =>
      exact (stateAfter_answered _ _).trans (stateAfter_refused _ (hrefused rfl))
  | snapshotCommit draws inner =>
      exact (stateAfter_answered _ _).trans (stateAfter_refused _ (hrefused rfl))
  | chunkGet inner =>
      exact (stateAfter_answered _ _).trans (BaDouProvider.preserves_chunkGet _ (· = s) s rfl)
  | chunkExists inner =>
      exact (stateAfter_answered _ _).trans (preserves_chunkExists _ (· = s) s rfl)
  | snapshotGet draws inner =>
      exact (stateAfter_answered _ _).trans (preserves_snapshotGet _ _ (· = s) s rfl)
  | snapshotList inner =>
      exact (stateAfter_answered _ _).trans (preserves_snapshotList _ (· = s) s rfl)
  | snapshotDelete inner =>
      exact (stateAfter_answered _ _).trans (preserves_snapshotDelete _ (· = s) s rfl)
  | recoveryOpen inner =>
      exact (stateAfter_answered _ _).trans (preserves_recoveryOpen _ (· = s) s rfl)

end Silence

section Runs

variable {ext : Externals} {layout : BadouDataLayout} {crypto : Crypto}
variable {config : AuthConfig} {s : ServerState} {a : Arrival}

/-- The metadata hold a token that is signed with the secret of the server, whose
claims have not expired and have one of the roles. -/
def SignedFor (crypto : Crypto) (config : AuthConfig) (a : Arrival) (roles : List String) :
    Prop :=
  ∃ value header payload claims, a.metadata.get metadataAuth = some value ∧
    toStr value = some ("Bearer " ++
      String.ofList (tokenOf crypto config.jwtSecret header payload)) ∧
    crypto.claimsFromSlice payload = .ok claims ∧ a.now ≤ claims.exp ∧ claims.role ∈ roles

theorem eq_append_of_stripPrefix {start text rest : String}
    (h : stripPrefix start text = some rest) : text = start ++ rest := by
  unfold stripPrefix at h
  split at h
  · next hprefix =>
      obtain ⟨tail, htail⟩ := hprefix
      rw [← htail, List.drop_left] at h
      rw [← Option.some.inj h, ← String.ofList_toList (s := text), ← htail,
        String.ofList_append, String.ofList_toList]
  · cases h

theorem signedFor_of_requireRole {allowed : Role → Bool} {message : String}
    {result : JwtClaims × Nat} {roles : List String}
    (hroles : ∀ text role, Role.fromRoleStr text = some role → allowed role = true →
      text ∈ roles)
    (h : requireRole crypto a.now config a.metadata allowed message = .ok result) :
    SignedFor crypto config a roles := by
  unfold requireRole at h
  split at h
  · cases h
  · next claims hclaims =>
      split at h
      · cases h
      · split at h
        · cases h
        · next role hrole =>
            split at h
            · next hallowed =>
                unfold extractAuth at hclaims
                split at hclaims
                · cases hclaims
                · next value hvalue =>
                    split at hclaims
                    · cases hclaims
                    · next authHeader htext =>
                        split at hclaims
                        · cases hclaims
                        · next token htoken =>
                            obtain ⟨header, payload, -, hsigned, hpayload, hexp⟩ :=
                              exists_of_validateJwt hclaims
                            refine ⟨value, header, payload, claims, hvalue, ?_, hpayload,
                              hexp, hroles _ _ hrole hallowed⟩
                            rw [htext, eq_append_of_stripPrefix htoken, ← hsigned,
                              String.ofList_toList]
            · cases h

/-- Whoever may change the server has the role of an operator or an administrator. -/
theorem signedFor_of_mayChange (h : mayChange crypto config a = true) :
    SignedFor crypto config a ["admin", "operator"] := by
  have hadmin : ∀ result, requireAdmin crypto a.now config a.metadata = .ok result →
      SignedFor crypto config a ["admin", "operator"] := by
    intro result hresult
    refine signedFor_of_requireRole (fun text role hrole hallowed => ?_) hresult
    have htext := canAdmin_fromRoleStr_iff.mp ⟨role, hrole, hallowed⟩
    simp [htext]
  have hwrite : ∀ result, requireWrite crypto a.now config a.metadata = .ok result →
      SignedFor crypto config a ["admin", "operator"] := by
    intro result hresult
    refine signedFor_of_requireRole (fun text role hrole hallowed => ?_) hresult
    have htext := canWrite_fromRoleStr_iff.mp ⟨role, hrole, hallowed⟩
    simpa using htext
  unfold mayChange at h
  split at h
  · next result hcheck =>
      obtain ⟨now, metadata, rpc⟩ := a
      cases rpc with
      | repositoryCreate draws inner => exact hadmin result (Option.some.inj hcheck)
      | chunkPut inner => exact hwrite result (Option.some.inj hcheck)
      | chunkDelete inner => exact hwrite result (Option.some.inj hcheck)
      | chunkBatchPut inner => exact hwrite result (Option.some.inj hcheck)
      | snapshotCommit draws inner => exact hwrite result (Option.some.inj hcheck)
      | chunkGet inner => cases hcheck
      | chunkExists inner => cases hcheck
      | snapshotGet draws inner => cases hcheck
      | snapshotList inner => cases hcheck
      | snapshotDelete inner => cases hcheck
      | recoveryOpen inner => cases hcheck
  · cases h

def adminCrypto : Crypto :=
  testCrypto "admin"
    [54, 29, 201, 155, 83, 90, 216, 201, 95, 77, 205, 100, 21, 55, 119, 244,
      225, 228, 162, 102, 34, 136, 91, 107, 126, 143, 206, 235, 87, 230, 13, 218]

/-- The creation of a repository on a server without repositories. -/
def creation (metadata : Metadata) : Arrival where
  now := 3000
  metadata := metadata
  rpc := .repositoryCreate ⟨⟨1⟩, 0⟩ ⟨some ⟨"backups", none⟩⟩

theorem run_creation_ne {ext : Externals} {layout : BadouDataLayout} {metadata : Metadata}
    {result : JwtClaims × Nat}
    (hadmin : requireAdmin adminCrypto 3000 ⟨Hex.utf8 "test-secret"⟩ metadata = .ok result) :
    run ext layout adminCrypto ⟨Hex.utf8 "test-secret"⟩ (Server.new []) [creation metadata] ≠
      Server.new [] := by
  have hrun := @Server.run_repositoryCreate (Server.new []) ⟨⟨1⟩, 0⟩
    (checked (requireAdmin adminCrypto 3000 ⟨Hex.utf8 "test-secret"⟩ metadata)
      ⟨some ⟨"backups", none⟩⟩) ⟨"backups", none⟩ (by rw [hadmin]; rfl)
  have hstep : run ext layout adminCrypto ⟨Hex.utf8 "test-secret"⟩ (Server.new [])
      [creation metadata] = Server.setRepo ⟨1⟩ .empty (Server.new []) :=
    (stateAfter_answered _ _).trans (run_eq_ok_iff.mp hrun).2
  intro heq
  have hlookup : (Server.setRepo ⟨1⟩ .empty (Server.new [])).repos.lookup ⟨1⟩ =
      some OpenRepo.empty := AList.lookup_insert _
  rw [← hstep, heq] at hlookup
  cases hlookup

end Runs

end Permissions
end Provider
end HyperBackup
