import HyperBackup.Agent.Repo
import HyperBackup.Badou.RepositoryRpc
import HyperBackup.Badou.SnapshotRpc

/-!
# The BaDou provider of the agent

The provider offers the repository interface of the agent on top of the BaDou
server.  A chunk is uploaded as JSON under the hash of that JSON, so it gets
another name than the one its caller uses.  A manifest is uploaded as a chunk
too, and a snapshot points to it.

The server answers a call with a response or with a status; a status becomes
an error of the repository interface.  What the network does to a call is left
to a transport.  JSON and compression come from other crates and are
parameters.
-/

namespace HyperBackup
namespace Provider

open Lib Lib.Program Badou

/-- A text without the given ending, however often it is repeated. -/
def dropEndings (ending : List Char) : Nat → List Char → List Char
  | 0, text => text
  | n + 1, text =>
      if ending <:+ text then
        dropEndings ending n (text.take (text.length - ending.length))
      else text

def trimEndMatches (text ending : String) : String :=
  String.ofList (dropEndings ending.toList text.length text.toList)

inductive Role
  | admin
  | operator
  | viewer
deriving DecidableEq

def Role.canWrite : Role → Bool
  | .admin | .operator => true
  | .viewer => false

def Role.canAdmin : Role → Bool
  | .admin => true
  | .operator | .viewer => false

/-- What the server finds in a token: it is refused, or it has a role, which
may be one that is not known. -/
structure Token where
  claims : Except Status (Option Role)

namespace Token

variable (token : Token)

def requireAuth : Except Status Unit :=
  token.claims.map fun _ => ()

def requireRole (allowed : Role → Bool) (message : String) :
    Except Status Unit := do
  match ← token.claims with
  | none => throw ⟨.permissionDenied, "FORBIDDEN: unknown role"⟩
  | some role =>
      if allowed role then return ()
      else throw ⟨.permissionDenied, message⟩

def requireWrite : Except Status Unit :=
  token.requireRole Role.canWrite "FORBIDDEN: write permission required"

def requireAdmin : Except Status Unit :=
  token.requireRole Role.canAdmin "FORBIDDEN: admin permission required"

/-- Whoever may write may also read. -/
theorem requireAuth_of_requireRole {allowed : Role → Bool} {message : String}
    (h : token.requireRole allowed message = .ok ()) :
    token.requireAuth = .ok () := by
  unfold requireRole at h
  unfold requireAuth
  cases hclaims : token.claims with
  | error status =>
      rw [hclaims] at h
      cases h
  | ok role =>
      rfl

end Token

inductive BadouClientError
  | transport (text : String)
  | status (status : Status)
  | hbop (code : HbopErrorCode) (message : String)
  | invalidEndpoint (text : String)
deriving DecidableEq

def mapClientError : BadouClientError → Agent.RepoError
  | .transport _ => .failed "HBOP transport error"
  | .status s =>
      match s.code with
      | .unauthenticated => .authFailed
      | .resourceExhausted => .full
      | .notFound => .notFound s.message
      | _ => .failed s.message
  | .hbop code message =>
      match code with
      | .authFailed => .authFailed
      | .diskFull => .full
      | .chunkNotFound => .notFound message
      | .repoNotFound => .notFound message
      | _ => .failed message
  | .invalidEndpoint text => .failed text

/-- JSON and compression as the provider uses them. -/
structure Codec where
  chunkToVec : Agent.EncryptedChunk → Bytes
  chunkFromSlice : Bytes → Except String Agent.EncryptedChunk
  manifestToVec : Agent.Manifest → Bytes
  manifestFromSlice : Bytes → Except String Agent.Manifest
  encodeAll : Bytes → Except String Bytes
  decodeAll : Bytes → Except String Bytes

/-- The provider for one repository; its token is what the server makes of
it. -/
structure BaDouProvider where
  repoId : String
  token : Token

/-- A program of the provider; its state is the server and the network. -/
abbrev ProviderM (σ α : Type) : Type :=
  EStateM Agent.RepoError σ α

/-- How calls get to the server and their answers back. -/
structure Transport (σ : Type) where
  send : {α : Type} → Server.ServerM α → ProviderM σ α

/-- Every call is answered. -/
def reliable : Transport ServerState where
  send := fun x => EStateM.adaptExcept (fun s => mapClientError (.status s)) x

/-- What the server sends but the client cannot use. -/
def invalid (text : String) : Agent.RepoError :=
  mapClientError (.invalidEndpoint text)

/-- The identifiers and the time a written manifest gets, and those the server
draws for its commit. -/
structure ManifestDraws where
  snapshotId : Uuid
  manifestId : Uuid
  now : DateTime
  request : RequestDraws

namespace BaDouProvider

def makeLocation (hashHex : String) : Agent.ChunkLocation where
  bucket :=
    if 2 ≤ hashHex.toList.length then String.ofList (hashHex.toList.take 2)
    else "00"
  path := hashHex ++ ".chunk"

section Requests

variable (provider : BaDouProvider)

/-- The upload of some data under its hash. -/
def putRequest (hash : ChunkHash) (data : Bytes) : Request ChunkPutRequest where
  auth := provider.token.requireWrite
  inner := {
    repoId := provider.repoId
    chunk := some {
      chunkHash := hash.toHex
      data := data
      size := UInt64.ofNat data.length } }

def getRequest (hashHex : String) : Request ChunkGetRequest where
  auth := provider.token.requireAuth
  inner := { repoId := provider.repoId, chunkHash := hashHex }

def existsRequest (hashHex : String) : Request ChunkExistsRequest where
  auth := provider.token.requireAuth
  inner := { repoId := provider.repoId, chunkHash := hashHex }

/-- The metadata of a snapshot that points to the data of a manifest. -/
def commitMeta (draws : ManifestDraws) (versionId : VersionId)
    (dataHashHex : String) : SnapshotMeta where
  snapshotId := uuidText draws.snapshotId
  versionId := uuidText versionId.uuid
  repoId := provider.repoId
  status := 1
  sourceMachine := "hbx-agent"
  backupPolicy := []
  fileTreeRoot := dataHashHex
  encryptionInfo := []
  compressionInfo := []
  totalSize := 0
  storedSize := 0
  fileCount := 0
  chunkCount := 0
  createdAt := some draws.now

/-- The manifest that is sent along is empty. -/
def commitManifest (draws : ManifestDraws) : ManifestData where
  manifestId := uuidText draws.manifestId
  fileTree := []
  chunkRefs := []

def commitRequest (draws : ManifestDraws) (versionId : VersionId)
    (dataHashHex : String) : Request SnapshotCommitRequest where
  auth := provider.token.requireWrite
  inner := {
    repoId := provider.repoId
    parentVersionId := ""
    snapshotMeta := some (provider.commitMeta draws versionId dataHashHex)
    manifest := some (commitManifest draws)
    chunkHashes := [] }

/-- A repository is asked for under the name of the one the provider is for;
the server chooses its identifier. -/
def createRequest : Request RepositoryCreateRequest where
  auth := provider.token.requireAdmin
  inner := { config := some { name := provider.repoId, immutableUntil := none } }

def listRequest : Request SnapshotListRequest where
  auth := provider.token.requireAuth
  inner := { repoId := provider.repoId, limit := none, cursor := none }

end Requests

section Operations

variable {σ : Type} (net : Transport σ)
variable (ext : Externals) (layout : BadouDataLayout) (codec : Codec)
variable (provider : BaDouProvider)

def createRepo (draws : CreateDraws) : ProviderM σ String := do
  let info ← net.send (Server.repositoryCreate draws provider.createRequest)
  return info.repoId

/-- Upload a chunk under the hash of its JSON; the given hash is not used. -/
def writeChunk (_hash : ChunkHash) (encrypted : Agent.EncryptedChunk) :
    ProviderM σ Agent.ChunkLocation := do
  let data := codec.chunkToVec encrypted
  let dataHash := ext.blake3 data
  let _ ← net.send (Server.chunkPut ext layout (provider.putRequest dataHash data))
  return makeLocation dataHash.toHex

def readChunk (location : Agent.ChunkLocation) :
    ProviderM σ Agent.EncryptedChunk := do
  let hashHex := trimEndMatches location.path ".chunk"
  let chunk ← net.send (Server.chunkGet ext (provider.getRequest hashHex))
  ofResult invalid (codec.chunkFromSlice chunk.data)

def chunkExists (hash : ChunkHash) : ProviderM σ Bool := do
  let response ← net.send (Server.chunkExists ext (provider.existsRequest hash.toHex))
  return response.exists_

/-- Upload the manifest as a chunk and commit a snapshot that points to it. -/
def writeManifest (draws : ManifestDraws) (versionId : VersionId)
    (manifest : Agent.Manifest) : ProviderM σ Unit := do
  let compressed ← ofResult .failed
    (codec.encodeAll (codec.manifestToVec manifest))
  let dataHash := ext.blake3 compressed
  let _ ← net.send (Server.chunkPut ext layout
    (provider.putRequest dataHash compressed))
  let _ ← net.send (Server.snapshotCommit ext layout draws.request
    (provider.commitRequest draws versionId dataHash.toHex))
  return ()

/-- Look for the snapshot of the version, fetch what it points to and read the
manifest from it. -/
def readManifest (versionId : VersionId) : ProviderM σ Agent.Manifest := do
  let versionText := uuidText versionId.uuid
  let response ← net.send (Server.snapshotList ext provider.listRequest)
  match response.snapshots.find? fun s => s.versionId = versionText with
  | none =>
      throw (invalid ("snapshot not found for version_id=" ++ versionText ++
        " (have " ++ toString response.snapshots.length ++ " snapshots)"))
  | some snapshot =>
      let chunk ← net.send (Server.chunkGet ext
        (provider.getRequest snapshot.fileTreeRoot))
      let json ← ofResult invalid (codec.decodeAll chunk.data)
      ofResult invalid (codec.manifestFromSlice json)

end Operations

end BaDouProvider

end Provider
end HyperBackup
