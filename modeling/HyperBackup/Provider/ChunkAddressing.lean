import HyperBackup.Agent.Json
import HyperBackup.Provider.BaDouProvider

/-!
# Chunks through the provider

A caller names a chunk by the hash of its plaintext; the provider stores it
under the hash of its JSON.  Reading goes by the location, which has the name
the provider has chosen.  Asking whether a chunk exists goes by the name of
the caller.

So what was written can be read, unless data with the same hash was there
before.  But it is said to exist only if the name of the caller happens to be
the hash of some JSON that was uploaded.
-/

namespace HyperBackup
namespace Provider

open Lib Lib.Program Badou

section Endings

/-- A text that does not end so is left as it is. -/
theorem trimEndMatches_append {text ending : String}
    (hlength : 0 < ending.length)
    (hend : ¬ ending.toList <:+ text.toList) :
    trimEndMatches (text ++ ending) ending = text := by
  have hlen : (text ++ ending).length = (text.length + ending.length - 1) + 1 := by
    rw [String.length_append]
    omega
  have htake : (text ++ ending).toList.take
      ((text ++ ending).toList.length - ending.toList.length) = text.toList := by
    rw [String.toList_append, List.length_append, Nat.add_sub_cancel,
      List.take_left]
  have hsuffix : ending.toList <:+ (text ++ ending).toList := by
    rw [String.toList_append]
    exact List.suffix_append _ _
  unfold trimEndMatches
  rw [hlen, dropEndings, if_pos hsuffix, htake]
  cases text.length + ending.length - 1 with
  | zero =>
      rw [dropEndings, String.ofList_toList]
  | succ n =>
      rw [dropEndings, if_neg hend, String.ofList_toList]

/-- The name of a chunk file leads back to the hash. -/
theorem trimEndMatches_chunk (h : ChunkHash) :
    trimEndMatches (h.toHex ++ ".chunk") ".chunk" = h.toHex := by
  refine trimEndMatches_append (by decide) fun hsuffix => ?_
  have hmem : 'k' ∈ h.toHex.toList := hsuffix.subset (by decide)
  have hdigits : ∀ c ∈ h.toHex.toList, c ≠ 'k' :=
    Hex.forall_mem_encode (by decide) h.digest.toList
  exact hdigits 'k' hmem rfl

end Endings

section Calls

variable {α : Type} {x : Server.ServerM α} {s s' : ServerState} {a : α}

theorem run_reliable_eq_ok : (reliable.send x).run s = .ok a s' ↔ x.run s = .ok a s' := by
  unfold reliable
  rw [EStateM.run_adaptExcept]
  cases x.run s with
  | ok b t =>
      simp
  | error e t =>
      simp

theorem stateAfter_reliable : stateAfter (reliable.send x) s = stateAfter x s := by
  unfold stateAfter reliable
  rw [EStateM.run_adaptExcept]
  cases x.run s with
  | ok b t =>
      rfl
  | error e t =>
      rfl

end Calls

namespace BaDouProvider

section Operations

variable {ext : Externals} {layout : BadouDataLayout} {codec : Codec}
variable {provider : BaDouProvider} {s s' : ServerState} {r : RepositoryId}

/-- The provider may write into the repository. -/
structure WritesTo (ext : Externals) (provider : BaDouProvider)
    (s : ServerState) (r : RepositoryId) : Prop where
  authorized : provider.token.requireWrite = .ok ()
  parsed : Convert.parseRepoId ext provider.repoId = .ok r
  known : (s.repos.lookup r).isSome

/-- The provider may read from the repository. -/
structure ReadsFrom (ext : Externals) (provider : BaDouProvider)
    (s : ServerState) (r : RepositoryId) : Prop where
  authorized : provider.token.requireAuth = .ok ()
  parsed : Convert.parseRepoId ext provider.repoId = .ok r
  known : (s.repos.lookup r).isSome

theorem WritesTo.reads (h : WritesTo ext provider s r) :
    ReadsFrom ext provider s r where
  authorized := provider.token.requireAuth_of_requireRole h.authorized
  parsed := h.parsed
  known := h.known

/-- The hash under which a chunk is stored. -/
def dataHash (ext : Externals) (codec : Codec) (e : Agent.EncryptedChunk) :
    ChunkHash :=
  ext.blake3 (codec.chunkToVec e)

theorem WritesTo.unique {r' : RepositoryId} (h : WritesTo ext provider s r)
    (h' : WritesTo ext provider s' r') : r = r' :=
  Except.ok.inj (h.parsed.symm.trans h'.parsed)

theorem WritesTo.withChunk {hash : ChunkHash} {data : Bytes}
    {r' : RepositoryId} (h : WritesTo ext provider s r) :
    WritesTo ext provider (Server.withChunk layout r' hash data s) r where
  authorized := h.authorized
  parsed := h.parsed
  known := by
    rw [Server.withChunk, Server.setRepo, HashMap.lookup_insert_of]
    split
    · rfl
    · exact h.known

/-- An upload of data under their own hash passes all checks if the provider
may write. -/
theorem putTarget_putRequest {data d : Bytes} {hash : ChunkHash} :
    Server.putTarget ext s (provider.putRequest (ext.blake3 data) data) =
        some (r, hash, d) ↔
      WritesTo ext provider s r ∧ hash = ext.blake3 data ∧ d = data := by
  rw [Server.putTarget_eq_some_iff]
  constructor
  · rintro ⟨hauth, ⟨chunk, hparse⟩, -, hknown⟩
    obtain ⟨hrepo, hchunk, hhash, hdata⟩ := Server.parsePut_eq_ok_iff.mp hparse
    cases hchunk
    rw [Server.parseHash_toHex] at hhash
    exact ⟨⟨hauth, hrepo, hknown⟩, (Except.ok.inj hhash).symm, hdata.symm⟩
  · rintro ⟨⟨hauth, hrepo, hknown⟩, rfl, rfl⟩
    refine ⟨hauth, ⟨_, Server.parsePut_eq_ok_iff.mpr
      ⟨hrepo, rfl, Server.parseHash_toHex _, rfl⟩⟩, rfl, hknown⟩

/-- A chunk is written if the provider may write, and then under the hash of
its JSON. -/
theorem writeChunk_eq_ok_iff {h : ChunkHash} {e : Agent.EncryptedChunk}
    {location : Agent.ChunkLocation} :
    (writeChunk reliable ext layout codec provider h e).run s = .ok location s' ↔
      ∃ r, WritesTo ext provider s r ∧
        location = makeLocation (dataHash ext codec e).toHex ∧
        s' = Server.withChunk layout r (dataHash ext codec e)
          (codec.chunkToVec e) s := by
  unfold writeChunk
  constructor
  · intro hrun
    obtain ⟨info, s₁, hput, hrest⟩ := run_bind_eq_ok.mp hrun
    obtain ⟨houtcome, hafter⟩ := run_eq_ok_iff.mp (run_reliable_eq_ok.mp hput)
    obtain ⟨⟨r, hash, data⟩, htarget⟩ := Server.exists_putTarget houtcome
    obtain ⟨hwrites, rfl, rfl⟩ := putTarget_putRequest.mp htarget
    rw [Server.stateAfter_chunkPut, htarget] at hafter
    cases hrest
    exact ⟨r, hwrites, rfl, hafter.symm⟩
  · rintro ⟨r, hwrites, rfl, rfl⟩
    obtain ⟨info, hput⟩ := @Server.run_chunkPut ext layout s r _ _ _
      (putTarget_putRequest.mpr ⟨hwrites, rfl, rfl⟩)
    exact (run_bind_of_ok (run_reliable_eq_ok.mpr hput)).trans rfl

/-- A write of a provider that may not write changes nothing. -/
theorem stateAfter_writeChunk_of_not {h : ChunkHash} {e : Agent.EncryptedChunk}
    (hnot : ∀ r, ¬ WritesTo ext provider s r) :
    stateAfter (writeChunk reliable ext layout codec provider h e) s = s := by
  have hput : stateAfter (reliable.send (Server.chunkPut ext layout
      (provider.putRequest (dataHash ext codec e) (codec.chunkToVec e)))) s = s := by
    rw [stateAfter_reliable, Server.stateAfter_chunkPut]
    cases htarget : Server.putTarget ext s
        (provider.putRequest (dataHash ext codec e) (codec.chunkToVec e)) with
    | none =>
        rfl
    | some target =>
        exact absurd (putTarget_putRequest.mp htarget).1 (hnot target.1)
  unfold writeChunk
  rw [stateAfter_bind]
  split
  · exact hput
  · exact hput

/-- A chunk exists for its callers if there are references to the hash they
ask for. -/
theorem outcome_chunkExists (h : ChunkHash)
    (hreads : ReadsFrom ext provider s r) :
    outcome (chunkExists reliable ext provider h) s =
      .ok (decide (0 < ChunkStore.refCount (Server.repoState s r).store h)) := by
  obtain ⟨response, hrun, hexists⟩ := @Server.run_chunkExists ext s r
    (provider.existsRequest h.toHex) h hreads.authorized hreads.parsed
    (Server.parseHash_toHex h) hreads.known
  unfold chunkExists
  rw [outcome_bind_of_run (run_reliable_eq_ok.mpr hrun), ← hexists]
  rfl

/-- What is read from a location the provider has made. -/
theorem outcome_readChunk_eq_ok_iff {h : ChunkHash} {e : Agent.EncryptedChunk}
    (hreads : ReadsFrom ext provider s r) :
    outcome (readChunk reliable ext codec provider (makeLocation h.toHex)) s = .ok e ↔
      ∃ data, ChunkStore.readChunk ext.blake3 (Server.repoState s r).store h =
        .ok data ∧ codec.chunkFromSlice data = .ok e := by
  have hname : trimEndMatches (makeLocation h.toHex).path ".chunk" = h.toHex :=
    trimEndMatches_chunk h
  unfold readChunk
  rw [hname]
  constructor
  · intro houtcome
    obtain ⟨chunk, s₁, hget, hdecode⟩ :=
      run_bind_eq_ok.mp (run_eq_ok_iff.mpr ⟨houtcome, rfl⟩)
    obtain ⟨r', h', -, hrepo, hhash, -, hread, rfl⟩ :=
      Server.of_run_chunkGet (run_reliable_eq_ok.mp hget)
    obtain rfl := Except.ok.inj (hreads.parsed.symm.trans hrepo)
    obtain rfl := Except.ok.inj ((Server.parseHash_toHex h).symm.trans hhash)
    exact ⟨chunk.data, hread, (run_ofResult_eq_ok.mp hdecode).1⟩
  · rintro ⟨data, hread, hdecode⟩
    have hget := @Server.run_chunkGet ext s r (provider.getRequest h.toHex) h
      data hreads.authorized hreads.parsed (Server.parseHash_toHex h)
      hreads.known hread
    rw [outcome_bind_of_run (run_reliable_eq_ok.mpr hget)]
    exact (run_eq_ok_iff.mp (run_ofResult_eq_ok.mpr ⟨hdecode, rfl⟩)).1

end Operations

section Runs

/-- The calls a caller makes. -/
inductive Call
  | writeChunk (h : ChunkHash) (e : Agent.EncryptedChunk)
  | chunkExists (h : ChunkHash)
  | readChunk (location : Agent.ChunkLocation)

variable (ext : Externals) (layout : BadouDataLayout) (codec : Codec)
variable (provider : BaDouProvider)

/-- The server after a call. -/
def step (s : ServerState) : Call → ServerState
  | .writeChunk h e => stateAfter (writeChunk reliable ext layout codec provider h e) s
  | .chunkExists h => stateAfter (chunkExists reliable ext provider h) s
  | .readChunk location => stateAfter (readChunk reliable ext codec provider location) s

def run (s : ServerState) (calls : List Call) : ServerState :=
  calls.foldl (step ext layout codec provider) s

/-- The chunk a call stores, with its name on the server. -/
def stored : Call → Option (ChunkHash × Bytes)
  | .writeChunk _ e => some (dataHash ext codec e, codec.chunkToVec e)
  | .chunkExists _ => none
  | .readChunk _ => none

/-- A chunk that was written exists and is read from its location, from then
on. -/
def Refines (s : ServerState) (calls : List Call) : Prop :=
  ∀ before h e later rest location,
    calls = before ++ .writeChunk h e :: (later ++ rest) →
    outcome (writeChunk reliable ext layout codec provider h e)
      (run ext layout codec provider s before) = .ok location →
    outcome (chunkExists reliable ext provider h)
        (run ext layout codec provider s
          (before ++ .writeChunk h e :: later)) = .ok true ∧
      outcome (readChunk reliable ext codec provider location)
        (run ext layout codec provider s
          (before ++ .writeChunk h e :: later)) = .ok e

/-- The name of the caller has references on the server: those it had, and one
for each chunk stored under it, counted in 32 bits.  And what is first stored
under the hash of the JSON decodes to the chunk. -/
def NamesAgree (st : Store) (calls : List Call) : Prop :=
  ∀ before h e later rest,
    calls = before ++ .writeChunk h e :: (later ++ rest) →
    ((ChunkStore.refCount st h).toNat +
        (((before ++ .writeChunk h e :: later).filterMap
          (stored ext codec)).map Prod.fst).count h) % 2 ^ 32 ≠ 0 ∧
      ∃ data, ChunkStore.firstStored ext.blake3 st
          ((before ++ .writeChunk h e :: later).filterMap (stored ext codec))
          (dataHash ext codec e) = some data ∧
        codec.chunkFromSlice data = .ok e

end Runs

section Preservation

variable {ext : Externals} {layout : BadouDataLayout} {codec : Codec}
variable {provider : BaDouProvider} {s : ServerState} {r : RepositoryId}

theorem preserves_openRepo (repoId : RepositoryId) (I : ServerState → Prop) :
    Preserves (Server.openRepo repoId) I := by
  intro s h
  rw [Server.stateAfter_openRepo]
  exact h

theorem preserves_reliable {α : Type} {x : Server.ServerM α}
    {I : ServerState → Prop} (h : Preserves x I) : Preserves (reliable.send x) I := by
  intro s hs
  rw [stateAfter_reliable]
  exact h s hs

theorem stateAfter_chunkExists (h : ChunkHash) :
    stateAfter (chunkExists reliable ext provider h) s = s := by
  have hkeeps : Preserves (chunkExists reliable ext provider h) (· = s) := by
    refine preserves_bind (preserves_reliable ?_) fun _ => preserves_pure _ _
    refine preserves_bind (preserves_ofResult _ _ _) fun _ => ?_
    refine preserves_bind (preserves_ofResult _ _ _) fun _ => ?_
    refine preserves_bind (preserves_ofResult _ _ _) fun _ => ?_
    exact preserves_bind (preserves_openRepo _ _) fun _ => preserves_pure _ _
  exact hkeeps s rfl

theorem preserves_chunkGet (request : Request ChunkGetRequest)
    (I : ServerState → Prop) : Preserves (Server.chunkGet ext request) I := by
  refine preserves_bind (preserves_ofResult _ _ _) fun _ => ?_
  refine preserves_bind (preserves_ofResult _ _ _) fun _ => ?_
  refine preserves_bind (preserves_ofResult _ _ _) fun _ => ?_
  refine preserves_bind (preserves_openRepo _ _) fun _ => ?_
  exact preserves_bind (preserves_ofResult _ _ _) fun _ => preserves_pure _ _

theorem stateAfter_readChunk (location : Agent.ChunkLocation) :
    stateAfter (readChunk reliable ext codec provider location) s = s := by
  have hkeeps : Preserves (readChunk reliable ext codec provider location) (· = s) :=
    preserves_bind (preserves_reliable (preserves_chunkGet _ _)) fun _ =>
      preserves_ofResult _ _ _
  exact hkeeps s rfl

/-- A provider that may not write leaves the server as it is. -/
theorem run_of_not_writesTo (calls : List Call)
    (hnot : ∀ r, ¬ WritesTo ext provider s r) :
    run ext layout codec provider s calls = s := by
  refine List.foldlRecOn calls _ (motive := fun t => t = s) rfl ?_
  rintro t rfl c -
  cases c with
  | writeChunk h e =>
      exact stateAfter_writeChunk_of_not hnot
  | chunkExists h =>
      exact stateAfter_chunkExists h
  | readChunk location =>
      exact stateAfter_readChunk location

/-- The store of the repository after a run has the chunks that were stored,
one after the other. -/
theorem run_of_writesTo (calls : List Call) :
    ∀ {s : ServerState}, WritesTo ext provider s r →
      WritesTo ext provider (run ext layout codec provider s calls) r ∧
        (Server.repoState (run ext layout codec provider s calls) r).store =
          stateAfter (ChunkStore.writeChunks layout r
            (calls.filterMap (stored ext codec)))
              (Server.repoState s r).store := by
  induction calls with
  | nil =>
      intro s hwrites
      exact ⟨hwrites, by rw [ChunkStore.stateAfter_writeChunks]; rfl⟩
  | cons c calls ih =>
      intro s hwrites
      cases c with
      | writeChunk h e =>
          have hstep : step ext layout codec provider s (.writeChunk h e) =
              Server.withChunk layout r (dataHash ext codec e)
                (codec.chunkToVec e) s :=
            (run_eq_ok_iff.mp (writeChunk_eq_ok_iff.mpr
              ⟨r, hwrites, rfl, rfl⟩)).2
          have hrest := ih (s := step ext layout codec provider s
            (.writeChunk h e)) (by rw [hstep]; exact hwrites.withChunk)
          refine ⟨hrest.1, hrest.2.trans ?_⟩
          rw [hstep, Server.withChunk, Server.repoState_setRepo, if_pos rfl]
          simp only [ChunkStore.stateAfter_writeChunks]
          rfl
      | chunkExists h =>
          have hstep : step ext layout codec provider s (.chunkExists h) = s :=
            stateAfter_chunkExists h
          have hrest := ih hwrites
          rw [← hstep] at hrest
          exact ⟨hrest.1, hrest.2.trans (by rw [hstep]; rfl)⟩
      | readChunk location =>
          have hstep : step ext layout codec provider s (.readChunk location) = s :=
            stateAfter_readChunk location
          have hrest := ih hwrites
          rw [← hstep] at hrest
          exact ⟨hrest.1, hrest.2.trans (by rw [hstep]; rfl)⟩

end Preservation

section Main

variable {ext : Externals} {layout : BadouDataLayout} {codec : Codec}
variable {provider : BaDouProvider} {s : ServerState} {r : RepositoryId}

/-- Stored data have the hash they are stored under. -/
theorem blake3_of_stored {calls : List Call} {c : ChunkHash × Bytes}
    (hc : c ∈ calls.filterMap (stored ext codec)) : ext.blake3 c.2 = c.1 := by
  obtain ⟨call, -, hstored⟩ := List.mem_filterMap.mp hc
  cases call with
  | writeChunk h e =>
      cases hstored
      rfl
  | chunkExists h =>
      cases hstored
  | readChunk location =>
      cases hstored

/-- The references after a run are counted in 32 bits. -/
theorem refCount_writeChunks_pos_iff {st : Store}
    (chunks : List (ChunkHash × Bytes)) (h : ChunkHash) :
    0 < ChunkStore.refCount
        (stateAfter (ChunkStore.writeChunks layout r chunks) st) h ↔
      ((ChunkStore.refCount st h).toNat +
        (chunks.map Prod.fst).count h) % 2 ^ 32 ≠ 0 := by
  rw [ChunkStore.refCount_writeChunks, UInt32.lt_iff_toNat_lt,
    UInt32.toNat_add, UInt32.toNat_ofNat', Nat.add_mod_mod]
  exact Nat.pos_iff_ne_zero

/-- After a write and some more calls the chunk exists and is read exactly if
its name has references and what is first stored under its hash decodes to
it. -/
theorem served_iff (haddressed : (Server.repoState s r).store.Addressed layout r)
    (hwrites : WritesTo ext provider s r) (before later : List Call)
    (h : ChunkHash) (e : Agent.EncryptedChunk) :
    (outcome (chunkExists reliable ext provider h)
        (run ext layout codec provider s
          (before ++ .writeChunk h e :: later)) = .ok true ∧
      outcome (readChunk reliable ext codec provider
          (makeLocation (dataHash ext codec e).toHex))
        (run ext layout codec provider s
          (before ++ .writeChunk h e :: later)) = .ok e) ↔
    ((ChunkStore.refCount (Server.repoState s r).store h).toNat +
        (((before ++ .writeChunk h e :: later).filterMap
          (stored ext codec)).map Prod.fst).count h) % 2 ^ 32 ≠ 0 ∧
      ∃ data, ChunkStore.firstStored ext.blake3 (Server.repoState s r).store
          ((before ++ .writeChunk h e :: later).filterMap (stored ext codec))
          (dataHash ext codec e) = some data ∧
        codec.chunkFromSlice data = .ok e := by
  obtain ⟨hlater, hstore⟩ := @run_of_writesTo ext layout codec provider r
    (before ++ .writeChunk h e :: later) s hwrites
  rw [outcome_chunkExists h hlater.reads,
    outcome_readChunk_eq_ok_iff hlater.reads, hstore,
    Except.ok.injEq, decide_eq_true_iff, refCount_writeChunks_pos_iff]
  refine and_congr_right fun _ => exists_congr fun data => and_congr_left fun _ => ?_
  exact ChunkStore.readChunk_writeChunks_iff haddressed fun _ => blake3_of_stored

/-- If everything that is written is served, the names agree. -/
theorem namesAgree_of_refines
    (haddressed : (Server.repoState s r).store.Addressed layout r)
    (hwrites : WritesTo ext provider s r) {calls : List Call}
    (hrefines : Refines ext layout codec provider s calls) :
    NamesAgree ext codec (Server.repoState s r).store calls := by
  intro before h e later rest hcalls
  have hbefore := (@run_of_writesTo ext layout codec provider r before s
    hwrites).1
  have hwritten : outcome (writeChunk reliable ext layout codec provider h e)
      (run ext layout codec provider s before) =
        .ok (makeLocation (dataHash ext codec e).toHex) :=
    (run_eq_ok_iff.mp (writeChunk_eq_ok_iff.mpr ⟨r, hbefore, rfl, rfl⟩)).1
  exact (served_iff haddressed hwrites before later h e).mp
    (hrefines before h e later rest _ hcalls hwritten)

/-- Whatever the provider writes exists and is read back exactly if it may not
write at all, or the names of the callers agree with those on the server. -/
theorem refines_iff
    (haddressed : ∀ r, (Server.repoState s r).store.Addressed layout r)
    (calls : List Call) :
    Refines ext layout codec provider s calls ↔
      ∀ r, WritesTo ext provider s r →
        NamesAgree ext codec (Server.repoState s r).store calls := by
  constructor
  · intro hrefines r hwrites
    exact namesAgree_of_refines (haddressed r) hwrites hrefines
  · intro hagree before h e later rest location hcalls hwritten
    obtain ⟨r, hbefore, rfl, -⟩ :=
      writeChunk_eq_ok_iff.mp (run_eq_ok_iff.mpr ⟨hwritten, rfl⟩)
    have hwrites : ∃ r, WritesTo ext provider s r := by
      by_contra hnot
      rw [run_of_not_writesTo before (not_exists.mp hnot)] at hbefore
      exact hnot ⟨r, hbefore⟩
    obtain ⟨r', hwrites⟩ := hwrites
    exact (served_iff (haddressed r') hwrites before later h e).mpr
      (hagree r' hwrites before h e later rest hcalls)

end Main

section Example

/-- The bytes of `abc` as they are wrapped for the upload. -/
def wrappedAbc : Agent.EncryptedChunk where
  ciphertext := [97, 98, 99]
  nonce := .replicate 12 0
  authTag := .replicate 16 0

/-- The BLAKE3 hash of the JSON of that chunk. -/
def wrappedAbcHash : ChunkHash :=
  ⟨⟨[
    0x8d, 0xb6, 0xf1, 0xe5, 0x75, 0x7c, 0x34, 0x46,
    0x0a, 0x27, 0x85, 0x85, 0x3e, 0xfe, 0x64, 0x33,
    0x61, 0xc7, 0xea, 0xd0, 0xe3, 0x05, 0x00, 0x64,
    0xce, 0x82, 0xaa, 0x0b, 0xf6, 0x28, 0xe1, 0x3e], rfl⟩⟩

/-- The UUIDs and hashes of the examples: `abc`, its JSON and the empty
chunk. -/
def abcExternals : Externals :=
  { Server.externalsWith RecoveryEngine.danglingJson with
    blake3 := fun data =>
      if data = Agent.Json.encryptedChunkBytes wrappedAbc then wrappedAbcHash
      else if data = [97, 98, 99] then RecoveryEngine.abcHash
      else .ofEmpty }

/-- JSON with a reader that knows that chunk.  No manifest is involved. -/
def abcCodec : Codec where
  chunkToVec := Agent.Json.encryptedChunkBytes
  chunkFromSlice := fun data =>
    if data = Agent.Json.encryptedChunkBytes wrappedAbc then .ok wrappedAbc
    else .error "EOF while parsing a value at line 1 column 0"
  manifestToVec := Agent.Json.manifestBytes
  manifestFromSlice := fun _ =>
    .error "EOF while parsing a value at line 1 column 0"
  encodeAll := .ok
  decodeAll := .ok

/-- An operator's provider for the repository 1. -/
def operator : BaDouProvider where
  repoId := "00000000-0000-0000-0000-000000000001"
  token := ⟨.ok (some .operator)⟩

theorem dataHash_wrappedAbc :
    dataHash abcExternals abcCodec wrappedAbc = wrappedAbcHash := by
  simp only [dataHash, abcExternals, abcCodec, ↓reduceIte]

theorem chunkFromSlice_wrappedAbc :
    abcCodec.chunkFromSlice (abcCodec.chunkToVec wrappedAbc) =
      .ok wrappedAbc := by
  simp only [abcCodec, ↓reduceIte]

theorem addressed_new (layout : BadouDataLayout) (repoIds : List RepositoryId)
    (r : RepositoryId) :
    (Server.repoState (Server.new repoIds) r).store.Addressed layout r := by
  rw [Server.repoState_new]
  exact Store.tidy_empty.addressed

theorem writesTo_operator :
    WritesTo abcExternals operator (Server.new [⟨1#128⟩]) ⟨1#128⟩ where
  authorized := rfl
  parsed := rfl
  known := by decide

/-- A caller that happens to use the name of the server is served. -/
theorem refines_wrappedAbc :
    Refines abcExternals ⟨"/data"⟩ abcCodec operator (Server.new [⟨1#128⟩])
      [.writeChunk wrappedAbcHash wrappedAbc] := by
  refine (refines_iff (addressed_new ⟨"/data"⟩ [⟨1#128⟩]) _).mpr ?_
  intro r _ before h e later rest hcalls
  rw [Server.repoState_new]
  obtain ⟨rfl, hcall⟩ : before = [] ∧
      [Call.writeChunk wrappedAbcHash wrappedAbc] =
        .writeChunk h e :: (later ++ rest) := by
    cases before with
    | nil =>
        exact ⟨rfl, hcalls⟩
    | cons c before =>
        simp at hcalls
  obtain ⟨hcall, hrest⟩ := List.cons.inj hcall
  obtain ⟨rfl, rfl⟩ := List.append_eq_nil_iff.mp hrest.symm
  cases hcall
  have hstored : ([Call.writeChunk wrappedAbcHash wrappedAbc]).filterMap
      (stored abcExternals abcCodec) =
        [(wrappedAbcHash, abcCodec.chunkToVec wrappedAbc)] := by
    simp only [List.filterMap, stored, dataHash_wrappedAbc]
  have hfirst : ChunkStore.firstStored abcExternals.blake3 OpenRepo.empty.store
      [(wrappedAbcHash, abcCodec.chunkToVec wrappedAbc)] wrappedAbcHash =
        some (abcCodec.chunkToVec wrappedAbc) := by
    rw [ChunkStore.firstStored, if_neg (by decide)]
    simp
  rw [List.nil_append, hstored, dataHash_wrappedAbc, hfirst]
  exact ⟨by decide, _, rfl, chunkFromSlice_wrappedAbc⟩

/-- The caller names the chunk by the hash of its plaintext, and is told that
it does not exist. -/
theorem not_refines_abc :
    ¬ Refines abcExternals ⟨"/data"⟩ abcCodec operator (Server.new [⟨1#128⟩])
      [.writeChunk RecoveryEngine.abcHash wrappedAbc] := by
  intro hrefines
  obtain ⟨hcount, -⟩ := namesAgree_of_refines
    (addressed_new ⟨"/data"⟩ [⟨1#128⟩] _) writesTo_operator hrefines
    [] _ _ [] [] rfl
  rw [Server.repoState_new] at hcount
  apply hcount
  simp only [List.nil_append, List.filterMap, stored, dataHash_wrappedAbc]
  decide

end Example

end BaDouProvider

end Provider
end HyperBackup
