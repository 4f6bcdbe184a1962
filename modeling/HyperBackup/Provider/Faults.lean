import HyperBackup.Provider.ManifestLookup

/-!
# Calls over a network that fails

A call gets to the server and its answer comes back, or only the answer is
lost, or the call itself.  In the last two cases the client sees the same
error, but in one of them the server has done what it was asked for.
-/

namespace HyperBackup
namespace Provider

open Lib Lib.Program Badou

/-- What becomes of a call. -/
inductive Delivery
  | answered
  | unanswered
  | lost
deriving DecidableEq

/-- The server, the number of calls so far, and what becomes of each call. -/
structure Net where
  server : ServerState
  calls : Nat
  fate : Nat → Delivery

namespace Net

variable {α : Type} (x : Server.ServerM α) (net : Net)

/-- The network after a call. -/
def after : Net where
  server :=
    if net.fate net.calls = .lost then net.server else stateAfter x net.server
  calls := net.calls + 1
  fate := net.fate

/-- The client gets the answer of the server, or does not know. -/
def answer : Except Agent.RepoError α :=
  match net.fate net.calls with
  | .answered =>
      (outcome x net.server).mapError fun s => mapClientError (.status s)
  | .unanswered | .lost => .error (mapClientError (.transport ""))

end Net

/-- Every call may fail. -/
def faulty : Transport Net where
  send := fun x net =>
    match net.answer x with
    | .ok a => .ok a (net.after x)
    | .error e => .error e (net.after x)

section Calls

theorem exists_run_of_outcome {σ α : Type} {x : ProviderM σ α} {s : σ} {a : α}
    (h : outcome x s = .ok a) : ∃ s', x.run s = .ok a s' :=
  ⟨_, run_eq_ok_iff.mpr ⟨h, rfl⟩⟩

variable {α : Type} {x : Server.ServerM α} {net net' : Net} {a : α}

theorem stateAfter_faulty : stateAfter (faulty.send x) net = net.after x := by
  simp only [stateAfter, faulty, EStateM.run]
  cases net.answer x with
  | ok a =>
      rfl
  | error e =>
      rfl

theorem outcome_faulty : outcome (faulty.send x) net = net.answer x := by
  simp only [outcome, faulty, EStateM.run]
  cases net.answer x with
  | ok a =>
      rfl
  | error e =>
      rfl

theorem answer_eq_ok_iff : net.answer x = .ok a ↔
    net.fate net.calls = .answered ∧ outcome x net.server = .ok a := by
  unfold Net.answer
  cases hfate : net.fate net.calls with
  | answered =>
      cases outcome x net.server with
      | ok b =>
          simp [Except.mapError]
      | error e =>
          simp [Except.mapError]
  | unanswered =>
      simp
  | lost =>
      simp

theorem run_faulty_eq_ok : (faulty.send x).run net = .ok a net' ↔
    net.fate net.calls = .answered ∧ outcome x net.server = .ok a ∧
      net' = net.after x := by
  rw [run_eq_ok_iff, outcome_faulty, stateAfter_faulty, answer_eq_ok_iff,
    and_assoc]
  exact and_congr_right fun _ => and_congr_right fun _ => eq_comm

end Calls

namespace Net

section Uploads

variable (layout : BadouDataLayout) (r : RepositoryId)

/-- The network after the upload of a chunk that the server accepts. -/
def put (c : ChunkHash × Bytes) (net : Net) : Net where
  server :=
    if net.fate net.calls = .lost then net.server
    else Server.withChunk layout r c.1 c.2 net.server
  calls := net.calls + 1
  fate := net.fate

def puts (chunks : List (ChunkHash × Bytes)) (net : Net) : Net :=
  chunks.foldl (fun net c => put layout r c net) net

end Uploads

end Net

/-- What gets to the server, if the calls begin at the given number. -/
def delivered {α : Type} (fate : Nat → Delivery) : Nat → List α → List α
  | _, [] => []
  | c, x :: xs =>
      if fate c = .lost then delivered fate (c + 1) xs
      else x :: delivered fate (c + 1) xs

theorem mem_of_mem_delivered {α : Type} {fate : Nat → Delivery} {xs : List α}
    {x : α} : ∀ {c : Nat}, x ∈ delivered fate c xs → x ∈ xs := by
  induction xs with
  | nil =>
      intro c hx
      cases hx
  | cons y ys ih =>
      intro c hx
      rw [delivered] at hx
      split at hx
      · exact List.mem_cons_of_mem _ (ih hx)
      · exact List.mem_cons.mpr ((List.mem_cons.mp hx).imp_right ih)

/-- What is not lost is delivered. -/
theorem mem_delivered {α : Type} {fate : Nat → Delivery} {xs : List α} {x : α} :
    ∀ {c i : Nat}, xs[i]? = some x → fate (c + i) ≠ .lost →
      x ∈ delivered fate c xs := by
  induction xs with
  | nil =>
      intro c i hi
      cases hi
  | cons y ys ih =>
      intro c i hi hfate
      rw [delivered]
      cases i with
      | zero =>
          cases hi
          rw [Nat.add_zero] at hfate
          rw [if_neg hfate]
          exact List.mem_cons_self
      | succ i =>
          have hlater : fate (c + 1 + i) ≠ .lost := by
            rwa [Nat.add_right_comm]
          have hmem := ih (List.getElem?_cons_succ.symm.trans hi) hlater
          split
          · exact hmem
          · exact List.mem_cons_of_mem _ hmem

/-- Only chunks have been added to the server. -/
structure OnlyChunks (s s' : ServerState) : Prop where
  versionOps : s'.versionOps = s.versionOps
  catalogs : ∀ r, (Server.repoState s' r).catalog = (Server.repoState s r).catalog
  known : ∀ r, (s'.repos.lookup r).isSome = (s.repos.lookup r).isSome

section Uploads

variable {ext : Externals} {layout : BadouDataLayout} {codec : Codec}
variable {provider : BaDouProvider} {s s' s'' : ServerState} {net : Net}
variable {r : RepositoryId} {chunks : List (ChunkHash × Bytes)}

theorem OnlyChunks.refl (s : ServerState) : OnlyChunks s s :=
  ⟨rfl, fun _ => rfl, fun _ => rfl⟩

theorem OnlyChunks.trans (h : OnlyChunks s s') (h' : OnlyChunks s' s'') :
    OnlyChunks s s'' where
  versionOps := h'.versionOps.trans h.versionOps
  catalogs := fun r => (h'.catalogs r).trans (h.catalogs r)
  known := fun r => (h'.known r).trans (h.known r)

theorem OnlyChunks.writesTo_iff (h : OnlyChunks s s') :
    BaDouProvider.WritesTo ext provider s' r ↔
      BaDouProvider.WritesTo ext provider s r := by
  constructor
  · intro hwrites
    exact ⟨hwrites.authorized, hwrites.parsed, h.known r ▸ hwrites.known⟩
  · intro hwrites
    exact ⟨hwrites.authorized, hwrites.parsed, h.known r ▸ hwrites.known⟩

theorem onlyChunks_withChunk {hash : ChunkHash} {data : Bytes}
    (hknown : (s.repos.lookup r).isSome) :
    OnlyChunks s (Server.withChunk layout r hash data s) where
  versionOps := rfl
  catalogs := by
    intro r'
    rw [Server.withChunk, Server.repoState_setRepo]
    split
    · next hr =>
        rw [hr]
    · rfl
  known := by
    intro r'
    rw [Server.withChunk, Server.setRepo, HashMap.lookup_insert_of]
    split
    · next hr =>
        rw [hr, hknown]
        rfl
    · rfl

/-- An upload adds its chunk or nothing. -/
theorem onlyChunks_chunkPut (request : Request ChunkPutRequest) :
    OnlyChunks s (stateAfter (Server.chunkPut ext layout request) s) := by
  rw [Server.stateAfter_chunkPut]
  cases htarget : Server.putTarget ext s request with
  | none =>
      exact .refl s
  | some target =>
      exact onlyChunks_withChunk (Server.putTarget_eq_some_iff.mp htarget).2.2.2

theorem onlyChunks_after_chunkPut (request : Request ChunkPutRequest) :
    OnlyChunks net.server
      (net.after (Server.chunkPut ext layout request)).server := by
  unfold Net.after
  split
  · exact .refl _
  · exact onlyChunks_chunkPut request

/-- An upload under its own hash that the server accepts. -/
theorem after_chunkPut {data : Bytes}
    (hwrites : BaDouProvider.WritesTo ext provider net.server r) :
    net.after (Server.chunkPut ext layout
        (provider.putRequest (ext.blake3 data) data)) =
      net.put layout r (ext.blake3 data, data) := by
  have htarget := (@BaDouProvider.putTarget_putRequest ext provider net.server r
    data data _).mpr ⟨hwrites, rfl, rfl⟩
  unfold Net.after Net.put
  rw [Server.stateAfter_chunkPut, htarget]

theorem server_put (hknown : (net.server.repos.lookup r).isSome)
    (c : ChunkHash × Bytes) :
    OnlyChunks net.server (net.put layout r c).server := by
  unfold Net.put
  split
  · exact .refl _
  · exact onlyChunks_withChunk hknown

theorem calls_puts (chunks : List (ChunkHash × Bytes)) :
    ∀ net : Net, (net.puts layout r chunks).calls = net.calls + chunks.length := by
  induction chunks with
  | nil =>
      intro net
      rfl
  | cons c chunks ih =>
      intro net
      have hstep : (net.put layout r c).calls = net.calls + 1 := rfl
      rw [Net.puts, List.foldl_cons, ← Net.puts, ih, hstep, List.length_cons]
      omega

theorem fate_puts (chunks : List (ChunkHash × Bytes)) :
    ∀ net : Net, (net.puts layout r chunks).fate = net.fate := by
  induction chunks with
  | nil =>
      intro net
      rfl
  | cons c chunks ih =>
      intro net
      exact ih (net.put layout r c)

theorem onlyChunks_puts (chunks : List (ChunkHash × Bytes)) :
    ∀ net : Net, (net.server.repos.lookup r).isSome →
      OnlyChunks net.server (net.puts layout r chunks).server := by
  induction chunks with
  | nil =>
      intro net _
      exact .refl _
  | cons c chunks ih =>
      intro net hknown
      have hput := @server_put layout net r hknown c
      exact hput.trans (ih (net.put layout r c) (by rw [hput.known, hknown]))

/-- After some uploads the store has the chunks that got to the server. -/
theorem store_puts (chunks : List (ChunkHash × Bytes)) :
    ∀ net : Net, (Server.repoState (net.puts layout r chunks).server r).store =
      stateAfter (ChunkStore.writeChunks layout r
        (delivered net.fate net.calls chunks))
          (Server.repoState net.server r).store := by
  induction chunks with
  | nil =>
      intro net
      rw [ChunkStore.stateAfter_writeChunks]
      rfl
  | cons c chunks ih =>
      intro net
      refine (ih (net.put layout r c)).trans ?_
      rw [ChunkStore.stateAfter_writeChunks, ChunkStore.stateAfter_writeChunks,
        delivered]
      by_cases hlost : net.fate net.calls = .lost
      · simp only [Net.put, hlost, if_true]
      · simp only [Net.put, hlost, if_false, List.foldl_cons, Server.withChunk,
          Server.repoState_setRepo, if_true]

theorem addressed_withChunk {hash : ChunkHash} {data : Bytes}
    (h : ∀ r', (Server.repoState s r').store.Addressed layout r') (r' : RepositoryId) :
    (Server.repoState (Server.withChunk layout r hash data s) r').store.Addressed
      layout r' := by
  rw [Server.withChunk, Server.repoState_setRepo]
  split
  · next hr =>
      subst hr
      exact ChunkStore.addressed_writeChunk (h r')
  · exact h r'

/-- Uploads keep every chunk in its own file. -/
theorem addressed_puts (chunks : List (ChunkHash × Bytes)) :
    ∀ net : Net, (∀ r', (Server.repoState net.server r').store.Addressed layout r') →
      ∀ r', (Server.repoState (net.puts layout r chunks).server
        r').store.Addressed layout r' := by
  induction chunks with
  | nil =>
      intro net h
      exact h
  | cons c chunks ih =>
      intro net h
      refine ih (net.put layout r c) fun r' => ?_
      by_cases hlost : net.fate net.calls = .lost
      · simp only [Net.put, hlost, if_true]
        exact h r'
      · simp only [Net.put, hlost, if_false]
        exact addressed_withChunk h r'

theorem puts_append (chunks later : List (ChunkHash × Bytes)) (net : Net) :
    net.puts layout r (chunks ++ later) =
      (net.puts layout r chunks).puts layout r later :=
  List.foldl_append

end Uploads

/-- The network after a call that leaves the server alone. -/
def Net.tick (net : Net) : Net :=
  { net with calls := net.calls + 1 }

@[simp] theorem Net.server_tick (net : Net) : net.tick.server = net.server :=
  rfl

theorem Net.after_of_unchanged {α : Type} {x : Server.ServerM α} {net : Net}
    (h : stateAfter x net.server = net.server) : net.after x = net.tick := by
  unfold Net.after Net.tick
  rw [h, ite_self]

namespace BaDouProvider

section Operations

variable {ext : Externals} {layout : BadouDataLayout} {codec : Codec}
variable {provider : BaDouProvider} {net : Net}

theorem stateAfter_createRepo (draws : CreateDraws) :
    stateAfter (createRepo faulty provider draws) net =
      net.after (Server.repositoryCreate draws provider.createRequest) := by
  unfold createRepo
  rw [stateAfter_bind, stateAfter_faulty]
  split
  · rfl
  · rfl

/-- The client knows of a new repository if the server has created one and the
answer came back. -/
theorem outcome_createRepo_eq_ok_iff {draws : CreateDraws} {repoId : String} :
    outcome (createRepo faulty provider draws) net = .ok repoId ↔
      net.fate net.calls = .answered ∧
      (Server.createTarget net.server draws provider.createRequest).isSome ∧
      repoId = uuidText draws.repoId.uuid := by
  have hanswer : ∀ info, outcome (Server.repositoryCreate draws
      provider.createRequest) net.server = .ok info ↔
        ∃ config, Server.createTarget net.server draws provider.createRequest =
          some config ∧ info = Convert.repoToPbInfo draws config := by
    intro info
    cases htarget : Server.createTarget net.server draws
        provider.createRequest with
    | none =>
        obtain ⟨status, hrun⟩ := Server.run_repositoryCreate_of_none htarget
        simp [outcome, hrun]
    | some config =>
        simp [outcome, Server.run_repositoryCreate htarget, eq_comm]
  unfold createRepo
  constructor
  · intro houtcome
    obtain ⟨net', hrun⟩ := exists_run_of_outcome houtcome
    obtain ⟨info, net₁, hsend, hrest⟩ := run_bind_eq_ok.mp hrun
    obtain ⟨hfate, hinfo, -⟩ := run_faulty_eq_ok.mp hsend
    obtain ⟨config, htarget, hconfig⟩ := (hanswer info).mp hinfo
    obtain ⟨hid, -⟩ := EStateM.Result.ok.inj hrest
    refine ⟨hfate, Option.isSome_iff_exists.mpr ⟨config, htarget⟩, ?_⟩
    rw [← hid, hconfig]
    rfl
  · rintro ⟨hfate, hcreated, rfl⟩
    obtain ⟨config, htarget⟩ := Option.isSome_iff_exists.mp hcreated
    have hsend := run_faulty_eq_ok.mpr
      ⟨hfate, (hanswer _).mpr ⟨config, htarget, rfl⟩, rfl⟩
    rw [outcome_bind_of_run hsend]
    rfl

theorem stateAfter_writeChunk_faulty (h : ChunkHash) (e : Agent.EncryptedChunk) :
    stateAfter (writeChunk faulty ext layout codec provider h e) net =
      net.after (Server.chunkPut ext layout (provider.putRequest
        (dataHash ext codec e) (codec.chunkToVec e))) := by
  unfold writeChunk
  rw [stateAfter_bind, stateAfter_faulty]
  split
  · rfl
  · rfl

/-- The client knows that a chunk was written if the server has accepted it and
the answer came back. -/
theorem outcome_writeChunk_faulty_eq_ok_iff {h : ChunkHash}
    {e : Agent.EncryptedChunk} {location : Agent.ChunkLocation} :
    outcome (writeChunk faulty ext layout codec provider h e) net =
        .ok location ↔
      net.fate net.calls = .answered ∧
      (∃ r, WritesTo ext provider net.server r) ∧
      location = makeLocation (dataHash ext codec e).toHex := by
  unfold writeChunk
  constructor
  · intro houtcome
    obtain ⟨net', hrun⟩ := exists_run_of_outcome houtcome
    obtain ⟨info, net₁, hsend, hrest⟩ := run_bind_eq_ok.mp hrun
    obtain ⟨hfate, hinfo, -⟩ := run_faulty_eq_ok.mp hsend
    obtain ⟨⟨r, hash, data⟩, htarget⟩ := Server.exists_putTarget hinfo
    cases hrest
    exact ⟨hfate, ⟨r, (putTarget_putRequest.mp htarget).1⟩, rfl⟩
  · rintro ⟨hfate, ⟨r, hwrites⟩, rfl⟩
    obtain ⟨info, hput⟩ := @Server.run_chunkPut ext layout net.server r _ _ _
      (putTarget_putRequest.mpr ⟨hwrites, rfl, rfl⟩)
    have hsend := run_faulty_eq_ok.mpr
      ⟨hfate, (run_eq_ok_iff.mp hput).1, rfl⟩
    rw [outcome_bind_of_run hsend]
    rfl

theorem stateAfter_chunkGet (request : Request ChunkGetRequest)
    (s : ServerState) : stateAfter (Server.chunkGet ext request) s = s :=
  preserves_chunkGet request (· = s) s rfl

theorem stateAfter_snapshotList (request : Request SnapshotListRequest)
    (s : ServerState) : stateAfter (Server.snapshotList ext request) s = s := by
  have hkeeps : Preserves (Server.snapshotList ext request) (· = s) := by
    refine preserves_bind (preserves_ofResult _ _ _) fun _ => ?_
    refine preserves_bind (preserves_ofResult _ _ _) fun _ => ?_
    refine preserves_bind (fun s h => h) fun _ => ?_
    exact preserves_bind (preserves_openRepo _ _) fun _ => preserves_pure _ _
  exact hkeeps s rfl

/-- A chunk is read if the answer comes back; the server stays as it is. -/
theorem stateAfter_readChunk_faulty (location : Agent.ChunkLocation) :
    stateAfter (readChunk faulty ext codec provider location) net = net.tick := by
  unfold readChunk
  simp only [stateAfter_bind, stateAfter_faulty, stateAfter_ofResult,
    Net.after_of_unchanged (stateAfter_chunkGet _ _)]
  split
  · rfl
  · rfl

theorem outcome_readChunk_faulty_eq_ok_iff {location : Agent.ChunkLocation}
    {e : Agent.EncryptedChunk} :
    outcome (readChunk faulty ext codec provider location) net = .ok e ↔
      net.fate net.calls = .answered ∧
      outcome (readChunk reliable ext codec provider location) net.server =
        .ok e := by
  unfold readChunk
  constructor
  · intro houtcome
    obtain ⟨net', hrun⟩ := exists_run_of_outcome houtcome
    obtain ⟨chunk, net₁, hsend, hdecode⟩ := run_bind_eq_ok.mp hrun
    obtain ⟨hfate, hchunk, -⟩ := run_faulty_eq_ok.mp hsend
    have hget := run_reliable_eq_ok.mpr (run_eq_ok_iff.mpr ⟨hchunk, rfl⟩)
    refine ⟨hfate, (outcome_bind_of_run hget).trans ?_⟩
    exact (run_eq_ok_iff.mp (run_ofResult_eq_ok.mpr
      ⟨(run_ofResult_eq_ok.mp hdecode).1, rfl⟩)).1
  · rintro ⟨hfate, houtcome⟩
    obtain ⟨s', hrun⟩ := exists_run_of_outcome houtcome
    obtain ⟨chunk, s₁, hget, hdecode⟩ := run_bind_eq_ok.mp hrun
    have hsend := run_faulty_eq_ok.mpr ⟨hfate,
      (run_eq_ok_iff.mp (run_reliable_eq_ok.mp hget)).1, rfl⟩
    refine (outcome_bind_of_run hsend).trans ?_
    exact (run_eq_ok_iff.mp (run_ofResult_eq_ok.mpr
      ⟨(run_ofResult_eq_ok.mp hdecode).1, rfl⟩)).1

end Operations

section Manifests

variable {ext : Externals} {layout : BadouDataLayout} {codec : Codec}
variable {provider : BaDouProvider} {net net' : Net} {draws : ManifestDraws}
variable {v : VersionId} {m : Agent.Manifest}

/-- What was fetched is read as a manifest, whatever the state. -/
theorem run_unpack_eq_ok {σ : Type} {s s' : σ} {data : Bytes} :
    ((do
        let json ← ofResult invalid (codec.decodeAll data)
        ofResult invalid (codec.manifestFromSlice json) :
        ProviderM σ Agent.Manifest).run s = .ok m s') ↔
      unpack codec data = .ok m ∧ s' = s := by
  unfold unpack
  cases codec.decodeAll data with
  | error e =>
      constructor
      · intro h
        cases h
      · rintro ⟨h, -⟩
        cases h
  | ok json =>
      exact run_ofResult_eq_ok

/-- A call that leaves the server as it is. -/
theorem run_faulty_of_unchanged {α : Type} {x : Server.ServerM α} {a : α}
    (hunchanged : ∀ s, stateAfter x s = s) :
    (faulty.send x).run net = .ok a net' ↔
      net.fate net.calls = .answered ∧
        (reliable.send x).run net.server = .ok a net.server ∧ net' = net.tick := by
  rw [run_faulty_eq_ok, Net.after_of_unchanged (hunchanged _), run_reliable_eq_ok,
    run_eq_ok_iff, and_iff_left (hunchanged _)]

theorem eq_of_run_reliable {α : Type} {x : Server.ServerM α} {a : α}
    {s s' : ServerState} (hunchanged : ∀ s, stateAfter x s = s)
    (hrun : (reliable.send x).run s = .ok a s') : s' = s :=
  (run_eq_ok_iff.mp (run_reliable_eq_ok.mp hrun)).2.symm.trans (hunchanged s)

/-- A manifest is read if both calls are answered; the server stays as it is. -/
theorem run_readManifest_faulty_eq_ok :
    (readManifest faulty ext codec provider v).run net = .ok m net' ↔
      (net.fate net.calls = .answered ∧ net.fate (net.calls + 1) = .answered) ∧
      outcome (readManifest reliable ext codec provider v) net.server = .ok m ∧
      net' = net.tick.tick := by
  constructor
  · intro hrun
    obtain ⟨response, net₁, hsend, hrest⟩ := run_bind_eq_ok.mp hrun
    obtain ⟨hfate, hreliable, rfl⟩ :=
      (run_faulty_of_unchanged (stateAfter_snapshotList _)).mp hsend
    cases hfind : response.snapshots.find? fun s =>
        s.versionId = uuidText v.uuid with
    | none =>
        rw [hfind] at hrest
        cases hrest
    | some snapshot =>
        rw [hfind] at hrest
        obtain ⟨chunk, net₂, hsend', hdecode⟩ := run_bind_eq_ok.mp hrest
        obtain ⟨hfate', hreliable', rfl⟩ :=
          (run_faulty_of_unchanged (stateAfter_chunkGet _)).mp hsend'
        obtain ⟨hunpack, rfl⟩ := run_unpack_eq_ok.mp hdecode
        refine ⟨⟨hfate, hfate'⟩, ?_, rfl⟩
        unfold readManifest
        rw [outcome_bind_of_run hreliable]
        simp only [hfind]
        rw [Net.server_tick] at hreliable'
        rw [outcome_bind_of_run hreliable']
        exact (run_eq_ok_iff.mp (run_unpack_eq_ok.mpr ⟨hunpack, rfl⟩)).1
  · rintro ⟨⟨hfate, hfate'⟩, houtcome, rfl⟩
    obtain ⟨s', hrun⟩ := exists_run_of_outcome houtcome
    obtain ⟨response, s₁, hsend, hrest⟩ := run_bind_eq_ok.mp hrun
    obtain rfl := eq_of_run_reliable (stateAfter_snapshotList _) hsend
    cases hfind : response.snapshots.find? fun s =>
        s.versionId = uuidText v.uuid with
    | none =>
        rw [hfind] at hrest
        cases hrest
    | some snapshot =>
        rw [hfind] at hrest
        obtain ⟨chunk, s₂, hsend', hdecode⟩ := run_bind_eq_ok.mp hrest
        obtain rfl := eq_of_run_reliable (stateAfter_chunkGet _) hsend'
        obtain ⟨hunpack, -⟩ := run_unpack_eq_ok.mp hdecode
        unfold readManifest
        rw [run_bind_of_ok ((run_faulty_of_unchanged (stateAfter_snapshotList _)).mpr
          ⟨hfate, hsend, rfl⟩)]
        simp only [hfind]
        have hfetch := (@run_faulty_of_unchanged net.tick _ _ _ _
          (stateAfter_chunkGet _)).mpr ⟨hfate', hsend', rfl⟩
        rw [run_bind_of_ok hfetch]
        exact run_unpack_eq_ok.mpr ⟨hunpack, rfl⟩

/-- The upload of a manifest, the first of its two calls. -/
def manifestPut (ext : Externals) (layout : BadouDataLayout) (codec : Codec)
    (provider : BaDouProvider) (m : Agent.Manifest) : Server.ServerM ChunkInfo :=
  Server.chunkPut ext layout
    (provider.putRequest (packedChunk ext codec m).1 (packed codec m))

/-- The commit of its snapshot, the second one. -/
def manifestCommit (ext : Externals) (layout : BadouDataLayout) (codec : Codec)
    (provider : BaDouProvider) (draws : ManifestDraws) (v : VersionId)
    (m : Agent.Manifest) : Server.ServerM SnapshotCommitResponse :=
  Server.snapshotCommit ext layout draws.request
    (provider.commitRequest draws v (packedChunk ext codec m).1.toHex)

/-- The commit is sent if the upload is confirmed. -/
theorem stateAfter_writeManifest_faulty {data : Bytes}
    (hencode : codec.encodeAll (codec.manifestToVec m) = .ok data) :
    stateAfter (writeManifest faulty ext layout codec provider draws v m) net =
      match net.answer (manifestPut ext layout codec provider m) with
      | .ok _ => (net.after (manifestPut ext layout codec provider m)).after
          (manifestCommit ext layout codec provider draws v m)
      | .error _ => net.after (manifestPut ext layout codec provider m) := by
  have hpacked : packed codec m = data := by
    rw [packed, hencode]
    rfl
  unfold writeManifest manifestPut manifestCommit packedChunk
  rw [hpacked, hencode]
  simp only [ofResult, pure_bind]
  rw [stateAfter_bind, stateAfter_faulty, outcome_faulty]
  simp only [stateAfter_bind_pure, stateAfter_faulty]
  cases net.answer (Server.chunkPut ext layout
      (provider.putRequest (ext.blake3 data) data)) with
  | ok info =>
      rfl
  | error e =>
      rfl

theorem fate_writeManifest_faulty {data : Bytes}
    (hencode : codec.encodeAll (codec.manifestToVec m) = .ok data) :
    (stateAfter (writeManifest faulty ext layout codec provider draws v m)
      net).fate = net.fate := by
  rw [stateAfter_writeManifest_faulty hencode]
  cases net.answer (manifestPut ext layout codec provider m) with
  | ok info =>
      rfl
  | error e =>
      rfl

/-- A manifest whose commit is not sent or gets lost adds a chunk at most. -/
theorem onlyChunks_writeManifest_faulty
    (h : ∀ r, WritesTo ext provider net.server r →
      net.fate net.calls = .answered → net.fate (net.calls + 1) = .lost) :
    OnlyChunks net.server (stateAfter
      (writeManifest faulty ext layout codec provider draws v m) net).server := by
  cases hencode : codec.encodeAll (codec.manifestToVec m) with
  | error e =>
      unfold writeManifest
      rw [hencode]
      exact .refl _
  | ok data =>
      have hput : OnlyChunks net.server
          (net.after (manifestPut ext layout codec provider m)).server :=
        onlyChunks_after_chunkPut _
      rw [stateAfter_writeManifest_faulty hencode]
      cases hanswer : net.answer (manifestPut ext layout codec provider m) with
      | error e =>
          exact hput
      | ok info =>
          obtain ⟨hfate, houtcome⟩ := answer_eq_ok_iff.mp hanswer
          obtain ⟨⟨r, hash, d⟩, htarget⟩ := Server.exists_putTarget houtcome
          have hlost := h r (putTarget_putRequest.mp htarget).1 hfate
          have hcommit : ((net.after (manifestPut ext layout codec provider m)).after
              (manifestCommit ext layout codec provider draws v m)).server =
                (net.after (manifestPut ext layout codec provider m)).server :=
            if_pos hlost
          rw [hcommit]
          exact hput

/-- If the upload is confirmed and the commit gets to the server, the server has
done what it does if all is answered. -/
theorem server_writeManifest_faulty {r : RepositoryId} {data : Bytes}
    (hencode : codec.encodeAll (codec.manifestToVec m) = .ok data)
    (hwrites : WritesTo ext provider net.server r)
    (hfate : net.fate net.calls = .answered)
    (hcommit : net.fate (net.calls + 1) ≠ .lost) :
    (stateAfter (writeManifest faulty ext layout codec provider draws v m)
      net).server =
        writeOne ext layout codec provider net.server ⟨draws, v, m⟩ := by
  have hpacked : packed codec m = data := by
    rw [packed, hencode]
    rfl
  have htarget : Server.putTarget ext net.server (provider.putRequest
      (packedChunk ext codec m).1 (packed codec m)) =
        some (r, (packedChunk ext codec m).1, packed codec m) :=
    putTarget_putRequest.mpr ⟨hwrites, rfl, rfl⟩
  obtain ⟨info, hput⟩ := @Server.run_chunkPut ext layout net.server r _ _ _ htarget
  have hanswer : net.answer (manifestPut ext layout codec provider m) = .ok info :=
    answer_eq_ok_iff.mpr ⟨hfate, (run_eq_ok_iff.mp hput).1⟩
  have hserver : (net.after (manifestPut ext layout codec provider m)).server =
      stateAfter (manifestPut ext layout codec provider m) net.server :=
    if_neg (by rw [hfate]; exact Delivery.noConfusion)
  have hafter : ((net.after (manifestPut ext layout codec provider m)).after
      (manifestCommit ext layout codec provider draws v m)).server =
        stateAfter (manifestCommit ext layout codec provider draws v m)
          (stateAfter (manifestPut ext layout codec provider m) net.server) := by
    rw [← hserver]
    exact if_neg hcommit
  have hone : writeOne ext layout codec provider net.server ⟨draws, v, m⟩ =
      stateAfter (manifestCommit ext layout codec provider draws v m)
        (stateAfter (manifestPut ext layout codec provider m) net.server) := by
    unfold writeOne writeManifest manifestPut manifestCommit packedChunk
    unfold packedChunk at hput
    rw [hpacked] at hput ⊢
    simp only [hencode, ofResult, pure_bind]
    rw [stateAfter_bind_of_run (run_reliable_eq_ok.mpr hput),
      stateAfter_bind_pure, stateAfter_reliable, (run_eq_ok_iff.mp hput).2]
  rw [stateAfter_writeManifest_faulty hencode, hanswer, hone]
  exact hafter

end Manifests

end BaDouProvider

end Provider
end HyperBackup
