import HyperBackup.Agent.Domain
import HyperBackup.Lib.StreamCut

/-!
# The content-defined chunker

`FastCdcChunker` reads into a buffer and cuts chunks off it.  The boundary is
where a running hash of the bytes behind the minimal size meets a mask, and
after the maximal size at the latest.  A boundary at the end of the buffer is
not taken: more bytes are read first, and at the end of the file the buffer is
the last chunk.

A boundary before the end of the buffer does not depend on what follows, so the
chunks are those of the whole content.  The mask comes from a computation with
floating-point numbers, and every mask will do.  The receiver takes all chunks.
-/

namespace HyperBackup
namespace Agent

open Lib.StreamCut

structure FastCdcChunker where
  minSize : Nat
  avgSize : Nat
  maxSize : Nat

/-- Where the chunker stands; the buffer holds what is not yet cut. -/
structure CdcState where
  offset : UInt64
  buf : Bytes
  sent : List RawChunkData

namespace FastCdcChunker

section Operations

variable (mask : UInt64) (c : FastCdcChunker)

/-- The position behind the first byte from `i` on at which the hash meets the
mask. -/
def searchBoundary : UInt64 → Nat → Bytes → Option Nat
  | _, _, [] => none
  | hash, i, byte :: bytes =>
      let hash := hash <<< 1 + byte.toUInt64
      if hash &&& mask = 0 then some (i + 1) else searchBoundary hash (i + 1) bytes

def findCdcBoundary (data : Bytes) : Nat :=
  if data.length ≤ c.minSize then data.length
  else
    let last := min data.length c.maxSize
    (searchBoundary mask 0 c.minSize ((data.take last).drop c.minSize)).getD last

/-- Send the first bytes of the buffer. -/
def emit (boundary : Nat) (s : CdcState) : CdcState where
  offset := s.offset + UInt64.ofNat boundary
  buf := s.buf.drop boundary
  sent := s.sent ++ [{ offset := s.offset.toNat, data := s.buf.take boundary }]

/-- Cut chunks off the buffer; `none` if the fuel does not suffice. -/
def cutLoop : Nat → CdcState → Option CdcState
  | 0, _ => none
  | fuel + 1, s =>
      if c.minSize ≤ s.buf.length then
        let boundary := findCdcBoundary mask c s.buf
        if boundary < s.buf.length then cutLoop fuel (emit boundary s) else some s
      else some s

/-- Send what is left in the buffer. -/
def finish (s : CdcState) : CdcState :=
  if s.buf = [] then s
  else
    { s with
      buf := []
      sent := s.sent ++ [{ offset := s.offset.toNat, data := s.buf }] }

/-- The loop over the reads.  A read of no bytes is the end of the file, and
after an error what is in the buffer is lost. -/
def chunkLoop (fuel : Nat) : List (Except String Bytes) → CdcState → Option CdcState
  | [], s => some (finish s)
  | .ok [] :: _, s => some (finish s)
  | .error _ :: _, s => some s
  | .ok bytes :: reads, s =>
      match cutLoop mask c fuel { s with buf := s.buf ++ bytes } with
      | none => none
      | some s' => chunkLoop fuel reads s'

/-- The chunks that are sent for the reads. -/
def chunk (fuel : Nat) (reads : List (Except String Bytes)) :
    Option (List RawChunkData) :=
  (chunkLoop mask c fuel reads { offset := 0, buf := [], sent := [] }).map
    CdcState.sent

end Operations

/-- The chunks make up the content, at the offsets where they stand in it, and
have the sizes that they should have. -/
structure WellChunked (c : FastCdcChunker) (content : Bytes)
    (chunks : List RawChunkData) : Prop where
  content : chunks.flatMap RawChunkData.data = content
  offsets : ∀ i chunk, chunks[i]? = some chunk →
    chunk.offset = ((chunks.take i).flatMap RawChunkData.data).length
  minimal : ∀ i chunk, i + 1 < chunks.length → chunks[i]? = some chunk →
    c.minSize ≤ chunk.data.length
  sizes : ∀ chunk ∈ chunks, 1 ≤ chunk.data.length ∧ chunk.data.length ≤ c.maxSize

/-- The reads deliver the content, each some bytes but not more than fit into
the read buffer. -/
structure Delivers (c : FastCdcChunker) (content : Bytes) (reads : List Bytes) :
    Prop where
  content : reads.flatten = content
  nonempty : ∀ r ∈ reads, r ≠ []
  fits : ∀ r ∈ reads, r.length ≤ c.avgSize

section Boundaries

variable {mask : UInt64} {c : FastCdcChunker}

/-- The boundary is behind a byte that was looked at. -/
theorem searchBoundary_bounds {bytes : Bytes} {hash : UInt64} {i k : Nat}
    (h : searchBoundary mask hash i bytes = some k) :
    i < k ∧ k ≤ i + bytes.length := by
  induction bytes generalizing hash i with
  | nil =>
      cases h
  | cons byte bytes ih =>
      rw [searchBoundary] at h
      rw [List.length_cons]
      split at h
      · obtain rfl := Option.some.inj h
        omega
      · have hrest := ih h
        omega

/-- A boundary that was found is found again if more bytes come. -/
theorem searchBoundary_append {bytes : Bytes} {hash : UInt64} {i k : Nat}
    (h : searchBoundary mask hash i bytes = some k) (more : Bytes) :
    searchBoundary mask hash i (bytes ++ more) = some k := by
  induction bytes generalizing hash i with
  | nil =>
      cases h
  | cons byte bytes ih =>
      rw [List.cons_append, searchBoundary]
      rw [searchBoundary] at h
      split at h
      · next hmask =>
          rw [if_pos hmask]
          exact h
      · next hmask =>
          rw [if_neg hmask]
          exact ih h

/-- The bytes that are searched. -/
theorem length_searched (data : Bytes) :
    ((data.take (min data.length c.maxSize)).drop c.minSize).length =
      min data.length c.maxSize - c.minSize := by
  rw [List.length_drop, List.length_take]
  omega

theorem findCdcBoundary_of_lt {data : Bytes} (h : c.minSize < data.length) :
    findCdcBoundary mask c data =
      (searchBoundary mask 0 c.minSize
        ((data.take (min data.length c.maxSize)).drop c.minSize)).getD
        (min data.length c.maxSize) :=
  if_neg (Nat.not_le.mpr h)

theorem findCdcBoundary_of_le {data : Bytes} (h : data.length ≤ c.minSize) :
    findCdcBoundary mask c data = data.length :=
  if_pos h

theorem findCdcBoundary_bounds (hle : c.minSize ≤ c.maxSize) (data : Bytes) :
    findCdcBoundary mask c data ≤ data.length ∧
      findCdcBoundary mask c data ≤ c.maxSize ∧
      (findCdcBoundary mask c data = data.length ∨
        c.minSize ≤ findCdcBoundary mask c data) := by
  by_cases hshort : data.length ≤ c.minSize
  · rw [findCdcBoundary_of_le hshort]
    exact ⟨Nat.le_refl _, hshort.trans hle, Or.inl rfl⟩
  · rw [findCdcBoundary_of_lt (Nat.not_le.mp hshort)]
    cases hsearch : searchBoundary mask 0 c.minSize
        ((data.take (min data.length c.maxSize)).drop c.minSize) with
    | none =>
        rw [Option.getD_none]
        omega
    | some k =>
        have hbounds := searchBoundary_bounds hsearch
        rw [length_searched] at hbounds
        rw [Option.getD_some]
        omega

/-- The boundary does not depend on what comes behind it. -/
theorem findCdcBoundary_append (data more : Bytes)
    (hlt : findCdcBoundary mask c data < data.length) :
    findCdcBoundary mask c (data ++ more) = findCdcBoundary mask c data := by
  have hlong : c.minSize < data.length := by
    by_contra hshort
    rw [findCdcBoundary_of_le (Nat.not_lt.mp hshort)] at hlt
    exact Nat.lt_irrefl _ hlt
  have hlong' : c.minSize < (data ++ more).length := by
    rw [List.length_append]
    omega
  rw [findCdcBoundary_of_lt hlong] at hlt ⊢
  rw [findCdcBoundary_of_lt hlong']
  by_cases hmax : data.length ≤ c.maxSize
  · -- All that has arrived is searched, and the boundary was found in it.
    rw [Nat.min_eq_left hmax, List.take_length] at hlt ⊢
    cases hsearch : searchBoundary mask 0 c.minSize (data.drop c.minSize) with
    | none =>
        rw [hsearch, Option.getD_none] at hlt
        exact absurd hlt (Nat.lt_irrefl _)
    | some k =>
        have htake : (data ++ more).take (min (data ++ more).length c.maxSize) =
            data ++ more.take (min (data ++ more).length c.maxSize - data.length) := by
          rw [List.take_append, List.take_of_length_le]
          rw [List.length_append]
          omega
        rw [htake, List.drop_append_of_le_length (Nat.le_of_lt hlong),
          searchBoundary_append hsearch]
        rfl
  · -- The search ends at the maximal size, with and without the other bytes.
    have hmin : min (data ++ more).length c.maxSize = c.maxSize := by
      rw [List.length_append]
      omega
    rw [Nat.min_eq_right (Nat.le_of_not_le hmax), hmin,
      List.take_append_of_le_length (Nat.le_of_not_le hmax)]

theorem stable_findCdcBoundary (hmin : 0 < c.minSize) (hle : c.minSize ≤ c.maxSize) :
    Stable (findCdcBoundary mask c) where
  le_length := fun data => (findCdcBoundary_bounds hle data).1
  pos := by
    intro data hdata
    have hlen := List.length_pos_iff.mpr hdata
    have hbounds := @findCdcBoundary_bounds mask c hle data
    omega
  append := fun data more hlt => findCdcBoundary_append data more hlt

end Boundaries

section Located

/-- The pieces with the offsets where they stand. -/
def located : UInt64 → List Bytes → List RawChunkData
  | _, [] => []
  | offset, p :: pieces =>
      { offset := offset.toNat, data := p } ::
        located (offset + UInt64.ofNat p.length) pieces

/-- The offset behind the pieces. -/
def advance (offset : UInt64) (pieces : List Bytes) : UInt64 :=
  offset + UInt64.ofNat pieces.flatten.length

theorem advance_cons (offset : UInt64) (p : Bytes) (pieces : List Bytes) :
    advance offset (p :: pieces) =
      advance (offset + UInt64.ofNat p.length) pieces := by
  rw [advance, advance, List.flatten_cons, List.length_append, UInt64.ofNat_add,
    UInt64.add_assoc]

theorem located_append (offset : UInt64) (pieces more : List Bytes) :
    located offset (pieces ++ more) =
      located offset pieces ++ located (advance offset pieces) more := by
  induction pieces generalizing offset with
  | nil =>
      simp [located, advance]
  | cons p pieces ih =>
      rw [List.cons_append, located, located, ih, advance_cons, List.cons_append]

theorem map_data_located (offset : UInt64) (pieces : List Bytes) :
    (located offset pieces).map RawChunkData.data = pieces := by
  induction pieces generalizing offset with
  | nil =>
      rfl
  | cons p pieces ih =>
      rw [located, List.map_cons, ih]

theorem flatMap_data_take_located (offset : UInt64) (pieces : List Bytes) (i : Nat) :
    ((located offset pieces).take i).flatMap RawChunkData.data =
      (pieces.take i).flatten := by
  rw [List.flatMap_def, List.map_take, map_data_located]

theorem getElem?_located {offset : UInt64} {pieces : List Bytes} {i : Nat}
    {chunk : RawChunkData} (h : (located offset pieces)[i]? = some chunk) :
    pieces[i]? = some chunk.data ∧
      chunk.offset = (advance offset (pieces.take i)).toNat := by
  induction pieces generalizing offset i with
  | nil =>
      cases h
  | cons p pieces ih =>
      cases i with
      | zero =>
          obtain rfl := Option.some.inj h
          simp [advance]
      | succ i =>
          rw [List.take_succ_cons, advance_cons]
          exact ih h

end Located

section Loops

variable {mask : UInt64} {c : FastCdcChunker}

/-- Pieces have been cut off the buffer, and they are the first pieces of what
the buffer becomes when more is read. -/
structure Emits (mask : UInt64) (c : FastCdcChunker) (s s' : CdcState)
    (pieces : List Bytes) : Prop where
  sent : s'.sent = s.sent ++ located s.offset pieces
  offset : s'.offset = advance s.offset pieces
  length_le : s'.buf.length ≤ s.buf.length
  cuts : ∀ more rest, Cuts (findCdcBoundary mask c) (s'.buf ++ more) rest →
    Cuts (findCdcBoundary mask c) (s.buf ++ more) (pieces ++ rest)

/-- No chunk can be cut off the buffer before more is read. -/
def Settled (mask : UInt64) (c : FastCdcChunker) (s : CdcState) : Prop :=
  findCdcBoundary mask c s.buf = s.buf.length

theorem emits_refl (s : CdcState) : Emits mask c s s [] where
  sent := by simp [located]
  offset := by simp [advance]
  length_le := Nat.le_refl _
  cuts := fun _ _ h => h

theorem emits_emit {s s' : CdcState} {pieces : List Bytes}
    (hstable : Stable (findCdcBoundary mask c))
    (hlt : findCdcBoundary mask c s.buf < s.buf.length)
    (h : Emits mask c (emit (findCdcBoundary mask c s.buf) s) s' pieces) :
    Emits mask c s s' (s.buf.take (findCdcBoundary mask c s.buf) :: pieces) where
  sent := by
    rw [h.sent, located, List.length_take, Nat.min_eq_left (Nat.le_of_lt hlt)]
    simp [emit]
  offset := by
    rw [h.offset, advance_cons, List.length_take, Nat.min_eq_left (Nat.le_of_lt hlt)]
    rfl
  length_le := by
    refine h.length_le.trans ?_
    rw [emit, List.length_drop]
    exact Nat.sub_le _ _
  cuts := by
    intro more rest hrest
    exact Cuts.cons_append hstable hlt (h.cuts more rest hrest)

theorem cutLoop_spec (hstable : Stable (findCdcBoundary mask c)) :
    ∀ fuel s, s.buf.length < fuel →
      ∃ s' pieces, cutLoop mask c fuel s = some s' ∧ Settled mask c s' ∧
        Emits mask c s s' pieces := by
  intro fuel
  induction fuel with
  | zero =>
      intro s hfuel
      cases hfuel
  | succ fuel ih =>
      intro s hfuel
      by_cases hmin : c.minSize ≤ s.buf.length
      · by_cases hlt : findCdcBoundary mask c s.buf < s.buf.length
        · have hne : s.buf ≠ [] := by
            intro hnil
            rw [hnil] at hlt
            cases hlt
          have hpos := hstable.pos s.buf hne
          have hshorter : (emit (findCdcBoundary mask c s.buf) s).buf.length <
              fuel := by
            rw [emit, List.length_drop]
            omega
          obtain ⟨s', pieces, hloop, hsettled, hemits⟩ := ih _ hshorter
          refine ⟨s', _, ?_, hsettled, emits_emit hstable hlt hemits⟩
          rw [cutLoop, if_pos hmin]
          exact (if_pos hlt).trans hloop
        · refine ⟨s, [], ?_, ?_, emits_refl s⟩
          · rw [cutLoop, if_pos hmin]
            exact if_neg hlt
          · exact Nat.le_antisymm (hstable.le_length s.buf) (Nat.not_lt.mp hlt)
      · refine ⟨s, [], ?_, ?_, emits_refl s⟩
        · rw [cutLoop, if_neg hmin]
        · exact findCdcBoundary_of_le (Nat.le_of_not_le hmin)

/-- The rest of the buffer is the last piece. -/
theorem finish_spec {s : CdcState} (h : Settled mask c s) :
    ∃ pieces, Cuts (findCdcBoundary mask c) s.buf pieces ∧
      (finish s).sent = s.sent ++ located s.offset pieces := by
  by_cases hbuf : s.buf = []
  · refine ⟨[], hbuf ▸ Cuts.nil, ?_⟩
    rw [finish, if_pos hbuf, located, List.append_nil]
  · refine ⟨[s.buf], Cuts.singleton hbuf h, ?_⟩
    rw [finish, if_neg hbuf]
    rfl

theorem chunkLoop_spec (hstable : Stable (findCdcBoundary mask c)) (fuel : Nat) :
    ∀ (reads : List Bytes) s, (∀ r ∈ reads, r ≠ []) → Settled mask c s →
      s.buf.length + reads.flatten.length < fuel →
      ∃ s' pieces, chunkLoop mask c fuel (reads.map .ok) s = some s' ∧
        Cuts (findCdcBoundary mask c) (s.buf ++ reads.flatten) pieces ∧
        s'.sent = s.sent ++ located s.offset pieces := by
  intro reads
  induction reads with
  | nil =>
      intro s _ hsettled _
      obtain ⟨pieces, hcuts, hsent⟩ := finish_spec hsettled
      refine ⟨finish s, pieces, rfl, ?_, hsent⟩
      rwa [List.flatten_nil, List.append_nil]
  | cons bytes reads ih =>
      intro s hne _ hfuel
      rw [List.flatten_cons, List.length_append] at hfuel
      have hread : ({ s with buf := s.buf ++ bytes } : CdcState).buf.length < fuel := by
        rw [List.length_append]
        omega
      obtain ⟨s₁, first, hloop, hsettled, hemits⟩ := cutLoop_spec hstable fuel _ hread
      have hshort := hemits.length_le
      rw [List.length_append] at hshort
      obtain ⟨s', pieces, hrest, hcuts, hsent⟩ := ih s₁
        (fun r hr => hne r (List.mem_cons_of_mem _ hr)) hsettled (by omega)
      refine ⟨s', first ++ pieces, ?_, ?_, ?_⟩
      · cases bytes with
        | nil =>
            exact absurd rfl (hne [] List.mem_cons_self)
        | cons byte bytes =>
            rw [List.map_cons, chunkLoop, hloop]
            exact hrest
            nofun
      · rw [List.flatten_cons, ← List.append_assoc]
        exact hemits.cuts _ _ hcuts
      · rw [hsent, hemits.sent, hemits.offset, located_append, List.append_assoc]

end Loops

section Laws

variable {mask : UInt64} {c : FastCdcChunker}

/-- The pieces of a content are chunks of it as they should be. -/
theorem wellChunked_located {content : Bytes} {pieces : List Bytes}
    (hmin : 0 < c.minSize) (hle : c.minSize ≤ c.maxSize)
    (hlen : content.length < 2 ^ 64)
    (h : Cuts (findCdcBoundary mask c) content pieces) :
    WellChunked c content (located 0 pieces) where
  content := by
    rw [List.flatMap_def, map_data_located, h.flatten]
  offsets := by
    intro i chunk hchunk
    rw [(getElem?_located hchunk).2, flatMap_data_take_located, advance,
      UInt64.zero_add, UInt64.toNat_ofNat']
    refine Nat.mod_eq_of_lt (Nat.lt_of_le_of_lt ?_ hlen)
    rw [← h.flatten]
    exact ((List.take_sublist i pieces).flatten).length_le
  minimal := by
    intro i chunk hi hchunk
    have hcount := congrArg List.length (map_data_located 0 pieces)
    rw [List.length_map] at hcount
    obtain ⟨rest, p, hp, hcut, rfl⟩ := h.exists_of_lt (hcount ▸ hi)
    have hdata := Option.some.inj ((getElem?_located hchunk).1.symm.trans hp)
    have hbounds := @findCdcBoundary_bounds mask c hle rest
    rw [hdata, List.length_take]
    omega
  sizes := by
    intro chunk hchunk
    have hmem : chunk.data ∈ pieces := by
      have hmap := List.mem_map_of_mem (f := RawChunkData.data) hchunk
      rwa [map_data_located] at hmap
    obtain ⟨rest, hrest, hdata⟩ := h.exists_of_mem hmem
    have hbounds := @findCdcBoundary_bounds mask c hle rest
    have hpos := (@stable_findCdcBoundary mask c hmin hle).pos rest hrest
    rw [hdata, List.length_take]
    omega

/-- Every content has chunks as they should be, which the chunker sends however
the content is delivered. -/
theorem exists_chunks (mask : UInt64) (c : FastCdcChunker) (content : Bytes)
    (hmin : 0 < c.minSize) (hle : c.minSize ≤ c.maxSize)
    (hlen : content.length < 2 ^ 64) :
    ∃ chunks, WellChunked c content chunks ∧
      ∀ reads, Delivers c content reads → ∀ fuel, content.length < fuel →
        chunk mask c fuel (reads.map .ok) = some chunks := by
  have hstable := @stable_findCdcBoundary mask c hmin hle
  obtain ⟨pieces, hpieces⟩ := exists_cuts hstable content
  refine ⟨located 0 pieces, wellChunked_located hmin hle hlen hpieces, ?_⟩
  intro reads hreads fuel hfuel
  have hsettled : Settled mask c { offset := 0, buf := [], sent := [] } :=
    findCdcBoundary_of_le (Nat.zero_le _)
  obtain ⟨s', pieces', hloop, hcuts, hsent⟩ := chunkLoop_spec hstable fuel reads
    { offset := 0, buf := [], sent := [] } hreads.nonempty hsettled
    (by rwa [hreads.content, List.length_nil, Nat.zero_add])
  rw [hreads.content, List.nil_append] at hcuts
  rw [chunk, hloop, Option.map_some, hsent, List.nil_append,
    hcuts.unique hpieces]

/-- Five bytes in two reads. -/
theorem exists_chunks_fiveBytes :
    chunk 1 { minSize := 1, avgSize := 4, maxSize := 3 } 6 [.ok [1, 1, 1, 1], .ok [2]] =
        some [{ offset := 0, data := [1, 1, 1] }, { offset := 3, data := [1, 2] }] ∧
      ∃ chunks, WellChunked { minSize := 1, avgSize := 4, maxSize := 3 }
        [1, 1, 1, 1, 2] chunks ∧
        ∀ reads, Delivers { minSize := 1, avgSize := 4, maxSize := 3 }
          [1, 1, 1, 1, 2] reads → ∀ fuel, 5 < fuel →
          chunk 1 { minSize := 1, avgSize := 4, maxSize := 3 } fuel (reads.map .ok) =
            some chunks :=
  ⟨by decide, exists_chunks 1 { minSize := 1, avgSize := 4, maxSize := 3 }
    [1, 1, 1, 1, 2] (by decide) (by decide) (by decide)⟩

end Laws

end FastCdcChunker
end Agent
end HyperBackup
