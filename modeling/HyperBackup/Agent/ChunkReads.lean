import HyperBackup.Agent.Chunker
import HyperBackup.Agent.FastCdc

/-!
# What the fixed-size chunker does with its reads

`FixedChunker` makes a chunk of every read.  A read may return fewer bytes than
the buffer holds, and the chunker does not wait for more, so the chunks are
those of the content only if every read but the last fills the buffer.
-/

namespace HyperBackup
namespace Agent
namespace FixedChunker

/-- The loop over the reads.  A read of no bytes is the end of the file, and an
error ends the chunks in the same way. -/
def chunkLoop : UInt64 → List (Except String Bytes) → List RawChunkData
  | _, [] => []
  | _, .ok [] :: _ => []
  | _, .error _ :: _ => []
  | offset, .ok (byte :: bytes) :: reads =>
      { offset := offset.toNat, data := byte :: bytes } ::
        chunkLoop (offset + UInt64.ofNat (byte :: bytes).length) reads

/-- The chunks that are sent for the reads. -/
def chunkReads (strategy : ChunkStrategy) (reads : List (Except String Bytes)) :
    Except ChunkError (List RawChunkData) :=
  if chunkSize strategy = 0 then .error (.invalidSize (chunkSize strategy))
  else .ok (chunkLoop 0 reads)

/-- The reads deliver the content, each some bytes but not more than the buffer
holds. -/
structure Delivers (size : Nat) (content : Bytes) (reads : List Bytes) : Prop where
  content : reads.flatten = content
  nonempty : ∀ r ∈ reads, r ≠ []
  fits : ∀ r ∈ reads, r.length ≤ size

/-- Every read but the last fills the buffer. -/
def FillsBuffer (size : Nat) (reads : List Bytes) : Prop :=
  ∀ i r, i + 1 < reads.length → reads[i]? = some r → r.length = size

/-- The chunks make up the content, and all but the last have the full size. -/
structure FullSized (size : Nat) (content : Bytes) (chunks : List RawChunkData) :
    Prop where
  content : chunks.flatMap RawChunkData.data = content
  sizes : ∀ i chunk, i + 1 < chunks.length → chunks[i]? = some chunk →
    chunk.data.length = size

section Laws

variable {size : Nat} {content : Bytes} {reads reads' : List Bytes}

theorem FillsBuffer.tail {r : Bytes} (h : FillsBuffer size (r :: reads)) :
    FillsBuffer size reads := by
  intro i r' hi hr'
  refine h (i + 1) r' ?_ hr'
  rw [List.length_cons]
  omega

/-- Every read is a chunk. -/
theorem map_data_chunkLoop :
    ∀ (offset : UInt64) (reads : List Bytes), (∀ r ∈ reads, r ≠ []) →
      (chunkLoop offset (reads.map .ok)).map RawChunkData.data = reads := by
  intro offset reads
  induction reads generalizing offset with
  | nil =>
      intro _
      rfl
  | cons r reads ih =>
      intro hne
      cases r with
      | nil =>
          exact absurd rfl (hne [] List.mem_cons_self)
      | cons byte bytes =>
          rw [List.map_cons, chunkLoop, List.map_cons,
            ih _ fun r hr => hne r (List.mem_cons_of_mem _ hr)]

/-- Reads that fill the buffer are the pieces of the content. -/
theorem map_data_pieces (hsize : 0 < size) :
    ∀ (reads : List Bytes) (fuel offset : Nat), (∀ r ∈ reads, r ≠ []) →
      (∀ r ∈ reads, r.length ≤ size) → FillsBuffer size reads →
      reads.flatten.length ≤ fuel →
      (pieces size fuel offset reads.flatten).map RawChunkData.data = reads := by
  intro reads
  induction reads with
  | nil =>
      intro fuel offset _ _ _ _
      cases fuel with
      | zero =>
          rfl
      | succ fuel =>
          rfl
  | cons r reads ih =>
      intro fuel offset hne hfits hfills hfuel
      have hr := hne r List.mem_cons_self
      have hpos := List.length_pos_iff.mpr hr
      rw [List.flatten_cons, List.length_append] at hfuel
      obtain ⟨fuel, rfl⟩ : ∃ n, fuel = n + 1 := ⟨fuel - 1, by omega⟩
      cases reads with
      | nil =>
          rw [List.flatten_singleton, pieces_of_length_le hr
            (hfits r List.mem_cons_self)]
          rfl
      | cons r' reads =>
          have hfull : r.length = size := hfills 0 r (by simp) rfl
          rw [List.flatten_cons, pieces_append hsize hfull, List.map_cons,
            ih fuel _ (fun r hr => hne r (List.mem_cons_of_mem _ hr))
              (fun r hr => hfits r (List.mem_cons_of_mem _ hr)) hfills.tail
              (by omega)]

/-- There is one way to fill the buffer. -/
theorem FillsBuffer.unique (hsize : 0 < size) (h : Delivers size content reads)
    (h' : Delivers size content reads') (hfills : FillsBuffer size reads)
    (hfills' : FillsBuffer size reads') : reads = reads' := by
  have hpieces := map_data_pieces hsize reads content.length 0 h.nonempty h.fits
    hfills (by rw [h.content])
  have hpieces' := map_data_pieces hsize reads' content.length 0 h'.nonempty
    h'.fits hfills' (by rw [h'.content])
  rw [h.content] at hpieces
  rw [h'.content] at hpieces'
  exact hpieces.symm.trans hpieces'

theorem fullSized_iff (h : Delivers size content reads) (offset : UInt64) :
    FullSized size content (chunkLoop offset (reads.map .ok)) ↔
      FillsBuffer size reads := by
  have hdata := map_data_chunkLoop offset reads h.nonempty
  have hlength : (chunkLoop offset (reads.map .ok)).length = reads.length := by
    have hmap := congrArg List.length hdata
    rwa [List.length_map] at hmap
  constructor
  · intro hfull i r hi hr
    rw [← hdata, List.getElem?_map] at hr
    obtain ⟨chunk, hchunk, rfl⟩ := Option.map_eq_some_iff.mp hr
    exact hfull.sizes i chunk (hlength ▸ hi) hchunk
  · intro hfills
    refine ⟨?_, ?_⟩
    · rw [List.flatMap_def, hdata, h.content]
    · intro i chunk hi hchunk
      refine hfills i chunk.data (hlength ▸ hi) ?_
      rw [← hdata, List.getElem?_map, hchunk]
      rfl

/-- With reads that fill the buffer the chunker delivers the pieces of the
content. -/
theorem chunkLoop_eq_pieces (hsize : 0 < size) :
    ∀ (reads : List Bytes) (fuel offset : Nat), (∀ r ∈ reads, r ≠ []) →
      (∀ r ∈ reads, r.length ≤ size) → FillsBuffer size reads →
      reads.flatten.length ≤ fuel → offset + reads.flatten.length < 2 ^ 64 →
      chunkLoop (UInt64.ofNat offset) (reads.map .ok) =
        pieces size fuel offset reads.flatten := by
  intro reads
  induction reads with
  | nil =>
      intro fuel offset _ _ _ _ _
      cases fuel with
      | zero =>
          rfl
      | succ fuel =>
          rfl
  | cons r reads ih =>
      intro fuel offset hne hfits hfills hfuel hbound
      have hr := hne r List.mem_cons_self
      have hpos := List.length_pos_iff.mpr hr
      rw [List.flatten_cons, List.length_append] at hfuel hbound
      obtain ⟨fuel, rfl⟩ : ∃ n, fuel = n + 1 := ⟨fuel - 1, by omega⟩
      have hoffset : (UInt64.ofNat offset).toNat = offset :=
        UInt64.toNat_ofNat_of_lt' (Nat.lt_of_le_of_lt (Nat.le_add_right _ _) hbound)
      have hrest := ih fuel (offset + r.length)
        (fun r hr => hne r (List.mem_cons_of_mem _ hr))
        (fun r hr => hfits r (List.mem_cons_of_mem _ hr)) hfills.tail (by omega)
        (by omega)
      rw [UInt64.ofNat_add] at hrest
      have hstep : chunkLoop (UInt64.ofNat offset) ((r :: reads).map .ok) =
          { offset := offset, data := r } ::
            pieces size fuel (offset + r.length) reads.flatten := by
        cases r with
        | nil =>
            exact absurd rfl hr
        | cons byte bytes =>
            rw [List.map_cons, chunkLoop, hoffset, hrest]
      rw [hstep]
      cases reads with
      | nil =>
          rw [List.flatten_singleton, pieces_of_length_le hr
            (hfits r List.mem_cons_self)]
          cases fuel with
          | zero =>
              rfl
          | succ fuel =>
              rfl
      | cons r' reads =>
          have hfull : r.length = size := hfills 0 r (by simp) rfl
          rw [hfull]
          exact (pieces_append hsize hfull fuel offset (r' :: reads).flatten).symm

theorem chunkReads_of_fillsBuffer {strategy : ChunkStrategy}
    (h : Delivers (chunkSize strategy) content reads)
    (hfills : FillsBuffer (chunkSize strategy) reads)
    (hbound : content.length < 2 ^ 64) :
    chunkReads strategy (reads.map .ok) = chunk strategy content := by
  unfold chunkReads chunk
  by_cases hsize : chunkSize strategy = 0
  · rw [if_pos hsize, if_pos hsize]
  · have hloop := chunkLoop_eq_pieces (Nat.pos_of_ne_zero hsize) reads
      content.length 0 h.nonempty h.fits hfills (by rw [h.content])
      (by rwa [h.content, Nat.zero_add])
    rw [h.content] at hloop
    rw [if_neg hsize, if_neg hsize]
    exact congrArg _ hloop

/-- The chunks are as they should be, and the same for two ways of reading,
exactly if both fill the buffer. -/
theorem canonical_iff_fillsBuffer {strategy : ChunkStrategy}
    (hsize : 0 < chunkSize strategy)
    (h : Delivers (chunkSize strategy) content reads)
    (h' : Delivers (chunkSize strategy) content reads') :
    (∃ chunks, chunkReads strategy (reads.map .ok) = .ok chunks ∧
        FullSized (chunkSize strategy) content chunks ∧
        chunkReads strategy (reads'.map .ok) = .ok chunks) ↔
      FillsBuffer (chunkSize strategy) reads ∧
        FillsBuffer (chunkSize strategy) reads' := by
  have hrun : ∀ reads, chunkReads strategy reads = .ok (chunkLoop 0 reads) :=
    fun reads => if_neg (Nat.ne_of_gt hsize)
  simp only [hrun, Except.ok.injEq, exists_eq_left', fullSized_iff h]
  constructor
  · rintro ⟨hfills, hsame⟩
    have hreads : reads' = reads := by
      rw [← map_data_chunkLoop 0 reads' h'.nonempty, hsame,
        map_data_chunkLoop 0 reads h.nonempty]
    exact ⟨hfills, hreads ▸ hfills⟩
  · rintro ⟨hfills, hfills'⟩
    refine ⟨hfills, ?_⟩
    rw [FillsBuffer.unique hsize h h' hfills hfills']

/-- Three bytes with a buffer of two. -/
theorem canonical_threeBytes :
    ∃ chunks, chunkReads (.fixed 2) [.ok [1, 2], .ok [3]] = .ok chunks ∧
      FullSized 2 [1, 2, 3] chunks ∧
      chunkReads (.fixed 2) [.ok [1, 2], .ok [3]] = .ok chunks := by
  have hdelivers : Delivers 2 [1, 2, 3] [[1, 2], [3]] :=
    ⟨rfl, by decide, by decide⟩
  have hfills : FillsBuffer 2 [[1, 2], [3]] := by
    intro i r hi hr
    obtain rfl : i = 0 := by
      rw [List.length_cons, List.length_singleton] at hi
      omega
    cases hr
    rfl
  exact (@canonical_iff_fillsBuffer [1, 2, 3] [[1, 2], [3]] [[1, 2], [3]] (.fixed 2)
    (by decide) hdelivers hdelivers).mpr ⟨hfills, hfills⟩

/-- A reader that returns one byte of two yields other chunks than one that
returns both. -/
theorem two_ways_to_read :
    Delivers 2 [1, 2] [[1], [2]] ∧ Delivers 2 [1, 2] [[1, 2]] ∧
      ¬ ∃ chunks, chunkReads (.fixed 2) [.ok [1], .ok [2]] = .ok chunks ∧
        FullSized 2 [1, 2] chunks ∧
        chunkReads (.fixed 2) [.ok [1, 2]] = .ok chunks := by
  refine ⟨⟨rfl, by decide, by decide⟩, ⟨rfl, by decide, by decide⟩, ?_⟩
  rintro ⟨chunks, hchunks, -, hchunks'⟩
  have hne : chunkReads (.fixed 2) [.ok [1], .ok [2]] ≠
      chunkReads (.fixed 2) [.ok [1, 2]] := by
    decide
  exact hne (hchunks.trans hchunks'.symm)

end Laws

end FixedChunker
end Agent
end HyperBackup
