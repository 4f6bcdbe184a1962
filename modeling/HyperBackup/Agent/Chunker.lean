import HyperBackup.Agent.Domain

/-!
# The fixed-size chunker

`FixedChunker` makes a chunk of what one read returns.  Here every read fills
the buffer unless the file ends, so every piece but the last has the chunk
size; `ChunkReads` is about readers that return less.  For a content-defined
strategy the average size is used.
-/

namespace HyperBackup
namespace Agent
namespace FixedChunker

/-- The pieces of the content from an offset on; the fuel bounds the number of
reads. -/
def pieces (chunkSize : Nat) : Nat → Nat → Bytes → List RawChunkData
  | 0, _, _ => []
  | fuel + 1, offset, content =>
      if content = [] then []
      else
        { offset := offset, data := content.take chunkSize } ::
          pieces chunkSize fuel (offset + (content.take chunkSize).length)
            (content.drop chunkSize)

def chunkSize : ChunkStrategy → Nat
  | .fixed chunkSize => chunkSize
  | .cdc _ avgSize _ => avgSize

def chunk (strategy : ChunkStrategy) (content : Bytes) :
    Except ChunkError (List RawChunkData) :=
  if chunkSize strategy = 0 then .error (.invalidSize (chunkSize strategy))
  else .ok (pieces (chunkSize strategy) content.length 0 content)

/-- The pieces make up the content. -/
theorem flatMap_data_pieces {chunkSize : Nat} (hsize : 0 < chunkSize) :
    ∀ fuel offset content, content.length ≤ fuel →
      (pieces chunkSize fuel offset content).flatMap RawChunkData.data =
        content := by
  intro fuel
  induction fuel with
  | zero =>
      intro offset content hfuel
      have hnil : content = [] := List.length_eq_zero_iff.mp (by omega)
      rw [hnil]
      rfl
  | succ fuel ih =>
      intro offset content hfuel
      by_cases hnil : content = []
      · rw [hnil]
        rfl
      · have hpos : 0 < content.length := List.length_pos_iff.mpr hnil
        have hrest : (content.drop chunkSize).length ≤ fuel := by
          rw [List.length_drop]
          omega
        rw [pieces, if_neg hnil, List.flatMap_cons, ih _ _ hrest]
        exact List.take_append_drop chunkSize content

/-- No piece is empty. -/
theorem data_ne_nil_of_mem_pieces {chunkSize : Nat} (hsize : 0 < chunkSize) :
    ∀ fuel offset content, ∀ p ∈ pieces chunkSize fuel offset content,
      p.data ≠ [] := by
  intro fuel
  induction fuel with
  | zero =>
      intro offset content p hp
      cases hp
  | succ fuel ih =>
      intro offset content p hp
      rw [pieces] at hp
      split at hp
      · cases hp
      · next hcontent =>
          rcases List.mem_cons.mp hp with rfl | hp
          · rw [Ne, List.take_eq_nil_iff, not_or]
            exact ⟨Nat.ne_of_gt hsize, hcontent⟩
          · exact ih _ _ p hp

/-- No piece starts before the offset. -/
theorem offset_le_of_mem_pieces {chunkSize : Nat} :
    ∀ fuel offset content, ∀ p ∈ pieces chunkSize fuel offset content,
      offset ≤ p.offset := by
  intro fuel
  induction fuel with
  | zero =>
      intro offset content p hp
      cases hp
  | succ fuel ih =>
      intro offset content p hp
      rw [pieces] at hp
      split at hp
      · cases hp
      · rcases List.mem_cons.mp hp with rfl | hp
        · exact Nat.le_refl _
        · have := ih _ _ p hp
          omega

/-- The pieces come in increasing order of their offsets. -/
theorem pairwise_offset_pieces {chunkSize : Nat} (hsize : 0 < chunkSize) :
    ∀ fuel offset content,
      (pieces chunkSize fuel offset content).Pairwise
        (fun p q => p.offset < q.offset) := by
  intro fuel
  induction fuel with
  | zero =>
      intro offset content
      exact List.Pairwise.nil
  | succ fuel ih =>
      intro offset content
      rw [pieces]
      split
      · exact List.Pairwise.nil
      · next hnil =>
          refine List.Pairwise.cons ?_ (ih _ _)
          intro q hq
          have hpos : 0 < content.length := List.length_pos_iff.mpr hnil
          have hle := offset_le_of_mem_pieces _ _ _ q hq
          rw [List.length_take] at hle
          simp only
          omega

/-- A full piece is cut off at the start. -/
theorem pieces_append {chunkSize : Nat} (hsize : 0 < chunkSize)
    {a : Bytes} (ha : a.length = chunkSize) (fuel offset : Nat) (b : Bytes) :
    pieces chunkSize (fuel + 1) offset (a ++ b) =
      { offset := offset, data := a } ::
        pieces chunkSize fuel (offset + chunkSize) b := by
  have hne : a ++ b ≠ [] := by
    intro hnil
    rw [(List.append_eq_nil_iff.mp hnil).1, List.length_nil] at ha
    omega
  rw [pieces, if_neg hne, List.take_left' ha, List.drop_left' ha, ha]

/-- What fits into one piece is one piece. -/
theorem pieces_of_length_le {chunkSize : Nat} {content : Bytes}
    (hne : content ≠ []) (hle : content.length ≤ chunkSize)
    (fuel offset : Nat) :
    pieces chunkSize (fuel + 1) offset content =
      [{ offset := offset, data := content }] := by
  rw [pieces, if_neg hne, List.take_of_length_le hle,
    List.drop_eq_nil_of_le hle]
  cases fuel with
  | zero =>
      rfl
  | succ fuel =>
      simp [pieces]

/-- Every chunk list that the chunker delivers makes up the content, in
increasing order of the offsets. -/
theorem chunk_spec {strategy : ChunkStrategy} {content : Bytes}
    {chunks : List RawChunkData} (h : chunk strategy content = .ok chunks) :
    chunks.flatMap RawChunkData.data = content ∧
      chunks.Pairwise (fun p q => p.offset < q.offset) := by
  unfold chunk at h
  by_cases hsize : chunkSize strategy = 0
  · rw [if_pos hsize] at h
    cases h
  · rw [if_neg hsize] at h
    cases h
    have hpos := Nat.pos_of_ne_zero hsize
    exact ⟨flatMap_data_pieces hpos _ _ _ (Nat.le_refl _),
      pairwise_offset_pieces hpos _ _ _⟩

theorem chunkSize_toChunkStrategy_ne_zero
    (profile : ChunkingProfile) (fileSize : Nat) :
    chunkSize (profile.toChunkStrategy fileSize) ≠ 0 := by
  cases profile with
  | small =>
      simp [ChunkingProfile.toChunkStrategy, chunkSize]
  | standard =>
      simp [ChunkingProfile.toChunkStrategy, chunkSize]
  | large =>
      simp [ChunkingProfile.toChunkStrategy, chunkSize]
  | adaptive =>
      simp only [ChunkingProfile.toChunkStrategy]
      split_ifs <;> simp [chunkSize]

/-- With the strategy of a chunking profile the chunker never fails. -/
theorem chunk_toChunkStrategy
    (profile : ChunkingProfile) (fileSize : Nat) (content : Bytes) :
    chunk (profile.toChunkStrategy fileSize) content =
      .ok (pieces (chunkSize (profile.toChunkStrategy fileSize))
        content.length 0 content) :=
  if_neg (chunkSize_toChunkStrategy_ne_zero profile fileSize)

end FixedChunker
end Agent
end HyperBackup
