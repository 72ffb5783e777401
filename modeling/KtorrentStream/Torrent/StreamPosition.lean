import KtorrentStream.Torrent.TorrentFileStream
set_option autoImplicit true

namespace KtorrentStream.Torrent
open KtorrentStream.Util KtorrentStream.Diskio KtorrentStream.Download

namespace Layout

variable {l : Layout} {i x : Nat}

theorem lt_numChunks : i < l.numChunks ↔ i * l.chunkSize < l.totalSize := by
  have parts := Nat.div_add_mod l.totalSize l.chunkSize
  have positive := l.chunked
  unfold numChunks
  split
  · rename_i rest
    rw [Nat.lt_succ_iff,Nat.le_div_iff_mul_le positive]
    constructor
    · intro less
      rcases Nat.lt_or_eq_of_le less with below | same
      · exact below
      · rw [← same,Nat.mul_mod_left] at rest
        omega
    · exact Nat.le_of_lt
  · rename_i none
    have exact_ : l.totalSize / l.chunkSize * l.chunkSize = l.totalSize := by
      rw [Nat.mul_comm]
      omega
    constructor
    · intro less
      calc i * l.chunkSize < l.totalSize / l.chunkSize * l.chunkSize := Nat.mul_lt_mul_of_pos_right less positive
        _ = l.totalSize := exact_
    · intro less
      rw [← exact_] at less
      exact Nat.lt_of_mul_lt_mul_right less

theorem numChunks_small (l : Layout) : l.numChunks < 2147483648 := by
  have few := l.few
  unfold numChunks
  split <;> omega

theorem chunkLen_eq (fits : l.chunkSize < 4294967296) (inside : i * l.chunkSize < l.totalSize) :
    l.chunkLen i = min l.chunkSize (l.totalSize - i * l.chunkSize) := by
  have next := @lt_numChunks l (i + 1)
  rw [Nat.succ_mul] at next
  unfold chunkLen
  split
  · rename_i more
    have := next.mp more
    rw [uint32_of_lt fits]
    omega
  · rename_i last
    have here : l.numChunks - 1 = i := by
      have := lt_numChunks.mpr inside
      omega
    have ends : ¬ i * l.chunkSize + l.chunkSize < l.totalSize := fun less => last (next.mpr less)
    rw [here,Nat.mul_comm l.chunkSize i,uint32_of_lt (by omega)]
    omega

theorem chunkLen_full (fits : l.chunkSize < 4294967296) (inside : (i + 1) * l.chunkSize ≤ l.totalSize) :
    l.chunkLen i = l.chunkSize := by
  have positive := l.chunked
  rw [Nat.succ_mul] at inside
  rw [chunkLen_eq fits (by omega)]
  omega

theorem div_small (less : x ≤ l.totalSize) : x / l.chunkSize < 2147483648 := by
  have few := l.few
  have := Nat.div_le_div_right less (c := l.chunkSize)
  omega

theorem firstChunk_eq (l : Layout) : l.firstChunk = l.cacheOffset / l.chunkSize := by
  have inside := l.inside
  unfold firstChunk
  split
  · have small := @div_small l l.cacheOffset (by omega)
    exact uint32_of_lt (by omega)
  · rename_i single
    rw [(l.whole (by simpa using single)).1,Nat.zero_div]

theorem firstChunkOffset_eq (fits : l.chunkSize < 4294967296) : l.firstChunkOffset = l.cacheOffset % l.chunkSize := by
  unfold firstChunkOffset
  split
  · have := Nat.mod_lt l.cacheOffset l.chunked
    exact uint32_of_lt (show l.cacheOffset % l.chunkSize < _ by omega)
  · rename_i single
    rw [(l.whole (by simpa using single)).1,Nat.zero_mod]

theorem numChunks_eq (more : 0 < l.totalSize) : l.numChunks - 1 = (l.totalSize - 1) / l.chunkSize := by
  have below : ∀ i, i < l.numChunks ↔ i ≤ (l.totalSize - 1) / l.chunkSize := fun i => by
    rw [lt_numChunks,Nat.le_div_iff_mul_le l.chunked]
    omega
  generalize (l.totalSize - 1) / l.chunkSize = last at *
  have one := (below last).mpr (Nat.le_refl _)
  have two := mt (below (last + 1)).mp (by omega)
  omega

theorem lastChunk_eq (l : Layout) :
    l.lastChunk = if 0 < l.size then (l.cacheOffset + l.size - 1) / l.chunkSize else l.cacheOffset / l.chunkSize := by
  have inside := l.inside
  have long := l.long
  unfold lastChunk
  split
  · show (if l.size > 0 then uint32 (uint64 (l.cacheOffset + l.size - 1) / l.chunkSize) else uint32 (l.cacheOffset / l.chunkSize)) = _
    split
    · have small := @div_small l (l.cacheOffset + l.size - 1) (by omega)
      rw [uint64_of_lt (by omega),uint32_of_lt (by omega)]
    · have small := @div_small l l.cacheOffset (by omega)
      rw [uint32_of_lt (by omega)]
  · rename_i single
    obtain ⟨start,size,more⟩ := l.whole (by simpa using single)
    have few := numChunks_small l
    have some_ : 0 < l.numChunks := lt_numChunks.mpr (by rw [Nat.zero_mul]; exact more)
    rw [uint32Sub_of_le some_ (by omega),numChunks_eq more,start,size,Nat.zero_add,if_pos more]

theorem lastChunk_small (l : Layout) : l.lastChunk < 2147483648 := by
  have inside := l.inside
  rw [lastChunk_eq]
  split <;> exact div_small (by omega)

theorem firstChunk_le_lastChunk (l : Layout) : l.firstChunk ≤ l.lastChunk := by
  rw [firstChunk_eq,lastChunk_eq]
  split
  · exact Nat.div_le_div_right (by omega)
  · exact Nat.le_refl _

theorem lastChunk_mul_le (l : Layout) : l.lastChunk * l.chunkSize ≤ l.cacheOffset + l.size := by
  rw [lastChunk_eq]
  split
  · have := Nat.div_mul_le_self (l.cacheOffset + l.size - 1) l.chunkSize
    omega
  · have := Nat.div_mul_le_self l.cacheOffset l.chunkSize
    omega

theorem lastChunk_end (l : Layout) : l.cacheOffset + l.size ≤ (l.lastChunk + 1) * l.chunkSize := by
  rw [lastChunk_eq]
  split
  · have := Nat.lt_div_mul_add l.chunked (a := l.cacheOffset + l.size - 1)
    rw [Nat.succ_mul]
    omega
  · have := Nat.lt_div_mul_add l.chunked (a := l.cacheOffset)
    rw [Nat.succ_mul]
    omega

theorem lastChunkSize_eq (fits : l.chunkSize < 4294967296) : l.lastChunk * l.chunkSize + l.lastChunkSize = l.cacheOffset + l.size := by
  have lower := lastChunk_mul_le l
  have upper := lastChunk_end l
  have inside := l.inside
  have long := l.long
  rw [Nat.succ_mul] at upper
  cases multi : l.multiFile with
  | true =>
    have chunk : l.lastChunk = l.file.lastChunk := by simp only [lastChunk,multi,if_true]
    have size : l.lastChunkSize = uint32 (uint64 (l.cacheOffset + l.size + (18446744073709551616 - uint64 (l.lastChunk * l.chunkSize)))) := by
      rw [chunk]
      simp only [lastChunkSize,multi,if_true,file,TorrentFile.new]
    have wraps : uint64 (l.cacheOffset + l.size + (18446744073709551616 - l.lastChunk * l.chunkSize)) =
        l.cacheOffset + l.size - l.lastChunk * l.chunkSize := by
      generalize l.lastChunk * l.chunkSize = start at *
      unfold uint64
      omega
    have product : uint64 (l.lastChunk * l.chunkSize) = l.lastChunk * l.chunkSize := uint64_of_lt (by omega)
    rw [size,product,wraps,uint32_of_lt (by omega)]
    omega
  | false =>
    obtain ⟨start,whole,more⟩ := l.whole multi
    have size : l.lastChunkSize = l.chunkLen l.lastChunk := by
      simp only [lastChunkSize,multi,Bool.false_eq_true,if_false]
    have here : l.lastChunk * l.chunkSize < l.totalSize := by
      rw [lastChunk_eq,if_pos (by omega),start,whole,Nat.zero_add]
      have := Nat.div_mul_le_self (l.totalSize - 1) l.chunkSize
      omega
    rw [size,chunkLen_eq fits here]
    omega

end Layout

namespace TorrentFileStream
open Layout

-- The chunk and the place in it are where the byte offset says.
structure Placed (l : Layout) (data : Nat → UInt8) (s : TorrentFileStream) : Prop where
  position : s.currentChunk * l.chunkSize + s.currentChunkOffset = l.cacheOffset + s.currentByteOffset
  offset : s.currentChunkOffset < l.chunkSize
  short : s.currentByteOffset ≤ l.size
  loaded : ∀ bytes, s.currentChunkData = some bytes → bytes = l.chunkData data s.currentChunk
  bits : s.bitset.numBits = l.lastChunk - l.firstChunk + 1

-- How far the file can be read from pos on.
structure Readable (l : Layout) (chunks : BitSet) (pos count : Nat) : Prop where
  inFile : pos + count ≤ l.size
  there : ∀ x < count, chunks.get ((l.cacheOffset + pos + x) / l.chunkSize) = true
  stops : pos + count = l.size ∨ chunks.get ((l.cacheOffset + pos + count) / l.chunkSize) = false

variable {l : Layout} {data : Nat → UInt8} {m : Moment} {s s' : TorrentFileStream}

theorem Placed.chunk (placed : Placed l data s) : (l.cacheOffset + s.currentByteOffset) / l.chunkSize = s.currentChunk := by
  rw [← placed.position,Nat.mul_comm,Nat.mul_add_div l.chunked,Nat.div_eq_of_lt placed.offset,Nat.add_zero]

theorem setBits_get (first : Nat) (chunks : BitSet) (indices : List Nat) (bs : BitSet) (low : ∀ i ∈ indices, first ≤ i) (j : Nat)
    (bound : j < bs.numBits) :
    (indices.foldl (fun bs i => bs.set (i - first) (chunks.get i)) bs).get j =
      if first + j ∈ indices then chunks.get (first + j) else bs.get j := by
  induction indices generalizing bs with
  | nil => rfl
  | cons i rest ih =>
    have here := low i List.mem_cons_self
    rw [List.foldl_cons,ih _ (fun k member => low k (List.mem_cons_of_mem _ member)) (by rw [BitSet.set_numBits]; exact bound),
      BitSet.set_get]
    by_cases later : first + j ∈ rest
    · rw [if_pos later,if_pos (List.mem_cons_of_mem _ later)]
    · rw [if_neg later]
      by_cases now : i - first = j
      · have same : first + j = i := by omega
        rw [if_pos ⟨now,by omega⟩,if_pos (same ▸ List.mem_cons_self),same]
      · rw [if_neg fun e => now e.1,if_neg]
        intro member
        rcases List.mem_cons.mp member with same | after
        · omega
        · exact later after

theorem setBits_numBits (f : Nat → Nat) (g : Nat → Bool) (indices : List Nat) (bs : BitSet) :
    (indices.foldl (fun bs i => bs.set (f i) (g i)) bs).numBits = bs.numBits := by
  induction indices generalizing bs with
  | nil => rfl
  | cons i rest ih =>
    rw [List.foldl_cons,ih,BitSet.set_numBits]

theorem fileBits_get (bits : s.bitset.numBits = l.lastChunk - l.firstChunk + 1) (chunks : BitSet) (i : Nat) (small : i < 4294967296) :
    ((upTo l.firstChunk l.lastChunk).foldl (fun bs i => bs.set (i - l.firstChunk) (chunks.get i)) s.bitset).get
      (uint32Sub i l.firstChunk) = if l.firstChunk ≤ i ∧ i ≤ l.lastChunk then chunks.get i else false := by
  have order := firstChunk_le_lastChunk l
  have last := lastChunk_small l
  have width := setBits_numBits (fun i => i - l.firstChunk) chunks.get (upTo l.firstChunk l.lastChunk) s.bitset
  by_cases range : l.firstChunk ≤ i ∧ i ≤ l.lastChunk
  · have member : i ∈ upTo l.firstChunk l.lastChunk := mem_upTo.mpr range
    rw [if_pos range,uint32Sub_of_le range.1 small,
      setBits_get l.firstChunk chunks _ _ (fun k member => (mem_upTo.mp member).1) _ (by omega),
      show l.firstChunk + (i - l.firstChunk) = i by omega,if_pos member]
  · rw [if_neg range]
    refine BitSet.get_of_ge _ ?_
    rw [width,bits]
    unfold uint32Sub uint32
    omega

def fileEnd (l : Layout) (i : Nat) : Nat := if i = l.lastChunk then l.cacheOffset + l.size else (i + 1) * l.chunkSize

theorem chunkLen_in_file (fits : l.chunkSize < 4294967296) (before : i < l.lastChunk) : l.chunkLen i = l.chunkSize := by
  refine chunkLen_full fits ?_
  have lower := lastChunk_mul_le l
  have inside := l.inside
  have := Nat.mul_le_mul_right l.chunkSize (show i + 1 ≤ l.lastChunk from before)
  omega

theorem fileEnd_part (fits : l.chunkSize < 4294967296) (inFile : i ≤ l.lastChunk) :
    fileEnd l i = i * l.chunkSize + if i ≠ l.lastChunk then l.chunkLen i else l.lastChunkSize := by
  unfold fileEnd
  by_cases last : i = l.lastChunk
  · rw [if_pos last,if_neg (fun other => other last),last,lastChunkSize_eq fits]
  · rw [if_neg last,if_pos last,chunkLen_in_file fits (by omega),Nat.succ_mul]

-- The loop adds up the chunks behind c until one is missing.
theorem readableLoop_spec (fits : l.chunkSize < 4294967296) {bitset : BitSet} {chunks : BitSet}
    (same : ∀ i, l.firstChunk ≤ i → i ≤ l.lastChunk → bitset.get (uint32Sub i l.firstChunk) = chunks.get i)
    (count : Nat) (c : Nat) (low : l.firstChunk ≤ c) (left : c + count = l.lastChunk) (sum : Nat) :
    ∃ upper, c ≤ upper ∧ upper ≤ l.lastChunk ∧
      readableLoop l bitset (upTo (c + 1) l.lastChunk) sum + fileEnd l c = sum + fileEnd l upper ∧
      (∀ i, c < i → i ≤ upper → chunks.get i = true) ∧ (upper = l.lastChunk ∨ chunks.get (upper + 1) = false) := by
  induction count generalizing c sum with
  | zero =>
    rw [upTo_nil (by omega)]
    exact ⟨c,Nat.le_refl c,by omega,rfl,fun i above below => by omega,.inl (by omega)⟩
  | succ count ih =>
    rw [upTo_cons (by omega)]
    unfold readableLoop
    rw [same (c + 1) (by omega) (by omega)]
    cases here : chunks.get (c + 1) with
    | false => exact ⟨c,Nat.le_refl c,by omega,rfl,fun i above below => by omega,.inr here⟩
    | true =>
      obtain ⟨upper,above,inFile,total,all,stop⟩ := ih (c + 1) (by omega) (by omega)
        (sum + if c + 1 ≠ l.lastChunk then l.chunkLen (c + 1) else l.lastChunkSize)
      have next := fileEnd_part fits (show c + 1 ≤ l.lastChunk by omega)
      have before : fileEnd l c = (c + 1) * l.chunkSize := if_neg (by omega)
      refine ⟨upper,by omega,inFile,?_,fun i more less => ?_,stop⟩
      · simp only [Bool.not_true,Bool.false_eq_true,if_false]
        omega
      · rcases Nat.eq_or_lt_of_le more with first | later
        · rw [← first]
          exact here
        · exact all i later less

theorem Placed.small (placed : Placed l data s) : s.currentChunk < 2147483648 := by
  have inside := l.inside
  have short := placed.short
  rw [← placed.chunk]
  exact div_small (by omega)

theorem Placed.le_currentChunk (placed : Placed l data s) : l.firstChunk ≤ s.currentChunk := by
  rw [firstChunk_eq,← placed.chunk]
  exact Nat.div_le_div_right (by omega)

theorem lastChunk_of_lt (l : Layout) (less : x < l.size) : (l.cacheOffset + x) / l.chunkSize ≤ l.lastChunk := by
  rw [lastChunk_eq,if_pos (by omega)]
  exact Nat.div_le_div_right (by omega)

theorem update_keeps (l : Layout) (m : Moment) (s : TorrentFileStream) :
    ∃ bitset readable, update l m s = {s with bitset := bitset,bytesReadable := readable} ∧ bitset.numBits = s.bitset.numBits := by
  unfold update
  split
  · split
    · exact ⟨_,_,rfl,BitSet.set_numBits _ _ _⟩
    · exact ⟨_,_,rfl,BitSet.set_numBits _ _ _⟩
  · have width := setBits_numBits (fun i => i - l.firstChunk) m.chunks.get (upTo l.firstChunk l.lastChunk) s.bitset
    dsimp only
    split
    · exact ⟨_,_,rfl,width⟩
    · exact ⟨_,_,rfl,width⟩

theorem Placed.update (placed : Placed l data s) (m : Moment) : Placed l data (update l m s) := by
  obtain ⟨bitset,readable,result,width⟩ := update_keeps l m s
  rw [result]
  exact ⟨placed.position,placed.offset,placed.short,placed.loaded,width.trans placed.bits⟩

theorem readable_zero {chunks : BitSet} (short : pos ≤ l.size) (stops : pos < l.size → chunks.get ((l.cacheOffset + pos) / l.chunkSize) = false) :
    Readable l chunks pos 0 := by
  refine ⟨short,fun x less => by omega,?_⟩
  by_cases more : pos < l.size
  · exact .inr (stops more)
  · exact .inl (by omega)

theorem fileEnd_le (l : Layout) (inFile : i ≤ l.lastChunk) :
    fileEnd l i ≤ l.cacheOffset + l.size ∧ fileEnd l i ≤ (i + 1) * l.chunkSize := by
  unfold fileEnd
  split
  · rename_i last
    exact ⟨Nat.le_refl _,last ▸ lastChunk_end l⟩
  · have := lastChunk_mul_le l
    have := Nat.mul_le_mul_right l.chunkSize (show i + 1 ≤ l.lastChunk by omega)
    exact ⟨by omega,Nat.le_refl _⟩

theorem Placed.rest_of_chunk (placed : Placed l data s) (fits : l.chunkSize < 4294967296) (inFile : s.currentChunk ≤ l.lastChunk) :
    l.cacheOffset + s.currentByteOffset + (if s.currentChunk = l.lastChunk then uint32Sub l.lastChunkSize s.currentChunkOffset
      else uint32Sub (l.chunkLen s.currentChunk) s.currentChunkOffset) = fileEnd l s.currentChunk := by
  have position := placed.position
  have short := placed.short
  have offset := placed.offset
  have upper := lastChunk_end l
  rw [fileEnd_part fits inFile]
  by_cases last : s.currentChunk = l.lastChunk
  · have size := lastChunkSize_eq fits
    rw [last] at position
    rw [Nat.succ_mul] at upper
    rw [if_pos last,if_neg (fun other => other last),last,uint32Sub_of_le (by omega) (by omega)]
    omega
  · have full := chunkLen_in_file fits (show s.currentChunk < l.lastChunk by omega)
    rw [if_neg last,if_pos last,full,uint32Sub_of_le (by omega) fits]
    omega

theorem readable_upTo (placed : Placed l data s) {chunks : BitSet} {upper count : Nat}
    (inFile : upper ≤ l.lastChunk) (total : l.cacheOffset + s.currentByteOffset + count = fileEnd l upper)
    (all : ∀ i, s.currentChunk ≤ i → i ≤ upper → chunks.get i = true)
    (stop : upper = l.lastChunk ∨ chunks.get (upper + 1) = false) : Readable l chunks s.currentByteOffset count := by
  obtain ⟨short,upTo⟩ := fileEnd_le l inFile
  refine ⟨by omega,fun x less => ?_,?_⟩
  · apply all
    · rw [← placed.chunk]
      exact Nat.div_le_div_right (by omega)
    · refine Nat.lt_add_one_iff.mp ?_
      rw [Nat.div_lt_iff_lt_mul l.chunked]
      omega
  · by_cases last : upper = l.lastChunk
    · left
      unfold fileEnd at total
      rw [if_pos last] at total
      omega
    · right
      unfold fileEnd at total
      rw [if_neg last] at total
      rw [total,Nat.mul_div_cancel _ l.chunked]
      exact stop.resolve_left last

theorem Placed.readable (placed : Placed l data s) (fits : l.chunkSize < 4294967296) (m : Moment) :
    Readable l m.chunks s.currentByteOffset (TorrentFileStream.update l m s).bytesReadable := by
  have order := firstChunk_le_lastChunk l
  have low := placed.le_currentChunk
  have short := placed.short
  have chunk := placed.chunk
  unfold TorrentFileStream.update
  by_cases one : l.firstChunk = l.lastChunk
  · rw [if_pos one]
    have only : ∀ x < l.size, (l.cacheOffset + x) / l.chunkSize = l.firstChunk := fun x less => by
      have upper := lastChunk_of_lt l less
      have lower : l.firstChunk ≤ (l.cacheOffset + x) / l.chunkSize := by
        rw [firstChunk_eq]
        exact Nat.div_le_div_right (by omega)
      omega
    cases have_ : m.chunks.get l.firstChunk with
    | true =>
      refine ⟨?_,fun x less => ?_,.inl ?_⟩
      · show s.currentByteOffset + (l.size - s.currentByteOffset) ≤ l.size
        omega
      · rw [Nat.add_assoc,only _ (by simp only [if_true] at less; omega)]
        exact have_
      · show s.currentByteOffset + (l.size - s.currentByteOffset) = l.size
        omega
    | false => exact readable_zero short fun more => by rw [only _ more]; exact have_
  · rw [if_neg one]
    dsimp only
    have bits := fun i => @fileBits_get l s placed.bits m.chunks i
    rw [bits s.currentChunk (by have := placed.small; omega)]
    generalize (upTo l.firstChunk l.lastChunk).foldl (fun bs i => bs.set (i - l.firstChunk) (m.chunks.get i)) s.bitset = bitset at bits
    by_cases range : l.firstChunk ≤ s.currentChunk ∧ s.currentChunk ≤ l.lastChunk
    · rw [if_pos range]
      cases have_ : m.chunks.get s.currentChunk with
      | false => exact readable_zero short fun _ => by rw [chunk]; exact have_
      | true =>
        obtain ⟨upper,_,inFile,total,all,stop⟩ := readableLoop_spec fits
          (fun i lower upper => by rw [bits i (by have := lastChunk_small l; omega),if_pos ⟨lower,upper⟩])
          (l.lastChunk - s.currentChunk) s.currentChunk low (by omega) 0
        have ends := placed.rest_of_chunk fits range.2
        simp only [Bool.not_true,Bool.false_eq_true,if_false]
        generalize readableLoop l bitset (upTo (s.currentChunk + 1) l.lastChunk) 0 = sum at *
        refine readable_upTo placed inFile ?_ ?_ stop
        · omega
        · intro i lower upper
          rcases Nat.eq_or_lt_of_le lower with first | later
          · rw [← first]
            exact have_
          · exact all i later upper
    · rw [if_neg range]
      refine readable_zero short fun more => ?_
      have := lastChunk_of_lt l more
      omega

end TorrentFileStream

end KtorrentStream.Torrent
