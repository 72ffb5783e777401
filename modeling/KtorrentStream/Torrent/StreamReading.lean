import KtorrentStream.Torrent.StreamPosition
set_option autoImplicit true

namespace KtorrentStream.Torrent.TorrentFileStream
open KtorrentStream.Util KtorrentStream.Diskio KtorrentStream.Download Layout

variable {l : Layout} {data : Nat → UInt8} {m : Moment} {s s' : TorrentFileStream}

theorem window_part (f : Nat → UInt8) (start : Nat) (inside : skip + count ≤ len) :
    ((window f start len).drop skip).take count = window f (start + skip) count := by
  apply List.ext_getElem
  · simp only [window,List.length_take,List.length_drop,List.length_map,List.length_range]
    omega
  · intro i left right
    simp only [window,List.getElem_take,List.getElem_drop,List.getElem_map,List.getElem_range]
    rw [Nat.add_assoc]

theorem window_append (f : Nat → UInt8) (start a b : Nat) : window f start a ++ window f (start + a) b = window f start (a + b) := by
  unfold window
  rw [List.range_add,List.map_append,List.map_map]
  congr 1
  apply List.map_congr_left
  intro i _
  show f (start + a + i) = f (start + (a + i))
  rw [Nat.add_assoc]

theorem window_length (f : Nat → UInt8) (start len : Nat) : (window f start len).length = len := by
  unfold window
  rw [List.length_map,List.length_range]

theorem moveCursor_keeps (moved : moveCursor m s = some s') : ∃ csel, s' = {s with csel := csel} := by
  unfold moveCursor at moved
  split at moved
  · cases moved
    exact ⟨s.csel,rfl⟩
  · obtain ⟨csel,_,rfl⟩ := Option.map_eq_some_iff.mp moved
    exact ⟨some csel,rfl⟩

-- Chunk i can be read: its data is there already, or can be loaded.
def Loads (m : Moment) (s : TorrentFileStream) (i : Nat) : Prop :=
  m.loads i = true ∨ i = s.currentChunk ∧ s.currentChunkData.isSome = true

instance : Decidable (Loads m s i) := inferInstanceAs (Decidable (_ ∨ _))

theorem Placed.chunkLen_eq (placed : Placed l data s) (fits : l.chunkSize < 4294967296) (more : s.currentByteOffset < l.size) :
    l.chunkLen s.currentChunk = min l.chunkSize (l.totalSize - s.currentChunk * l.chunkSize) ∧
      s.currentChunkOffset < l.chunkLen s.currentChunk := by
  have position := placed.position
  have offset := placed.offset
  have inside := l.inside
  have len := Layout.chunkLen_eq fits (show s.currentChunk * l.chunkSize < l.totalSize by omega)
  exact ⟨len,by omega⟩

-- How much of the current chunk is read.
def allowed (l : Layout) (s : TorrentFileStream) (maxlen : Nat) : Nat :=
  min (l.chunkLen s.currentChunk - s.currentChunkOffset) maxlen

theorem Placed.loadCurrentChunk_eq (placed : Placed l data s) : loadCurrentChunk l data m s =
    if Loads m s s.currentChunk then some (l.chunkData data s.currentChunk) else none := by
  unfold loadCurrentChunk
  cases cached : s.currentChunkData with
  | some bytes =>
    have here : Loads m s s.currentChunk := .inr ⟨rfl,by rw [cached]; rfl⟩
    rw [if_pos here,placed.loaded bytes cached]
  | none =>
    have same : Loads m s s.currentChunk ↔ m.loads s.currentChunk = true := by
      constructor
      · rintro (loads | ⟨_,some_⟩)
        · exact loads
        · rw [cached] at some_
          cases some_
      · exact .inl
    simp only [same]

theorem Placed.readCurrentChunk_eq (placed : Placed l data s) (fits : l.chunkSize < 4294967296) (more : s.currentByteOffset < l.size)
    (maxlen : Nat) : readCurrentChunk l data m s maxlen =
      if Loads m s s.currentChunk then
        let read := window data (l.cacheOffset + s.currentByteOffset) (allowed l s maxlen)
        if s.currentChunkOffset + allowed l s maxlen = l.chunkLen s.currentChunk then
          (moveCursor m {s with
            currentByteOffset := s.currentByteOffset + allowed l s maxlen
            currentChunk := s.currentChunk + 1
            currentChunkData := none
            currentChunkOffset := 0}).map fun s => (read,s)
        else some (read,{s with
          currentChunkData := some (l.chunkData data s.currentChunk)
          currentByteOffset := s.currentByteOffset + allowed l s maxlen
          currentChunkOffset := s.currentChunkOffset + allowed l s maxlen})
      else some ([],s) := by
  obtain ⟨len,offset⟩ := placed.chunkLen_eq fits more
  have small := placed.small
  have part : s.currentChunkOffset + allowed l s maxlen ≤ l.chunkLen s.currentChunk := by
    unfold allowed
    omega
  have rest : min (uint32Sub (l.chunkLen s.currentChunk) s.currentChunkOffset) maxlen = allowed l s maxlen := by
    rw [uint32Sub_of_le (Nat.le_of_lt offset) (by omega)]
    rfl
  unfold readCurrentChunk
  rw [placed.loadCurrentChunk_eq]
  by_cases loads : Loads m s s.currentChunk
  · have read : ((l.chunkData data s.currentChunk).drop s.currentChunkOffset).take (allowed l s maxlen) =
        window data (l.cacheOffset + s.currentByteOffset) (allowed l s maxlen) := by
      unfold chunkData
      rw [window_part data _ part,placed.position]
    simp only [if_pos loads,rest,read]
    rw [uint32_of_lt (show s.currentChunkOffset + allowed l s maxlen < 4294967296 by omega),
      uint32_of_lt (show s.currentChunk + 1 < 4294967296 by omega)]
  · simp only [if_neg loads]

-- At the end of a torrent whose last chunk is short the chunk counts as read,
-- and the next one would start later.
def PastEnd (l : Layout) (s : TorrentFileStream) : Prop :=
  l.cacheOffset + s.currentByteOffset = l.totalSize ∧ l.totalSize % l.chunkSize ≠ 0

structure ChunkRead (l : Layout) (data : Nat → UInt8) (m : Moment) (maxlen : Nat) (s : TorrentFileStream) (read : List UInt8)
    (s' : TorrentFileStream) : Prop where
  bytes : read = window data (l.cacheOffset + s.currentByteOffset) read.length
  length : read.length ≤ maxlen
  position : s'.currentByteOffset = s.currentByteOffset + read.length
  readable : s'.bytesReadable = s.bytesReadable
  sameChunk : ∀ x < read.length, (l.cacheOffset + s.currentByteOffset + x) / l.chunkSize = s.currentChunk
  loads : 0 < read.length ↔ Loads m s s.currentChunk
  loaded : ∀ i, Loads m s' i → Loads m s i
  placed : Placed l data s' ∨ PastEnd l s'

theorem PastEnd.short (past : PastEnd l s) : l.size ≤ s.currentByteOffset := by
  have inside := l.inside
  have here := past.1
  omega

theorem Placed.readCurrentChunk (placed : Placed l data s) (fits : l.chunkSize < 4294967296) (some_ : 0 < maxlen)
    (room : s.currentByteOffset + maxlen ≤ l.size) (read : readCurrentChunk l data m s maxlen = some (bytes,s')) :
    ChunkRead l data m maxlen s bytes s' := by
  obtain ⟨len,offset⟩ := placed.chunkLen_eq fits (by omega)
  have position := placed.position
  have inside := l.inside
  have amount : 0 < allowed l s maxlen ∧ allowed l s maxlen ≤ maxlen ∧ s.currentChunkOffset + allowed l s maxlen ≤ l.chunkLen s.currentChunk := by
    unfold allowed
    omega
  have sameChunk : ∀ x < allowed l s maxlen, (l.cacheOffset + s.currentByteOffset + x) / l.chunkSize = s.currentChunk := fun x less => by
    rw [← position,Nat.add_assoc,Nat.mul_comm,Nat.mul_add_div l.chunked,Nat.div_eq_of_lt (by omega),Nat.add_zero]
  rw [placed.readCurrentChunk_eq fits (by omega)] at read
  generalize allowed l s maxlen = n at *
  obtain ⟨positive,most,part⟩ := amount
  by_cases loads : Loads m s s.currentChunk
  · rw [if_pos loads] at read
    dsimp only at read
    split at read
    · rename_i whole
      obtain ⟨moved,move,same⟩ := Option.map_eq_some_iff.mp read
      obtain ⟨csel,rfl⟩ := moveCursor_keeps move
      cases same
      refine ⟨by rw [window_length],by rw [window_length]; exact most,by rw [window_length],rfl,
        fun x less => sameChunk x (by rw [window_length] at less; exact less),
        iff_of_true (by rw [window_length]; exact positive) loads,?_,?_⟩
      · rintro i (other | ⟨_,none⟩)
        · exact .inl other
        · cases none
      · by_cases full : l.chunkLen s.currentChunk = l.chunkSize
        · left
          refine ⟨?_,l.chunked,?_,?_,placed.bits⟩
          · show (s.currentChunk + 1) * l.chunkSize + 0 = l.cacheOffset + (s.currentByteOffset + n)
            rw [Nat.succ_mul]
            omega
          · show s.currentByteOffset + n ≤ l.size
            omega
          · intro bytes some_
            cases some_
        · right
          constructor
          · show l.cacheOffset + (s.currentByteOffset + n) = l.totalSize
            omega
          · have total : l.totalSize = s.currentChunk * l.chunkSize + l.chunkLen s.currentChunk := by omega
            rw [total,Nat.mul_add_mod_of_lt (by omega)]
            omega
    · rename_i partly
      cases read
      refine ⟨by rw [window_length],by rw [window_length]; exact most,by rw [window_length],rfl,
        fun x less => sameChunk x (by rw [window_length] at less; exact less),
        iff_of_true (by rw [window_length]; exact positive) loads,?_,.inl ⟨?_,?_,?_,?_,placed.bits⟩⟩
      · rintro i (other | ⟨same,_⟩)
        · exact .inl other
        · rw [show i = s.currentChunk from same]
          exact loads
      · show s.currentChunk * l.chunkSize + (s.currentChunkOffset + n) = l.cacheOffset + (s.currentByteOffset + n)
        omega
      · show s.currentChunkOffset + n < l.chunkSize
        omega
      · show s.currentByteOffset + n ≤ l.size
        omega
      · intro bytes cached
        exact (Option.some.inj cached).symm
  · rw [if_neg loads] at read
    cases read
    exact ⟨rfl,Nat.zero_le _,rfl,rfl,fun x less => absurd less (Nat.not_lt_zero x),
      iff_of_false (Nat.lt_irrefl 0) loads,fun _ same => same,.inl placed⟩

-- A read that began in s and has got some bytes so far.
structure Reading (l : Layout) (data : Nat → UInt8) (m : Moment) (s : TorrentFileStream) (got : List UInt8) (s' : TorrentFileStream) : Prop where
  bytes : got = window data (l.cacheOffset + s.currentByteOffset) got.length
  position : s'.currentByteOffset = s.currentByteOffset + got.length
  readable : s'.bytesReadable = s.bytesReadable
  loads : ∀ x < got.length, Loads m s ((l.cacheOffset + s.currentByteOffset + x) / l.chunkSize)
  loaded : ∀ i, Loads m s' i → Loads m s i
  placed : Placed l data s' ∨ PastEnd l s'

theorem Reading.start (placed : Placed l data s) : Reading l data m s [] s :=
  ⟨rfl,rfl,rfl,fun x less => absurd less (Nat.not_lt_zero x),fun _ same => same,.inl placed⟩

theorem Reading.inFile (reading : Reading l data m s got s') (more : s'.currentByteOffset < l.size) : Placed l data s' := by
  rcases reading.placed with placed | past
  · exact placed
  · have := past.short
    omega

theorem Reading.step (reading : Reading l data m s got s') (read : ChunkRead l data m maxlen s' part next) :
    Reading l data m s (got ++ part) next := by
  have position := reading.position
  have place : l.cacheOffset + s'.currentByteOffset = l.cacheOffset + s.currentByteOffset + got.length := by omega
  refine ⟨?_,?_,read.readable.trans reading.readable,?_,fun i loads => reading.loaded i (read.loaded i loads),read.placed⟩
  · calc got ++ part = window data (l.cacheOffset + s.currentByteOffset) got.length ++
          window data (l.cacheOffset + s.currentByteOffset + got.length) part.length := by
          rw [← place,← read.bytes,← reading.bytes]
      _ = window data (l.cacheOffset + s.currentByteOffset) (got ++ part).length := by
          rw [window_append,List.length_append]
  · rw [read.position,position,List.length_append,Nat.add_assoc]
  · intro x less
    by_cases before : x < got.length
    · exact reading.loads x before
    · rw [List.length_append] at less
      have chunk := read.sameChunk (x - got.length) (by omega)
      rw [place,Nat.add_assoc _ got.length,show got.length + (x - got.length) = x by omega] at chunk
      rw [chunk]
      exact reading.loaded _ (read.loads.mp (by omega))

-- What the loop does with enough rounds: it reads up to the bound unless a
-- chunk cannot be loaded.
theorem Reading.loop (fits : l.chunkSize < 4294967296) (inFile : s.currentByteOffset + s.bytesReadable ≤ l.size)
    (reading : Reading l data m s got s') (bounded : got.length ≤ min maxlen s.bytesReadable) (rounds : maxlen ≤ got.length + fuel)
    (read : readLoop l data m maxlen fuel got s' = some (all,next)) :
    Reading l data m s all next ∧ all.length ≤ min maxlen s.bytesReadable ∧
      (all.length < min maxlen s.bytesReadable →
        m.loads ((l.cacheOffset + s.currentByteOffset + all.length) / l.chunkSize) = false) := by
  induction fuel generalizing got s' with
  | zero =>
    cases read
    exact ⟨reading,bounded,fun less => by omega⟩
  | succ fuel ih =>
    have same := reading.readable
    have position := reading.position
    unfold readLoop at read
    split at read
    · rename_i more
      rw [same] at more read
      have placed := reading.inFile (show s'.currentByteOffset < l.size by omega)
      split at read
      · cases read
      · rename_i part after once
        have chunk := placed.readCurrentChunk fits (by omega) (by omega) once
        have length := chunk.length
        split at read
        · rename_i empty
          cases read
          have stuck : m.loads s'.currentChunk = false := by
            cases loads : m.loads s'.currentChunk with
            | false => rfl
            | true =>
              have := chunk.loads.mpr (.inl loads)
              omega
          have whole := reading.step chunk
          rw [List.length_eq_zero_iff.mp empty,List.append_nil] at whole
          refine ⟨whole,bounded,fun _ => ?_⟩
          rw [Nat.add_assoc,← position,placed.chunk]
          exact stuck
        · rename_i some_
          exact ih (reading.step chunk) (by rw [List.length_append]; omega) (by rw [List.length_append]; omega) read
    · rename_i done
      rw [same] at done
      cases read
      exact ⟨reading,bounded,fun less => by omega⟩

-- What a read of the file did: it stopped at the bound, at the end of the file,
-- at a chunk that is missing or at one that cannot be loaded.
structure DataRead (l : Layout) (data : Nat → UInt8) (m : Moment) (maxlen : Nat) (s : TorrentFileStream) (read : List UInt8)
    (s' : TorrentFileStream) : Prop where
  bytes : read = window data (l.cacheOffset + s.currentByteOffset) read.length
  length : read.length ≤ maxlen
  position : s'.currentByteOffset = s.currentByteOffset + read.length
  inFile : s.currentByteOffset + read.length ≤ l.size
  there : ∀ x < read.length, m.chunks.get ((l.cacheOffset + s.currentByteOffset + x) / l.chunkSize) = true
  stops : read.length = maxlen ∨ s.currentByteOffset + read.length = l.size ∨
    m.chunks.get ((l.cacheOffset + s.currentByteOffset + read.length) / l.chunkSize) = false ∨
    m.loads ((l.cacheOffset + s.currentByteOffset + read.length) / l.chunkSize) = false

-- A read of maxlen bytes comes to the byte e of the torrent: e is not behind the
-- file, and all chunks before it are there and can be loaded.
structure ReadsUpTo (l : Layout) (m : Moment) (s : TorrentFileStream) (maxlen e : Nat) : Prop where
  more : s.currentByteOffset < l.size
  asked : e ≤ l.cacheOffset + s.currentByteOffset + maxlen
  inFile : e ≤ l.cacheOffset + l.size
  there : ∀ x, l.cacheOffset + s.currentByteOffset + x < e →
    m.chunks.get ((l.cacheOffset + s.currentByteOffset + x) / l.chunkSize) = true ∧
    Loads m s ((l.cacheOffset + s.currentByteOffset + x) / l.chunkSize)

theorem Placed.readData (placed : Placed l data s) (fits : l.chunkSize < 4294967296)
    (read : readData l data m s maxlen = some (bytes,s')) :
    DataRead l data m maxlen s bytes s' ∧ (Placed l data s' ∨ PastEnd l s' ∧ ReadsUpTo l m s maxlen l.totalSize) := by
  have updated := placed.update m
  have readable := placed.readable fits m
  obtain ⟨bitset,count,same,_⟩ := update_keeps l m s
  unfold TorrentFileStream.readData at read
  rw [same] at read updated readable
  dsimp only at read readable
  have inFile := readable.inFile
  have stops := readable.stops
  split at read
  · rename_i zero
    cases read
    rw [zero] at stops
    refine ⟨⟨rfl,Nat.zero_le _,rfl,placed.short,fun x less => absurd less (Nat.not_lt_zero x),?_⟩,.inl updated⟩
    rcases stops with ends | missing
    · exact .inr (.inl ends)
    · exact .inr (.inr (.inl missing))
  · rename_i some_
    obtain ⟨⟨got,next⟩,looped,rest⟩ := Option.map_eq_some_iff.mp read
    obtain ⟨rfl,rfl⟩ := Prod.mk.inj rest
    obtain ⟨reading,bound,stuck⟩ := (Reading.start updated).loop fits inFile (Nat.zero_le _) (by rw [List.length_nil]; omega) looped
    have place := reading.position
    dsimp only at bound stuck place
    dsimp only
    refine ⟨⟨reading.bytes,by omega,place,by omega,fun x less => readable.there x (by omega),?_⟩,?_⟩
    · by_cases short : got.length < min maxlen count
      · exact .inr (.inr (.inr (stuck short)))
      · by_cases full : got.length = maxlen
        · exact .inl full
        · rw [show count = got.length by omega] at stops
          rcases stops with ends | missing
          · exact .inr (.inl ends)
          · exact .inr (.inr (.inl missing))
    · rcases reading.placed with placed | past
      · exact .inl ⟨placed.position,placed.offset,placed.short,placed.loaded,placed.bits⟩
      · refine .inr ⟨past,?_⟩
        have ends := past.1
        exact ⟨by omega,by omega,by omega,fun x less => ⟨readable.there x (by omega),reading.loads x (by omega)⟩⟩

theorem readCurrentChunk_total (plain : s.csel = none) (maxlen : Nat) :
    ∃ bytes s', readCurrentChunk l data m s maxlen = some (bytes,s') ∧ s'.csel = none := by
  unfold TorrentFileStream.readCurrentChunk
  split
  · exact ⟨_,_,rfl,plain⟩
  · dsimp only
    split
    · unfold moveCursor
      rw [plain]
      exact ⟨_,_,rfl,rfl⟩
    · exact ⟨_,_,rfl,plain⟩

theorem readLoop_total (maxlen : Nat) (plain : s.csel = none) (got : List UInt8) :
    ∃ r, readLoop l data m maxlen fuel got s = some r := by
  induction fuel generalizing got s with
  | zero => exact ⟨_,rfl⟩
  | succ fuel ih =>
    unfold readLoop
    split
    · obtain ⟨bytes,s',read,plain⟩ := @readCurrentChunk_total l data m s plain
        (min (s.bytesReadable - got.length) (maxlen - got.length))
      rw [read]
      dsimp only
      split
      · exact ⟨_,rfl⟩
      · exact ih plain _
    · exact ⟨_,rfl⟩

theorem readData_total (plain : s.csel = none) (maxlen : Nat) : ∃ r, readData l data m s maxlen = some r := by
  obtain ⟨bitset,count,same,_⟩ := update_keeps l m s
  unfold TorrentFileStream.readData
  rw [same]
  dsimp only
  split
  · exact ⟨_,rfl⟩
  · obtain ⟨r,looped⟩ := @readLoop_total l data m {s with bitset := bitset,bytesReadable := count} maxlen maxlen plain []
    rw [looped]
    exact ⟨_,rfl⟩

end KtorrentStream.Torrent.TorrentFileStream
