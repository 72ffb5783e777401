import KtorrentStream.Torrent.StreamReading
set_option autoImplicit true

namespace KtorrentStream.Torrent.TorrentFileStream
open KtorrentStream.Util KtorrentStream.Diskio KtorrentStream.Download Layout

inductive Event where
  | seek (pos : Nat) (m : Moment)
  | readData (maxlen : Nat) (m : Moment)
  | chunkDownloaded (m : Moment)
  | reset (m : Moment)

def perform (l : Layout) (data : Nat → UInt8) (s : TorrentFileStream) : Event → Option TorrentFileStream
  | .seek pos m => seek l m s pos
  | .readData maxlen m => (readData l data m s maxlen).map Prod.snd
  | .chunkDownloaded m => some (update l m s)
  | .reset m => some (reset l m s)

-- Chunks are downloaded and lost between any two events: each has its own
-- moment.
inductive Reached (l : Layout) (data : Nat → UInt8) (allowed : TorrentFileStream → Event → Prop) : TorrentFileStream → Prop
  | new (streamingMode : Bool) (now : Nat) : Reached l data allowed (new l streamingMode now)
  | step (before : Reached l data allowed s) (event : Event) (allows : allowed s event) (performed : perform l data s event = some s') :
      Reached l data allowed s'

variable {l : Layout} {data : Nat → UInt8} {m : Moment} {s s' : TorrentFileStream}

theorem new_placed (l : Layout) (fits : l.chunkSize < 4294967296) (streamingMode : Bool) (now : Nat) :
    Placed l data (new l streamingMode now) := by
  have offset : (new l streamingMode now).currentChunkOffset = l.cacheOffset % l.chunkSize := by
    rw [← firstChunkOffset_eq fits]
    show (if l.multiFile = true then l.firstChunkOffset else 0) = l.firstChunkOffset
    unfold firstChunkOffset
    split <;> rfl
  refine ⟨?_,?_,Nat.zero_le _,fun bytes cached => (nomatch cached),?_⟩
  · rw [offset]
    show l.firstChunk * l.chunkSize + _ = l.cacheOffset + 0
    rw [firstChunk_eq,Nat.mul_comm]
    exact Nat.div_add_mod l.cacheOffset l.chunkSize
  · rw [offset]
    exact Nat.mod_lt _ l.chunked
  · show (BitSet.new (if l.multiFile = true then l.lastChunk - l.firstChunk + 1 else l.numChunks)).numBits = _
    cases multi : l.multiFile with
    | true => rfl
    | false =>
      obtain ⟨_,_,more⟩ := l.whole multi
      have some_ : 0 < l.numChunks := lt_numChunks.mpr (by rw [Nat.zero_mul]; exact more)
      have small := numChunks_small l
      have first : l.firstChunk = 0 := by simp only [firstChunk,multi,Bool.false_eq_true,if_false]
      have last : l.lastChunk = l.numChunks - 1 := by
        simp only [lastChunk,multi,Bool.false_eq_true,if_false]
        exact uint32Sub_of_le some_ (by omega)
      rw [first,last]
      show l.numChunks = _
      omega

-- Where a seek to pos should leave the stream.
def sought (l : Layout) (m : Moment) (s : TorrentFileStream) (pos : Nat) : TorrentFileStream :=
  {update l m s with
    currentByteOffset := pos
    currentChunkData := none
    currentChunk := (l.cacheOffset + pos) / l.chunkSize
    currentChunkOffset := (l.cacheOffset + pos) % l.chunkSize}

-- The product firstChunk() * chunk_size is right when it fits into 32 bits.
theorem seek_eq (l : Layout) (m : Moment) (s : TorrentFileStream) (fits : l.chunkSize < 4294967296) (inFile : pos < l.size)
    (near : l.multiFile = true → l.firstChunk * l.chunkSize < 4294967296) :
    seek l m s pos = moveCursor m (sought l m s pos) := by
  have inside := l.inside
  have stats : l.statsChunkSize = l.chunkSize := uint32_of_lt fits
  have offset : (if l.multiFile = true then uint32 (l.firstChunk * l.statsChunkSize) + (l.firstChunkOffset + pos) else pos) =
      l.cacheOffset + pos := by
    split
    · rename_i multi
      rw [stats,uint32_of_lt (near multi),firstChunk_eq,firstChunkOffset_eq fits,Nat.mul_comm,← Nat.add_assoc,Nat.div_add_mod]
    · rename_i single
      rw [(l.whole (by simpa using single)).1,Nat.zero_add]
  have small := @div_small l (l.cacheOffset + pos) (by omega)
  unfold seek sought
  dsimp only
  rw [if_pos inFile,offset,stats,uint32_of_lt (by omega)]

theorem Placed.sought (placed : Placed l data s) (inFile : pos < l.size) :
    Placed l data (sought l m s pos) := by
  refine ⟨?_,Nat.mod_lt _ l.chunked,Nat.le_of_lt inFile,fun bytes cached => (nomatch cached),(placed.update m).bits⟩
  show (l.cacheOffset + pos) / l.chunkSize * l.chunkSize + _ = _
  rw [Nat.mul_comm]
  exact Nat.div_add_mod _ _

theorem Placed.reset (placed : Placed l data s) (fits : l.chunkSize < 4294967296) (m : Moment) : Placed l data (reset l m s) := by
  have start : Placed l data {s with
      currentByteOffset := 0
      bytesReadable := 0
      currentChunk := l.firstChunk
      currentChunkOffset := l.firstChunkOffset
      currentChunkData := none} := by
    refine ⟨?_,?_,Nat.zero_le _,fun bytes cached => (nomatch cached),placed.bits⟩
    · show l.firstChunk * l.chunkSize + l.firstChunkOffset = l.cacheOffset + 0
      rw [firstChunk_eq,firstChunkOffset_eq fits,Nat.mul_comm]
      exact Nat.div_add_mod l.cacheOffset l.chunkSize
    · show l.firstChunkOffset < l.chunkSize
      rw [firstChunkOffset_eq fits]
      exact Nat.mod_lt _ l.chunked
  exact start.update m

theorem Placed.moved (placed : Placed l data s) (moved : moveCursor m s = some s') : Placed l data s' := by
  obtain ⟨csel,rfl⟩ := moveCursor_keeps moved
  exact ⟨placed.position,placed.offset,placed.short,placed.loaded,placed.bits⟩

-- A seek in a file that starts where firstChunk() * chunk_size overflows goes to
-- another place, and reading the last byte of a torrent whose last chunk is short
-- leaves the stream at the start of a chunk that does not exist.
def Allowed (l : Layout) (s : TorrentFileStream) : Event → Prop
  | .seek pos _ => pos < l.size ∧ (l.multiFile = true → l.firstChunk * l.chunkSize < 4294967296)
  | .readData maxlen m => l.totalSize % l.chunkSize = 0 ∨ ¬ ReadsUpTo l m s maxlen l.totalSize
  | .chunkDownloaded _ => True
  | .reset _ => True

theorem perform_placed (fits : l.chunkSize < 4294967296) (placed : Placed l data s) (allows : Allowed l s event)
    (performed : perform l data s event = some s') : Placed l data s' := by
  cases event with
  | seek pos m =>
    obtain ⟨inFile,near⟩ := allows
    change seek l m s pos = some s' at performed
    rw [seek_eq l m s fits inFile near] at performed
    exact (placed.sought inFile).moved performed
  | readData maxlen m =>
    obtain ⟨⟨read,next⟩,reads,same⟩ := Option.map_eq_some_iff.mp performed
    cases same
    rcases (placed.readData fits reads).2 with placed | ⟨past,reaches⟩
    · exact placed
    · rcases allows with full | short
      · exact absurd full past.2
      · exact absurd reaches short
  | chunkDownloaded m =>
    cases performed
    exact placed.update m
  | reset m =>
    cases performed
    exact placed.reset fits m

theorem reached_placed (fits : l.chunkSize < 4294967296) (reached : Reached l data (Allowed l) s) : Placed l data s := by
  induction reached with
  | new streamingMode now => exact new_placed l fits streamingMode now
  | step before event allows performed placed => exact perform_placed fits placed allows performed

-- The stream is where its byte offset says, and whenever it reads, it reads the
-- file from there on.
structure Faithful (l : Layout) (data : Nat → UInt8) (s : TorrentFileStream) : Prop where
  position : s.currentChunk * l.chunkSize + s.currentChunkOffset = l.cacheOffset + s.currentByteOffset
  reads : ∀ m maxlen bytes s', readData l data m s maxlen = some (bytes,s') → DataRead l data m maxlen s bytes s'
  total : s.csel = none → ∀ m maxlen, ∃ r, readData l data m s maxlen = some r

theorem reached_faithful (fits : l.chunkSize < 4294967296) (reached : Reached l data (Allowed l) s) : Faithful l data s := by
  have placed := reached_placed fits reached
  refine ⟨placed.position,fun m maxlen bytes s' read => (placed.readData fits read).1,fun plain m maxlen => ?_⟩
  exact readData_total plain maxlen

def smallFile : Layout where
  chunkSize := 4
  totalSize := 14
  multiFile := true
  cacheOffset := 2
  size := 9
  chunked := four_bytes
  inside := by decide
  whole := by decide
  long := by decide
  few := by decide

def byteAt (i : Nat) : UInt8 := UInt8.ofNat i

def twoChunks : Moment := ⟨((BitSet.new 4).set 0 true).set 1 true,fun _ => true,fun _ => 0⟩

-- Seek to 1, then read 3 bytes.
theorem small_file_read : ∃ s, Faithful smallFile byteAt s ∧ s.currentByteOffset = 4 ∧ s.currentChunk = 1 := by
  have new : Reached smallFile byteAt (Allowed smallFile) _ := .new false 0
  have sought := new.step (.seek 1 twoChunks) ⟨by decide,fun _ => by decide⟩ rfl
  have read := sought.step (.readData 3 twoChunks) (.inr fun reaches => absurd reaches.asked (by decide)) rfl
  exact ⟨_,reached_faithful (by decide) read,rfl,rfl⟩

-- A file that starts at 4 GiB.
def farFile : Layout where
  chunkSize := 16777216
  totalSize := 4294967297
  multiFile := true
  cacheOffset := 4294967296
  size := 1
  chunked := by decide
  inside := by decide
  whole := by decide
  long := by decide
  few := by decide

theorem far_file_misplaced : ∃ s, seek farFile ⟨.new 257,fun _ => true,fun _ => 0⟩ (new farFile false 0) 0 = some s ∧
    s.currentChunk * farFile.chunkSize + s.currentChunkOffset ≠ farFile.cacheOffset + s.currentByteOffset := by
  refine ⟨_,rfl,?_⟩
  decide

end KtorrentStream.Torrent.TorrentFileStream
