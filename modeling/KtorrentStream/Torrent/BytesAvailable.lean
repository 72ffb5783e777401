import KtorrentStream.Torrent.StreamRun
set_option autoImplicit true

namespace KtorrentStream.Torrent
open KtorrentStream.Util KtorrentStream.Diskio KtorrentStream.Download Layout

-- A stream and the chunks that are downloaded.
structure LiveStream where
  stream : TorrentFileStream
  chunks : BitSet

namespace LiveStream
open TorrentFileStream

def new (l : Layout) (streamingMode : Bool) (now : Nat) (chunks : BitSet) : LiveStream := ⟨.new l streamingMode now,chunks⟩

def bytesAvailable (s : LiveStream) : Nat := s.stream.bytesReadable

inductive Event where
  | seek (pos : Nat) (now : Nat → Nat)
  | readData (maxlen : Nat) (loads : Nat → Bool) (now : Nat → Nat)
  | chunkDownloaded (i : Nat)

-- Only the stream of a torrent of one file is connected to the signal chunkDownloaded.
def perform (l : Layout) (data : Nat → UInt8) (s : LiveStream) : Event → Option LiveStream
  | .seek pos now => (seek l ⟨s.chunks,fun _ => true,now⟩ s.stream pos).map fun stream => {s with stream := stream}
  | .readData maxlen loads now => (readData l data ⟨s.chunks,loads,now⟩ s.stream maxlen).map fun r => {s with stream := r.2}
  | .chunkDownloaded i =>
    let chunks := s.chunks.set i true
    some ⟨if l.multiFile then s.stream else update l ⟨chunks,fun _ => true,fun _ => 0⟩ s.stream,chunks⟩

inductive Reached (l : Layout) (data : Nat → UInt8) (start : BitSet → Prop) (allowed : LiveStream → Event → Prop) : LiveStream → Prop
  | new (streamingMode : Bool) (now : Nat) (chunks : BitSet) (starts : start chunks) :
      Reached l data start allowed (new l streamingMode now chunks)
  | step (before : Reached l data start allowed s) (event : Event) (allows : allowed s event) (performed : perform l data s event = some s') :
      Reached l data start allowed s'

-- bytesAvailable is the readable prefix from the position on.
def Available (l : Layout) (s : LiveStream) : Prop := Readable l s.chunks s.stream.currentByteOffset s.bytesAvailable

-- As many bytes can be read from one place as from the other.
def SameLength (l : Layout) (chunks : BitSet) (pos : Nat) (chunks' : BitSet) (pos' : Nat) : Prop :=
  ∃ count, Readable l chunks pos count ∧ Readable l chunks' pos' count

-- Nothing can be read from the start of the file.
def Unread (l : Layout) (chunks : BitSet) : Prop := Readable l chunks 0 0

-- bytes_readable is computed before a seek moves the position, and it is not computed when
-- a chunk of a torrent of several files is downloaded.
def Steady (l : Layout) (s : LiveStream) : Event → Prop
  | .seek pos _ => pos < l.size ∧ (l.multiFile = true → l.firstChunk * l.chunkSize < 4294967296) ∧
    SameLength l s.chunks s.stream.currentByteOffset s.chunks pos
  | .readData _ _ _ => True
  | .chunkDownloaded i => l.multiFile = true →
    SameLength l s.chunks s.stream.currentByteOffset (s.chunks.set i true) s.stream.currentByteOffset

end LiveStream

namespace TorrentFileStream

variable {l : Layout} {data : Nat → UInt8} {m : Moment} {s s' : TorrentFileStream} {chunks : BitSet}

theorem Readable.le_of_there (first : Readable l chunks pos count) (second : Readable l chunks pos count') : count' ≤ count := by
  rcases Nat.lt_or_ge count count' with less | le
  · have there := second.there count less
    have inFile := second.inFile
    rcases first.stops with ends | missing
    · omega
    · rw [there] at missing
      cases missing
  · exact le

theorem Readable.unique (first : Readable l chunks pos count) (second : Readable l chunks pos count') : count = count' :=
  Nat.le_antisymm (second.le_of_there first) (first.le_of_there second)

theorem Readable.drop (readable : Readable l chunks pos count) (less : n ≤ count) : Readable l chunks (pos + n) (count - n) := by
  have inFile := readable.inFile
  have whole : pos + n + (count - n) = pos + count := by omega
  refine ⟨by omega,?_,?_⟩
  · intro x inside
    have there := readable.there (n + x) (by omega)
    rw [← Nat.add_assoc,Nat.add_assoc l.cacheOffset pos n] at there
    exact there
  · rw [Nat.add_assoc l.cacheOffset,whole,← Nat.add_assoc]
    exact readable.stops

-- The stream has read the last byte of the torrent, and its chunk would be behind the file.
structure Behind (l : Layout) (s : TorrentFileStream) : Prop where
  position : s.currentByteOffset = l.size
  beyond : l.lastChunk < s.currentChunk
  small : s.currentChunk < 4294967296
  bits : s.bitset.numBits = l.lastChunk - l.firstChunk + 1

theorem Behind.update (behind : Behind l s) (m : Moment) : Behind l (update l m s) := by
  obtain ⟨bitset,readable,result,width⟩ := update_keeps l m s
  rw [result]
  exact ⟨behind.position,behind.beyond,behind.small,width.trans behind.bits⟩

theorem Behind.readable (behind : Behind l s) (m : Moment) : Readable l m.chunks s.currentByteOffset (TorrentFileStream.update l m s).bytesReadable := by
  have none : (TorrentFileStream.update l m s).bytesReadable = 0 := by
    unfold TorrentFileStream.update
    split
    · split
      · show l.size - s.currentByteOffset = 0
        rw [behind.position,Nat.sub_self]
      · rfl
    · have missing := fileBits_get behind.bits m.chunks s.currentChunk behind.small
      have beyond := behind.beyond
      rw [if_neg (by omega)] at missing
      dsimp only
      rw [missing]
      rfl
  rw [none,behind.position]
  exact readable_zero (Nat.le_refl l.size) (fun less => absurd less (Nat.lt_irrefl l.size))

-- The stream is where its byte offset says, or at the end of the torrent.
def Standing (l : Layout) (data : Nat → UInt8) (s : TorrentFileStream) : Prop := Placed l data s ∨ Behind l s

theorem Standing.bits (standing : Standing l data s) : s.bitset.numBits = l.lastChunk - l.firstChunk + 1 := by
  rcases standing with placed | behind
  · exact placed.bits
  · exact behind.bits

theorem Standing.update (standing : Standing l data s) (m : Moment) : Standing l data (update l m s) :=
  standing.imp (fun placed => placed.update m) (fun behind => behind.update m)

theorem Standing.readable (standing : Standing l data s) (fits : l.chunkSize < 4294967296) (m : Moment) :
    Readable l m.chunks s.currentByteOffset (TorrentFileStream.update l m s).bytesReadable := by
  rcases standing with placed | behind
  · exact placed.readable fits m
  · exact behind.readable m

theorem sought_placed (bits : s.bitset.numBits = l.lastChunk - l.firstChunk + 1) (inFile : pos < l.size) : Placed l data (sought l m s pos) := by
  obtain ⟨bitset,readable,result,width⟩ := update_keeps l m s
  have bits' : (TorrentFileStream.update l m s).bitset.numBits = l.lastChunk - l.firstChunk + 1 := by
    rw [result]
    exact width.trans bits
  refine ⟨?_,Nat.mod_lt _ l.chunked,Nat.le_of_lt inFile,?_,bits'⟩
  · show (l.cacheOffset + pos) / l.chunkSize * l.chunkSize + _ = _
    rw [Nat.mul_comm]
    exact Nat.div_add_mod _ _
  · intro bytes cached
    cases cached

theorem Placed.readCurrentChunk_standing (placed : Placed l data s) (fits : l.chunkSize < 4294967296) (some_ : 0 < maxlen)
    (room : s.currentByteOffset + maxlen ≤ l.size) (read : TorrentFileStream.readCurrentChunk l data m s maxlen = some (bytes,s')) : Standing l data s' := by
  have chunk := placed.readCurrentChunk fits some_ room read
  rcases chunk.placed with after | past
  · exact Or.inl after
  · right
    have position := chunk.position
    have length := chunk.length
    have short := past.short
    have offset := (placed.chunkLen_eq fits (by omega)).2
    have chunkLen := (placed.chunkLen_eq fits (by omega)).1
    have place := placed.position
    have small := placed.small
    have inside := l.inside
    have total := past.1
    have whole : s'.currentByteOffset = l.size := by omega
    have last : (l.cacheOffset + l.size - 1) / l.chunkSize = s.currentChunk := by
      have here := chunk.sameChunk (bytes.length - 1) (by omega)
      rw [show l.cacheOffset + s.currentByteOffset + (bytes.length - 1) = l.cacheOffset + l.size - 1 by omega] at here
      exact here
    rw [placed.readCurrentChunk_eq fits (by omega)] at read
    split at read
    · dsimp only at read
      split at read
      · obtain ⟨moved,move,same⟩ := Option.map_eq_some_iff.mp read
        obtain ⟨csel,rfl⟩ := moveCursor_keeps move
        cases same
        refine ⟨whole,?_,?_,placed.bits⟩
        · -- The chunk ends with the torrent, so no chunk of the file starts behind it.
          show l.lastChunk < s.currentChunk + 1
          rw [← placed.chunk]
          rw [placed.chunk,lastChunk_eq,if_pos (by omega),last]
          exact Nat.lt_succ_self _
        · show s.currentChunk + 1 < 4294967296
          omega
      · rename_i partly
        cases read
        have less : allowed l s maxlen ≤ l.chunkLen s.currentChunk - s.currentChunkOffset := Nat.min_le_left _ _
        have here : l.cacheOffset + (s.currentByteOffset + allowed l s maxlen) = l.totalSize := total
        omega
    · cases read
      exact absurd past.short (by omega)

theorem readLoop_standing (fits : l.chunkSize < 4294967296) (inFile : s.currentByteOffset + s.bytesReadable ≤ l.size)
    (reading : Reading l data m s got s') (standing : Standing l data s') (read : readLoop l data m maxlen fuel got s' = some (all,next)) :
    Standing l data next := by
  induction fuel generalizing got s' with
  | zero =>
      cases read
      exact standing
  | succ fuel ih =>
      have same := reading.readable
      have position := reading.position
      unfold readLoop at read
      split at read
      · rename_i more
        rw [same] at more read
        have placed := reading.inFile (show s'.currentByteOffset < l.size by omega)
        split at read
        · cases read
        · rename_i part after once
          have chunk := placed.readCurrentChunk fits (by omega) (by omega) once
          have stands := placed.readCurrentChunk_standing fits (by omega) (by omega) once
          split at read
          · cases read
            exact stands
          · exact ih (reading.step chunk) stands read
      · cases read
        exact standing

-- After a read the bytes that are left can still be read.
theorem Standing.readData (standing : Standing l data s) (fits : l.chunkSize < 4294967296)
    (read : readData l data m s maxlen = some (bytes,s')) : Standing l data s' ∧ Readable l m.chunks s'.currentByteOffset s'.bytesReadable := by
  have updated := standing.update m
  have readable := standing.readable fits m
  obtain ⟨bitset,count,same,_⟩ := update_keeps l m s
  unfold TorrentFileStream.readData at read
  rw [same] at read updated readable
  dsimp only at read readable
  split at read
  · cases read
    exact ⟨updated,readable⟩
  · rename_i some_
    obtain ⟨⟨got,next⟩,looped,rest⟩ := Option.map_eq_some_iff.mp read
    obtain ⟨rfl,rfl⟩ := Prod.mk.inj rest
    have inFile := readable.inFile
    have placed : Placed l data {s with bitset := bitset,bytesReadable := count} := by
      rcases updated with placed | behind
      · exact placed
      · have ends : s.currentByteOffset = l.size := behind.position
        omega
    have start := Reading.start (m := m) placed
    obtain ⟨reading,bound,_⟩ := start.loop fits inFile (Nat.zero_le _) (by rw [List.length_nil]; omega) looped
    have stands := readLoop_standing fits inFile start (Or.inl placed) looped
    have left : next.bytesReadable = count := reading.readable
    have place : next.currentByteOffset = s.currentByteOffset + got.length := reading.position
    have less : got.length ≤ min maxlen count := bound
    refine ⟨?_,?_⟩
    · rcases stands with after | behind
      · exact Or.inl ⟨after.position,after.offset,after.short,after.loaded,after.bits⟩
      · exact Or.inr ⟨behind.position,behind.beyond,behind.small,behind.bits⟩
    · dsimp only
      rw [left,place]
      exact readable.drop (by omega)

end TorrentFileStream

namespace LiveStream
open TorrentFileStream

variable {l : Layout} {data : Nat → UInt8} {s s' : LiveStream}

structure Sound (l : Layout) (data : Nat → UInt8) (s : LiveStream) : Prop where
  standing : Standing l data s.stream
  available : Available l s

theorem seek_sound (fits : l.chunkSize < 4294967296) (sound : Sound l data s) (steady : Steady l s (.seek pos now))
    (performed : perform l data s (.seek pos now) = some s') : Sound l data s' := by
  obtain ⟨inFile,near,count,before,after⟩ := steady
  obtain ⟨stream,sought_,rfl⟩ := Option.map_eq_some_iff.mp performed
  rw [seek_eq l _ s.stream fits inFile near] at sought_
  have placed : Placed l data (sought l ⟨s.chunks,fun _ => true,now⟩ s.stream pos) := sought_placed sound.standing.bits inFile
  have readable := sound.standing.readable fits ⟨s.chunks,fun _ => true,now⟩
  have same := readable.unique before
  obtain ⟨csel,rfl⟩ := moveCursor_keeps sought_
  refine ⟨Or.inl ⟨placed.position,placed.offset,placed.short,placed.loaded,placed.bits⟩,?_⟩
  show Readable l s.chunks pos (update l ⟨s.chunks,fun _ => true,now⟩ s.stream).bytesReadable
  rw [same]
  exact after

theorem readData_sound (fits : l.chunkSize < 4294967296) (sound : Sound l data s)
    (performed : perform l data s (.readData maxlen loads now) = some s') : Sound l data s' := by
  obtain ⟨⟨bytes,stream⟩,read,rfl⟩ := Option.map_eq_some_iff.mp performed
  have after := sound.standing.readData fits read
  exact ⟨after.1,after.2⟩

theorem chunkDownloaded_sound (fits : l.chunkSize < 4294967296) (sound : Sound l data s) (steady : Steady l s (.chunkDownloaded i))
    (performed : perform l data s (.chunkDownloaded i) = some s') : Sound l data s' := by
  cases performed
  cases multi : l.multiFile with
  | true =>
      obtain ⟨count,before,after⟩ := steady multi
      have same := sound.available.unique before
      refine ⟨sound.standing,?_⟩
      show Readable l (s.chunks.set i true) s.stream.currentByteOffset s.bytesAvailable
      rw [same]
      exact after
  | false =>
      have kept := update_keeps l ⟨s.chunks.set i true,fun _ => true,fun _ => 0⟩ s.stream
      refine ⟨sound.standing.update _,?_⟩
      have readable := sound.standing.readable fits ⟨s.chunks.set i true,fun _ => true,fun _ => 0⟩
      obtain ⟨bitset,count,same,_⟩ := kept
      show Readable l (s.chunks.set i true) (update l ⟨s.chunks.set i true,fun _ => true,fun _ => 0⟩ s.stream).currentByteOffset _
      rw [show (update l ⟨s.chunks.set i true,fun _ => true,fun _ => 0⟩ s.stream).currentByteOffset = s.stream.currentByteOffset by rw [same]]
      exact readable

theorem reached_sound (fits : l.chunkSize < 4294967296) (reached : Reached l data (Unread l) (Steady l) s) : Sound l data s := by
  induction reached with
  | new streamingMode now chunks starts => exact ⟨Or.inl (new_placed l fits streamingMode now),starts⟩
  | step before event steady performed sound =>
      cases event with
      | seek pos now => exact seek_sound fits sound steady performed
      | readData maxlen loads now => exact readData_sound fits sound performed
      | chunkDownloaded i => exact chunkDownloaded_sound fits sound steady performed

-- In every run that begins where nothing can be read, seeks only to where as much can be
-- read, and gets no chunk that makes more readable unseen.
theorem bytesAvailable_readable (l : Layout) (data : Nat → UInt8) (fits : l.chunkSize < 4294967296) (s : LiveStream)
    (reached : Reached l data (Unread l) (Steady l) s) : Readable l s.chunks s.stream.currentByteOffset s.bytesAvailable :=
  (reached_sound fits reached).available

-- A torrent of one file.
def wholeFile : Layout where
  chunkSize := 4
  totalSize := 10
  multiFile := false
  cacheOffset := 0
  size := 10
  chunked := four_bytes
  inside := by decide
  whole := by decide
  long := by decide
  few := by decide

theorem wholeFile_unread : Unread wholeFile (.new 3) := ⟨Nat.zero_le _,fun x less => absurd less (Nat.not_lt_zero x),Or.inr rfl⟩

-- The first chunk is downloaded, and three of its bytes are read.
theorem one_byte_left : ∃ s : LiveStream, Readable wholeFile s.chunks s.stream.currentByteOffset s.bytesAvailable ∧ s.stream.currentByteOffset = 3 ∧
    s.bytesAvailable = 1 := by
  have new : Reached wholeFile byteAt (Unread wholeFile) (Steady wholeFile) _ := .new false 0 (.new 3) wholeFile_unread
  have downloaded := new.step (.chunkDownloaded 0) (fun multi => by cases multi) rfl
  have read := downloaded.step (.readData 3 (fun _ => true) (fun _ => 0)) trivial rfl
  exact ⟨_,bytesAvailable_readable wholeFile byteAt (by decide) _ read,rfl,rfl⟩

-- Seeks stay in the file.
def InFile (l : Layout) (_ : LiveStream) : Event → Prop
  | .seek pos _ => pos < l.size
  | _ => True

-- After a seek from the chunk that is there into the next one, the four bytes of the first
-- are still available.
theorem seek_stale : ¬ ∀ s, Reached wholeFile byteAt (fun _ => True) (InFile wholeFile) s → Available wholeFile s := by
  intro claimed
  have new : Reached wholeFile byteAt (fun _ => True) (InFile wholeFile) _ := .new false 0 (.new 3) trivial
  have downloaded := new.step (.chunkDownloaded 0) trivial rfl
  have sought := downloaded.step (.seek 6 fun _ => 0) (show 6 < 10 by decide) rfl
  have there := (claimed _ sought).there 0
  revert there
  decide

end LiveStream
end KtorrentStream.Torrent
