import KtorrentStream.Util.BitSet
import KtorrentStream.Torrent.TorrentFile
import KtorrentStream.Diskio.PieceData
import KtorrentStream.Download.ManagerOfStream
set_option autoImplicit true

namespace KtorrentStream.Torrent
open KtorrentStream.Util KtorrentStream.Diskio KtorrentStream.Download

-- A file of a torrent. The bytes of the torrent are all files in a row; a
-- torrent of one file has it from offset 0 on, and is not empty.
structure Layout where
  chunkSize : Nat
  totalSize : Nat
  multiFile : Bool
  cacheOffset : Nat
  size : Nat
  chunked : 0 < chunkSize
  inside : cacheOffset + size ≤ totalSize
  whole : multiFile = false → cacheOffset = 0 ∧ size = totalSize ∧ 0 < totalSize
  long : totalSize < 9223372036854775808
  few : totalSize / chunkSize < 2147483647

namespace Layout

variable (l : Layout)

def numChunks : Nat := if l.totalSize % l.chunkSize > 0 then l.totalSize / l.chunkSize + 1 else l.totalSize / l.chunkSize

def chunkLen (i : Nat) : Nat :=
  uint32 (if i + 1 < l.numChunks then l.chunkSize else l.totalSize - l.chunkSize * (l.numChunks - 1))

def file : TorrentFile := .new l.cacheOffset l.size l.chunkSize

def firstChunk : Nat := if l.multiFile then l.file.firstChunk else 0

def firstChunkOffset : Nat := if l.multiFile then uint32 l.file.firstChunkOffset else 0

def lastChunk : Nat := if l.multiFile then l.file.lastChunk else uint32Sub l.numChunks 1

def lastChunkSize : Nat := if l.multiFile then uint32 l.file.lastChunkSize else l.chunkLen l.lastChunk

def statsChunkSize : Nat := uint32 l.chunkSize

def chunkData (data : Nat → UInt8) (i : Nat) : List UInt8 := window data (i * l.chunkSize) (l.chunkLen i)

end Layout

structure TorrentFileStream where
  currentByteOffset : Nat
  bytesReadable : Nat
  currentChunkData : Option (List UInt8)
  currentChunk : Nat
  currentChunkOffset : Nat
  csel : Option StreamingChunkSelector
  bitset : BitSet

-- What the stream finds during a call: the chunks that are downloaded, those whose
-- data can be loaded, and the time when the cursor moves to a chunk. A call moves
-- it only forward, once to each chunk.
structure Moment where
  chunks : BitSet
  loads : Nat → Bool
  now : Nat → Nat

namespace TorrentFileStream

def new (l : Layout) (streamingMode : Bool) (now : Nat) : TorrentFileStream where
  currentByteOffset := 0
  bytesReadable := 0
  currentChunkData := none
  currentChunk := l.firstChunk
  currentChunkOffset := if l.multiFile then l.firstChunkOffset else 0
  csel := if streamingMode then some (.new now l.firstChunk l.lastChunk) else none
  bitset := .new (if l.multiFile then l.lastChunk - l.firstChunk + 1 else l.numChunks)

variable (l : Layout) (data : Nat → UInt8) (m : Moment) (s : TorrentFileStream)

def readableLoop (bitset : BitSet) : List Nat → Nat → Nat
  | [],sum => sum
  | i :: rest,sum =>
    if !bitset.get (uint32Sub i l.firstChunk) then sum
    else readableLoop bitset rest (sum + if i ≠ l.lastChunk then l.chunkLen i else l.lastChunkSize)

def update : TorrentFileStream :=
  if l.firstChunk = l.lastChunk then
    if m.chunks.get l.firstChunk then
      {s with bitset := s.bitset.set 0 true,bytesReadable := l.size - s.currentByteOffset}
    else {s with bitset := s.bitset.set 0 false,bytesReadable := 0}
  else
    let bitset := (upTo l.firstChunk l.lastChunk).foldl (fun bs i => bs.set (i - l.firstChunk) (m.chunks.get i)) s.bitset
    if !bitset.get (uint32Sub s.currentChunk l.firstChunk) then {s with bitset := bitset,bytesReadable := 0}
    else
      {s with
        bitset := bitset
        bytesReadable := readableLoop l bitset (upTo (s.currentChunk + 1) l.lastChunk) 0 +
          if s.currentChunk = l.lastChunk then uint32Sub l.lastChunkSize s.currentChunkOffset
          else uint32Sub (l.chunkLen s.currentChunk) s.currentChunkOffset}

def reset : TorrentFileStream :=
  update l m {s with
    currentByteOffset := 0
    bytesReadable := 0
    currentChunk := l.firstChunk
    currentChunkOffset := l.firstChunkOffset
    currentChunkData := none}

-- if (csel) csel->setCursor(current_chunk)
def moveCursor : Option TorrentFileStream :=
  match s.csel with
  | none => some s
  | some csel => (csel.setCursor (m.now s.currentChunk) s.currentChunk).map fun csel => {s with csel := some csel}

def seek (pos : Nat) : Option TorrentFileStream :=
  let s := update l m s
  if pos < l.size then
    -- firstChunk() * chunk_size is a product of two Uint32
    let torByteOffset := if l.multiFile then uint32 (l.firstChunk * l.statsChunkSize) + (l.firstChunkOffset + pos) else pos
    moveCursor m {s with
      currentByteOffset := pos
      currentChunkData := none
      currentChunk := uint32 (torByteOffset / l.statsChunkSize)
      currentChunkOffset := torByteOffset % l.statsChunkSize}
  else none

def loadCurrentChunk : Option (List UInt8) :=
  match s.currentChunkData with
  | some bytes => some bytes
  | none => if m.loads s.currentChunk then some (l.chunkData data s.currentChunk) else none

-- The bytes that are read; a chunk that cannot be loaded gives none.
def readCurrentChunk (maxlen : Nat) : Option (List UInt8 × TorrentFileStream) :=
  match loadCurrentChunk l data m s with
  | none => some ([],s)
  | some bytes =>
    let allowed := min (uint32Sub (l.chunkLen s.currentChunk) s.currentChunkOffset) maxlen
    let read := (bytes.drop s.currentChunkOffset).take allowed
    let s' := {s with
      currentChunkData := some bytes
      currentByteOffset := s.currentByteOffset + allowed
      currentChunkOffset := uint32 (s.currentChunkOffset + allowed)}
    if s'.currentChunkOffset = l.chunkLen s.currentChunk then
      (moveCursor m {s' with
        currentChunk := uint32 (s.currentChunk + 1)
        currentChunkData := none
        currentChunkOffset := 0}).map fun s => (read,s)
    else some (read,s')

-- Every round but the last reads a byte or more.
def readLoop (maxlen : Nat) : Nat → List UInt8 → TorrentFileStream → Option (List UInt8 × TorrentFileStream)
  | 0,got,s => some (got,s)
  | fuel + 1,got,s =>
    if got.length < maxlen ∧ got.length < s.bytesReadable then
      match readCurrentChunk l data m s (min (s.bytesReadable - got.length) (maxlen - got.length)) with
      | none => none
      | some (read,s') =>
        if read.length = 0 then some (got,s') else readLoop maxlen fuel (got ++ read) s'
    else some (got,s)

def readData (maxlen : Nat) : Option (List UInt8 × TorrentFileStream) :=
  let s := update l m s
  if s.bytesReadable = 0 then some ([],s)
  else (readLoop l data m maxlen maxlen [] s).map fun r => (r.1,{r.2 with bytesReadable := r.2.bytesReadable - r.1.length})

end TorrentFileStream

end KtorrentStream.Torrent
