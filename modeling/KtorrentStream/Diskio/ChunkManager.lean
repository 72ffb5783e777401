import KtorrentStream.Util.BitSet
import KtorrentStream.Torrent.Files
set_option autoImplicit true

namespace KtorrentStream.Diskio
open KtorrentStream.Util KtorrentStream.Torrent

inductive Priority where
  | excluded | onlySeed | last | normal | first | preview
  deriving DecidableEq

-- The numbers of the enumeration, by which priorities are compared.
def Priority.value : Priority → Nat
  | excluded => 10
  | onlySeed => 20
  | last => 30
  | normal => 40
  | first => 50
  | preview => 60

inductive Status where
  | onDisk | notDownloaded
  deriving DecidableEq

-- A Chunk; its index is where it lies and its size that of the torrent's layout.
structure Chunk where
  status : Status
  priority : Priority
  deriving DecidableEq

namespace Chunk

def new : Chunk := ⟨.notDownloaded,.normal⟩

def isExcluded (c : Chunk) : Bool := c.priority == .excluded

def isExcludedForDownloading (c : Chunk) : Bool := c.priority == .onlySeed

def setExclude (c : Chunk) (yes : Bool) : Chunk := {c with priority := if yes then .excluded else .normal}

end Chunk

-- A BitSet with a bit for each of the n chunks.
structure ChunkSet (n : Nat) where
  bits : BitSet
  sized : bits.numBits = n
  counted : bits.Counted

namespace ChunkSet

def new (n : Nat) : ChunkSet n := ⟨.new n,BitSet.new_numBits n,BitSet.new_counted n⟩

def setAll (s : ChunkSet n) (on : Bool) : ChunkSet n := ⟨s.bits.setAll on,s.sized,BitSet.setAll_counted s.bits on⟩

def get (s : ChunkSet n) (i : Nat) : Bool := s.bits.get i

def set (s : ChunkSet n) (i : Nat) (on : Bool) : ChunkSet n :=
  ⟨s.bits.set i on,(s.bits.set_numBits i on).trans s.sized,BitSet.set_counted s.counted i on⟩

def numOnBits (s : ChunkSet n) : Nat := s.bits.numOnBits

theorem new_get (n i : Nat) : (new n).get i = false := BitSet.new_get n i

theorem get_of_ge (s : ChunkSet n) (beyond : n ≤ i) : s.get i = false := s.bits.get_of_ge (s.sized.trans_le beyond)

theorem set_get (s : ChunkSet n) (i j : Nat) (on : Bool) : (s.set i on).get j = if i = j ∧ i < n then on else s.get j := by
  have same := s.bits.set_get i j on
  rw [s.sized] at same
  exact same

theorem numOnBits_eq (s : ChunkSet n) : s.numOnBits = (List.range n).countP s.get := by
  have counted : s.bits.numOn = (List.range s.bits.numBits).countP s.bits.get := s.counted
  rw [s.sized] at counted
  exact counted

theorem numOnBits_le (s : ChunkSet n) : s.numOnBits ≤ n := by
  rw [numOnBits_eq]
  have less := List.countP_le_length (p := s.get) (l := List.range n)
  rwa [List.length_range] at less

end ChunkSet

-- Of the n chunks of a torrent. chunksLeftBefore is what chunksLeft has computed
-- last. index are the entries of the index file.
structure ChunkManager (n : Nat) where
  chunk : Nat → Chunk
  bitset : ChunkSet n
  excludedChunks : ChunkSet n
  onlySeedChunks : ChunkSet n
  todo : ChunkSet n
  chunksLeftBefore : Nat
  recalcChunksLeft : Bool
  duringLoad : Bool
  index : List Nat

namespace ChunkManager

variable {n : Nat}

def new (n : Nat) (index : List Nat) : ChunkManager n where
  chunk := fun _ => .new
  bitset := .new n
  excludedChunks := .new n
  onlySeedChunks := .new n
  todo := (ChunkSet.new n).setAll true
  chunksLeftBefore := 0
  recalcChunksLeft := true
  duringLoad := false
  index := index

variable (m : ChunkManager n)

def modify (i : Nat) (f : Chunk → Chunk) : Nat → Chunk := fun j => if j = i then f (m.chunk j) else m.chunk j

def resetChunk (i : Nat) : ChunkManager n :=
  if i ≥ n || m.duringLoad then m
  else
    {m with
      chunk := m.modify i ({· with status := .notDownloaded})
      bitset := m.bitset.set i false
      todo := m.todo.set i (!m.excludedChunks.get i && !m.onlySeedChunks.get i)}

-- writes says whether the index file can be written. An Error leaves what was
-- done before it; the result says that there was none.
def chunkDownloaded (writes : Bool) (i : Nat) : Bool × ChunkManager n :=
  if i ≥ n then (true,m)
  else if !(m.chunk i).isExcluded then
    let marked := {m with bitset := m.bitset.set i true,todo := m.todo.set i false,recalcChunksLeft := true}
    if writes then (true,{marked with index := m.index ++ [i],chunk := m.modify i ({· with status := .onDisk})})
    else (false,marked)
  else (true,m)

def completed : Bool := m.todo.numOnBits == 0 && m.bitset.numOnBits > 0

def chunksLeft : Nat × ChunkManager n :=
  if !m.recalcChunksLeft then (m.chunksLeftBefore,m)
  else
    let num := (List.range n).countP fun i => !m.bitset.get i && !(m.chunk i).isExcluded
    (num,{m with chunksLeftBefore := num,recalcChunksLeft := false})

-- Uint32 i = from; while (i <= to && i < d->chunks.size()), after the swap.
def rangeOf (n lower upper : Nat) : List Nat :=
  List.range' (min lower upper) (min n (max lower upper + 1) - min lower upper)

def prioritiseChunk (priority : Priority) (i : Nat) : ChunkManager n :=
  let m := {m with chunk := m.modify i ({· with priority := priority})}
  match priority with
  | .onlySeed => {m with onlySeedChunks := m.onlySeedChunks.set i true,todo := m.todo.set i false}
  | .excluded => {m with onlySeedChunks := m.onlySeedChunks.set i false,todo := m.todo.set i false}
  | _ => {m with onlySeedChunks := m.onlySeedChunks.set i false,todo := m.todo.set i (!m.bitset.get i)}

def prioritise (lower upper : Nat) (priority : Priority) : ChunkManager n :=
  (rangeOf n lower upper).foldl (fun m i => m.prioritiseChunk priority i) m

def excludeChunk (i : Nat) : ChunkManager n :=
  {m with
    chunk := m.modify i (·.setExclude true)
    excludedChunks := m.excludedChunks.set i true
    onlySeedChunks := m.onlySeedChunks.set i false
    todo := m.todo.set i false
    bitset := m.bitset.set i false}

-- Up to the signal excluded.
def exclude (lower upper : Nat) : ChunkManager n :=
  {(rangeOf n lower upper).foldl excludeChunk m with recalcChunksLeft := true}

def includeChunk (i : Nat) : ChunkManager n :=
  let m := {m with chunk := m.modify i (·.setExclude false),excludedChunks := m.excludedChunks.set i false}
  if !m.bitset.get i then {m with todo := m.todo.set i true} else m

-- Up to the signal included.
def includeRange (lower upper : Nat) : ChunkManager n :=
  {(rangeOf n lower upper).foldl includeChunk m with recalcChunksLeft := true}

def saveIndexFile : ChunkManager n := {m with index := (List.range n).filter fun i => (m.chunk i).status != .notDownloaded}

def chunkChecked (okChunks : BitSet) (i : Nat) : ChunkManager n :=
  if okChunks.get i && !m.bitset.get i then
    {m with bitset := m.bitset.set i true,todo := m.todo.set i false,chunk := m.modify i ({· with status := .onDisk})}
  else if !okChunks.get i && m.bitset.get i then
    {m with
      bitset := m.bitset.set i false
      todo := m.todo.set i (!m.onlySeedChunks.get i && !m.excludedChunks.get i)
      chunk := m.modify i fun c => if c.status = .onDisk then {c with status := .notDownloaded} else c}
  else m

-- An index file that cannot be saved is left as it is.
def dataChecked (okChunks : BitSet) (lower upper : Nat) (writes : Bool) : ChunkManager n :=
  let checked := {(List.range' lower (min n (upper + 1) - lower)).foldl (fun m i => m.chunkChecked okChunks i) m with
    recalcChunksLeft := true}
  (if writes then checked.saveIndexFile else checked).chunksLeft.2

end ChunkManager

-- What there is to download: each chunk but the last one has getChunkSize bytes.
def ChunkManager.bytesLeft (t : Files) (m : ChunkManager t.numChunks) : Nat :=
  let numLeft := uint32Sub t.numChunks m.bitset.numOnBits
  let last := uint32Sub t.numChunks 1
  if last < t.numChunks ∧ m.bitset.get last = false then uint64 (uint32Sub numLeft 1 * t.chunkSize + t.chunkLen last)
  else uint64 (numLeft * t.chunkSize)

end KtorrentStream.Diskio
