import KtorrentStream.Util.Word
import KtorrentStream.Download.Downloader
set_option autoImplicit true

namespace KtorrentStream.Download
open KtorrentStream.Util

def infinity : Nat := 18446744073709551615

def secondsToMSeconds (seconds : Nat) : Nat := uint64 (seconds * 1000)

def secondsInBufferRequired : Nat := 10

def minChunksStreamingBufferRequired : Nat := 3

def initialTimeChunkPlayedFor : Nat := 1000

structure ManagerOfStream where
  indexChunkLastTimeAsked : Nat
  lastTimeNewChunkWasAsked : Nat
  timeLastChunkPlayedFor : Nat

-- The quotient is not one of doubles here; the times are so small that qCeil
-- gives the same. A time of 0 is a division by zero in the source.
def ManagerOfStream.getSizeOfBufferRequired (m : ManagerOfStream) : Nat :=
  max ((secondsToMSeconds secondsInBufferRequired + m.timeLastChunkPlayedFor - 1) / m.timeLastChunkPlayedFor)
    minChunksStreamingBufferRequired

def getSizeOfBufferPreferred : Nat := 10

structure StreamingChunkSelector where
  rangeStart : Nat
  rangeEnd : Nat
  cursor : Nat
  manager : ManagerOfStream

-- none when the assertion fails.
def ManagerOfStream.chunkAsked (m : ManagerOfStream) (now chunk : Nat) : Option ManagerOfStream :=
  if chunk = uint32 (m.indexChunkLastTimeAsked + 1) then
    if now > m.lastTimeNewChunkWasAsked then some ⟨chunk,now,now - m.lastTimeNewChunkWasAsked⟩ else none
  else some ⟨chunk,now,m.timeLastChunkPlayedFor⟩

def StreamingChunkSelector.setCursor (csel : StreamingChunkSelector) (now chunk : Nat) : Option StreamingChunkSelector :=
  if csel.rangeStart ≤ chunk ∧ chunk ≤ csel.rangeEnd then
    if csel.cursor ≠ chunk then (csel.manager.chunkAsked now chunk).map fun m => {csel with cursor := chunk,manager := m}
    else some csel
  else none

def StreamingChunkSelector.new (now lower upper : Nat) : StreamingChunkSelector :=
  ⟨lower,upper,lower,⟨0,now,initialTimeChunkPlayedFor⟩⟩

-- The bitset of the ChunkManager, whether the status of a chunk is ON_DISK, and
-- the downloads that are running.
structure ChunkState (σ H : Type) where
  bitset : BitSet
  onDisk : Nat → Bool
  downer : Downloader σ H

-- What is asked for, in a state the code lets it be: the cursor is in the range
-- (setCursor asserts it), a torrent has fewer than 2^31 chunks (their hashes are
-- in one QByteArray), a chunk was played for some time (chunkAsked asserts it),
-- and a chunk in the bitset is on disk.
structure Streaming (σ H : Type) where
  csel : StreamingChunkSelector
  state : ChunkState σ H
  inRange : csel.cursor ≤ csel.rangeEnd
  few : csel.rangeEnd < 2147483648
  played : 0 < csel.manager.timeLastChunkPlayedFor
  saved : ∀ i, state.bitset.get i = true → state.onDisk i = true

namespace Streaming

variable (s : Streaming σ H)

-- ManagerOfStream::Chunk

def isDownloading (i : Nat) : Bool := (s.state.downer.downloadingChunks.find i).isSome

def getTimeDownloadFinish (i : Nat) : Nat :=
  if s.state.onDisk i then 0
  else match s.state.downer.downloadingChunks.find i with
    | none => infinity
    | some cd =>
      let downloadSpeed := cd.getDownloadSpeed s.state.downer.peers
      if downloadSpeed ≠ 0 then secondsToMSeconds (cd.bytesLeft / downloadSpeed) else infinity

def getTimeUntilRequired (i : Nat) : Nat :=
  let between := uint32Sub i s.csel.cursor
  uint64 ((if between = 0 then 0 else between - 1) * s.csel.manager.timeLastChunkPlayedFor)

def doesMeetRequirement (i : Nat) : Bool := s.getTimeUntilRequired i ≥ s.getTimeDownloadFinish i

-- updateBuffersRangeIndexes

def bufferRequiredStartsFrom : Nat :=
  if s.state.onDisk s.csel.cursor && s.csel.cursor != s.csel.rangeEnd then uint32 (s.csel.cursor + 1) else s.csel.cursor

def bufferRequiredFinishTo : Nat :=
  min (uint32 (s.bufferRequiredStartsFrom + s.csel.manager.getSizeOfBufferRequired - 1)) s.csel.rangeEnd

def bufferPreferredStartsFrom : Nat := min (uint32 (s.bufferRequiredFinishTo + 1)) s.csel.rangeEnd

def bufferPreferredFinishTo : Nat := min (uint32 (s.bufferRequiredFinishTo + getSizeOfBufferPreferred - 1)) s.csel.rangeEnd

def getChunkFromBufferRequiredNotMeetRequirement : Option Nat :=
  (upTo s.bufferRequiredStartsFrom s.bufferRequiredFinishTo).find? fun i => !s.doesMeetRequirement i

def selectChunkFromBufferRequiredNotMeetRequirement (pd : PieceDownloader) : Option Nat :=
  match s.getChunkFromBufferRequiredNotMeetRequirement with
  | none => none
  | some i => (upTo i s.bufferRequiredFinishTo).find? pd.hasChunk

def preferredLoop (pd : PieceDownloader) (timeDownload : Nat) : List Nat → Nat → Nat → Option Nat
  | [],maximumTimeDownload,result => if maximumTimeDownload ≠ 0 then some result else none
  | i :: rest,maximumTimeDownload,result =>
    if !s.state.onDisk i && pd.hasChunk i then
      if !s.isDownloading i then some i
      else if !s.doesMeetRequirement i then some i
      else if timeDownload > maximumTimeDownload then preferredLoop pd timeDownload rest timeDownload i
      else preferredLoop pd timeDownload rest maximumTimeDownload result
    else preferredLoop pd timeDownload rest maximumTimeDownload result

-- time_download is 0 and stays it.
def selectChunkFromBufferPreferred (pd : PieceDownloader) : Option Nat :=
  s.preferredLoop pd 0 (upTo s.bufferPreferredStartsFrom s.bufferPreferredFinishTo) 0 s.bufferPreferredStartsFrom

def select (pd : PieceDownloader) : Option Nat :=
  match s.selectChunkFromBufferRequiredNotMeetRequirement pd with
  | some i => some i
  | none =>
    match s.selectChunkFromBufferPreferred pd with
    | some i => some i
    | none =>
      (upTo (s.csel.cursor + 1) s.csel.rangeEnd).reverse.find? fun i =>
        !s.state.bitset.get i && !s.isDownloading i && pd.hasChunk i

def InBufferRequired (i : Nat) : Prop := s.bufferRequiredStartsFrom ≤ i ∧ i ≤ s.bufferRequiredFinishTo

variable {s : Streaming σ H} {pd : PieceDownloader}

theorem required_bounds (s : Streaming σ H) :
    s.csel.cursor ≤ s.bufferRequiredStartsFrom ∧ s.bufferRequiredStartsFrom ≤ s.csel.rangeEnd ∧
      s.bufferRequiredFinishTo ≤ s.csel.rangeEnd := by
  have inRange := s.inRange
  have few := s.few
  refine ⟨?_,?_,Nat.min_le_right _ _⟩
  · unfold bufferRequiredStartsFrom uint32
    split <;> omega
  · unfold bufferRequiredStartsFrom uint32
    split
    · rename_i next
      simp only [Bool.and_eq_true,bne_iff_ne] at next
      omega
    · exact inRange

theorem size_bounds (s : Streaming σ H) :
    3 ≤ s.csel.manager.getSizeOfBufferRequired ∧ s.csel.manager.getSizeOfBufferRequired ≤ 10000 := by
  have played := s.played
  unfold ManagerOfStream.getSizeOfBufferRequired
  refine ⟨Nat.le_max_right _ _,Nat.max_le.mpr ⟨?_,by decide⟩⟩
  rw [show secondsToMSeconds secondsInBufferRequired = 10000 from rfl]
  apply Nat.le_of_lt_succ
  rw [Nat.div_lt_iff_lt_mul played]
  omega

theorem onDisk_meets (there : s.state.onDisk i = true) : s.doesMeetRequirement i = true := by
  have finished : s.getTimeDownloadFinish i = 0 := if_pos there
  unfold doesMeetRequirement
  rw [finished]
  exact decide_eq_true (Nat.zero_le _)

theorem required_iff : s.selectChunkFromBufferRequiredNotMeetRequirement pd = some i ↔
    ∃ late, s.InBufferRequired late ∧ s.doesMeetRequirement late = false ∧
      (∀ j, s.InBufferRequired j → j < late → s.doesMeetRequirement j = true) ∧
      s.InBufferRequired i ∧ late ≤ i ∧ pd.hasChunk i = true ∧ ∀ j, late ≤ j → j < i → pd.hasChunk j = false := by
  have first : ∀ late, s.getChunkFromBufferRequiredNotMeetRequirement = some late ↔
      s.InBufferRequired late ∧ s.doesMeetRequirement late = false ∧
        ∀ j, s.InBufferRequired j → j < late → s.doesMeetRequirement j = true := by
    intro late
    unfold getChunkFromBufferRequiredNotMeetRequirement InBufferRequired
    rw [find_upTo]
    constructor
    · rintro ⟨bounds,isLate,before⟩
      exact ⟨bounds,by simpa using isLate,fun j inside less => by simpa using before j inside.1 less⟩
    · rintro ⟨bounds,isLate,before⟩
      exact ⟨bounds,by simpa using isLate,fun j low less => by simpa using before j ⟨low,by omega⟩ less⟩
  unfold selectChunkFromBufferRequiredNotMeetRequirement
  constructor
  · intro found
    split at found
    · cases found
    · rename_i late isFirst
      obtain ⟨bounds,isLate,before⟩ := (first late).mp isFirst
      obtain ⟨inside,has,without⟩ := find_upTo.mp found
      exact ⟨late,bounds,isLate,before,⟨Nat.le_trans bounds.1 inside.1,inside.2⟩,inside.1,has,without⟩
  · rintro ⟨late,bounds,isLate,before,inside,after,has,without⟩
    rw [(first late).mpr ⟨bounds,isLate,before⟩]
    exact find_upTo.mpr ⟨⟨after,inside.2⟩,has,without⟩

end Streaming

open Streaming

def idleDownloader : Downloader Unit Unit where
  completed := false
  chunkSize _ := 16384
  hash _ := ()
  downloadingChunks := .empty
  pieceDownloaders := []
  peers _ := ⟨0,false,true,false,.new 4,0,0,1,[],[],25⟩
  cache := ⟨16384,fun _ => 0,[],[],fun _ _ => true,fun _ _ => 0,fun _ => 16384,[]⟩
  bytesDownloaded := 0
  totalUnnecessaryData := 0
  unnecessaryDataChunkFinished := 0

end KtorrentStream.Download
