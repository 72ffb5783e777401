import KtorrentStream.Diskio.ChunkManager
import KtorrentStream.Torrent.ChunkFiles
set_option autoImplicit true

namespace KtorrentStream.Diskio
open KtorrentStream.Util KtorrentStream.Torrent KtorrentStream.Torrent.Files

-- What the files of a torrent are and what the user wants of them. The preview sizes
-- are Uint32.
structure FilePriorities where
  priority : Nat → Priority
  audio : Nat → Bool
  video : Nat → Bool
  previewSizeAudio : Nat
  previewSizeVideo : Nat

def FilePriorities.isMultimedia (e : FilePriorities) (k : Nat) : Bool := e.audio k || e.video k

def isBorderChunk (t : Files) (idx : Nat) : Bool :=
  (List.range (t.numFiles - 1)).any fun i => (t.file i).lastChunk == idx && (t.file (i + 1)).firstChunk == idx

-- The chunk manager with the file position cache of its torrent, and the chunks that
-- the Downloader has a ChunkDownload for.
structure PriorityControl (t : Files) where
  manager : ChunkManager t.numChunks
  pos : PosCache
  posValid : PosValid t pos
  downloading : Nat → Bool

namespace PriorityControl

variable {t : Files} (e : FilePriorities) (s : PriorityControl t)

def filesAt (idx : Nat) : List Nat × PriorityControl t :=
  ((t.calcChunkPos s.pos idx).1,{s with pos := (t.calcChunkPos s.pos idx).2,posValid := calcChunkPos_valid s.posValid idx})

def resetChunk (i : Nat) : PriorityControl t := {s with manager := s.manager.resetChunk i}

def prioritise (lower upper : Nat) (priority : Priority) : PriorityControl t := {s with manager := s.manager.prioritise lower upper priority}

-- Downloader::onExcluded, which is connected to the signal.
def cancelDownload (i : Nat) : PriorityControl t :=
  if s.downloading i then {s with manager := s.manager.resetChunk i,downloading := fun j => if j = i then false else s.downloading j}
  else s

def excluded (lower upper : Nat) : PriorityControl t := (upTo lower upper).foldl cancelDownload s

def exclude (lower upper : Nat) : PriorityControl t :=
  excluded {s with manager := s.manager.exclude lower upper} (min lower upper) (max lower upper)

def includeRange (lower upper : Nat) : PriorityControl t := {s with manager := s.manager.includeRange lower upper}

def higher (h p : Priority) : Priority := if p.value > h.value then p else h

def setBorderChunkPriority (idx : Nat) (prio : Priority) : PriorityControl t :=
  let files := s.filesAt idx
  let highest := files.1.foldl (fun h k => higher h (e.priority k)) prio
  let s := files.2.prioritise idx idx highest
  if highest = .onlySeed then s.excluded idx idx else s

def resetBorderChunk (idx k : Nat) : Bool × PriorityControl t :=
  let files := s.filesAt idx
  match files.1.find? fun j => j != k && e.priority j != .excluded with
  | some other => (false,files.2.setBorderChunkPriority e idx (e.priority other))
  | none => (true,files.2.resetChunk idx)

def previewChunkRangeSize (t : Files) (k : Nat) : Nat :=
  if !e.isMultimedia k then 0
  else if (t.file k).firstChunk = (t.file k).lastChunk then 1
  else
    let previewSize := if e.video k then e.previewSizeVideo else e.previewSizeAudio
    let nchunks := uint32 (previewSize / t.chunkSize)
    if nchunks = 0 then 1 else nchunks

def doPreviewPriority (k : Nat) : PriorityControl t :=
  let f := t.file k
  if e.priority k = .excluded ∨ e.priority k = .onlySeed then s
  else if f.firstChunk = f.lastChunk then s.prioritise f.firstChunk f.lastChunk .preview
  else
    let nchunks := previewChunkRangeSize e t k
    if nchunks = 0 then s
    else
      let s := s.prioritise f.firstChunk (uint32 (f.firstChunk + nchunks)) .preview
      if uint32Sub f.lastChunk f.firstChunk > nchunks then s.prioritise (uint32Sub f.lastChunk nchunks) f.lastChunk .preview else s

-- What is done when the file gets excluded. The cache and the priority file come
-- after it.
def excludeFile (k : Nat) : PriorityControl t :=
  let first := (t.file k).firstChunk
  let last := (t.file k).lastChunk
  if first = last then
    if !isBorderChunk t first then (s.resetChunk first).exclude first first
    else
      let reset := s.resetBorderChunk e last k
      if reset.1 then reset.2.exclude first last else reset.2
  else
    let s := (List.range' (first + 1) (last - (first + 1))).foldl resetChunk s
    let front := if !isBorderChunk t first then (first,s.resetChunk first)
      else
        let reset := s.resetBorderChunk e first k
        (if reset.1 then first else first + 1,reset.2)
    let back := if last ≠ front.1 then
        if !isBorderChunk t last then (last,front.2.resetChunk last)
        else
          let reset := front.2.resetBorderChunk e last k
          (if reset.1 then last else last - 1,reset.2)
      else (last,front.2)
    if front.1 ≤ back.1 then back.2.exclude front.1 back.1 else back.2

def downloadStatusChanged (k : Nat) (download : Bool) : PriorityControl t :=
  if download then
    let s := s.includeRange (t.file k).firstChunk (t.file k).lastChunk
    if e.isMultimedia k then s.doPreviewPriority e k else s
  else s.excludeFile e k

-- setBorderChunkPriority for a border chunk, prioritise for another one.
def prioritiseFile (k : Nat) (newpriority : Priority) : PriorityControl t :=
  let first := (t.file k).firstChunk
  let last := (t.file k).lastChunk
  if first = last then
    let s := if isBorderChunk t first then s.setBorderChunkPriority e first newpriority else s.prioritise first first newpriority
    if newpriority = .onlySeed then s.excluded first last else s
  else
    let front := if isBorderChunk t first then (first + 1,s.setBorderChunkPriority e first newpriority) else (first,s)
    let back := if isBorderChunk t last then (last - 1,front.2.setBorderChunkPriority e last newpriority) else (last,front.2)
    if front.1 ≤ back.1 then
      let s := back.2.prioritise front.1 back.1 newpriority
      if newpriority = .onlySeed then s.excluded front.1 back.1 else s
    else back.2

def downloadPriorityChanged (k : Nat) (newpriority oldpriority : Priority) : PriorityControl t :=
  if newpriority = .excluded then s.downloadStatusChanged e k false
  else
    let s := if oldpriority = .excluded then s.downloadStatusChanged e k true else s
    let s := if oldpriority = .onlySeed then s.includeRange (t.file k).firstChunk (t.file k).lastChunk else s
    let s := s.prioritiseFile e k newpriority
    if e.isMultimedia k then s.doPreviewPriority e k else s

end PriorityControl

end KtorrentStream.Diskio
