import KtorrentStream.Diskio.ExcludedFiles
import KtorrentStream.Torrent.ChunkFiles
set_option autoImplicit true

namespace KtorrentStream.Datachecker
open KtorrentStream.Util KtorrentStream.Torrent KtorrentStream.Torrent.Files KtorrentStream.Diskio

-- A torrent, the files of it that are excluded, and what is on disk: the data files,
-- the dnd files and those of an old style dnd directory.
structure Checked where
  files : Files
  hash : Nat → List UInt8
  sha1 : List UInt8 → List UInt8
  doNotDownload : Nat → Bool
  onDisk : Nat → Option (List UInt8)
  dnd : Nat → Option (List UInt8)
  oldDnd : Nat → Option (List UInt8)

namespace Checked

variable (w : Checked)

def dndFile (k : Nat) : Option DNDFile :=
  ((w.dnd k).or (w.oldDnd k)).map fun bytes => {DNDFile.create (w.files.file k) w.files.chunkSize with data := bytes.drop 32}

def chunkSizeOf (c : Nat) : Nat :=
  let cs := if c = uint32Sub w.files.numChunks 1 then uint32 (Disk.lastChunkSize w.files) else uint32 w.files.chunkSize
  if cs = 0 then uint32 w.files.chunkSize else cs

-- What loadChunk reads from each of several files: the offset, and to_read.
def parts (c cs count : Nat) : Nat → Nat → List Nat → List Part
  | _,_,[] => []
  | i,read,k :: rest =>
    let f := w.files.file k
    let off := if i = 0 then w.files.fileOffset f c else 0
    let toRead := if i = 0 then uint32 f.lastChunkSize else if i = count - 1 then uint32Sub cs (uint32 read) else uint32 f.size
    ⟨k,off,toRead⟩ :: parts c cs count (i + 1) (read + toRead) rest

end Checked

-- files are the indices of the files that are open, pos is the position cache of the torrent.
structure MultiDataChecker where
  buf : List UInt8
  files : List Nat
  result : Nat → Bool
  failed : Nat
  found : Nat
  downloaded : Nat
  notDownloaded : Nat
  pos : PosCache

namespace MultiDataChecker

variable (w : Checked) (m : MultiDataChecker)

def closePastFiles (minIdx : Nat) : MultiDataChecker := {m with files := m.files.filter fun k => minIdx ≤ k}

-- none for the Error of a file that cannot be opened.
def open_ (k : Nat) : Option MultiDataChecker :=
  if k ∈ m.files then some m
  else if (w.onDisk k).isSome then some {m with files := k :: m.files}
  else none

def readFile (k off size read : Nat) : Nat × MultiDataChecker :=
  let bytes := (((w.onDisk k).getD []).drop off).take size
  (bytes.length,{m with buf := CacheFile.splice m.buf bytes read})

-- The loop over several files. The Error of open is caught.
def loadParts : Nat → Nat → List Part → MultiDataChecker → Bool × MultiDataChecker
  | _,_,[],m => (true,m)
  | i,read,part :: rest,m =>
    if w.doNotDownload part.file then
      match w.dndFile part.file with
      | none => loadParts (i + 1) (read + part.len) rest m
      | some d =>
        let bytes := if i = 0 then d.readLastChunk 0 part.len else d.readFirstChunk 0 part.len
        loadParts (i + 1) (read + part.len) rest {m with buf := CacheFile.splice m.buf bytes read}
    else
      match w.onDisk part.file with
      | none => (false,m)
      | some data =>
        if data.length < part.off then (false,m)
        else
          match m.open_ w part.file with
          | none => (false,m)
          | some m =>
            let (n,m) := m.readFile w part.file part.off part.len read
            if n ≠ part.len then (false,m) else loadParts (i + 1) (read + part.len) rest m

def loadChunk (c cs : Nat) : Option (Bool × MultiDataChecker) :=
  let (tflist,pos) := w.files.calcChunkPos m.pos c
  let m := {m with pos := pos}.closePastFiles (tflist.headD 0)
  match tflist with
  | [k] =>
    if w.doNotDownload k then some (false,m)
    else
      (m.open_ w k).map fun m =>
        let (n,m) := m.readFile w k (w.files.fileOffset (w.files.file k) c) cs 0
        (n == cs,m)
  | list => some (loadParts w 0 0 (w.parts c cs list.length 0 0 list) m)

def checkChunk (currentStatus : Nat → Bool) (c : Nat) : Option MultiDataChecker :=
  match m.loadChunk w c (w.chunkSizeOf c) with
  | none => none
  | some (false,m) =>
    some (if currentStatus c then {m with failed := m.failed + 1} else {m with notDownloaded := m.notDownloaded + 1})
  | some (true,m) =>
    let ok := w.sha1 (m.buf.take (w.chunkSizeOf c)) == w.hash c
    let m := {m with result := fun d => if d = c then ok else m.result d}
    some (match ok,currentStatus c with
      | true,true => {m with downloaded := m.downloaded + 1}
      | false,true => {m with failed := m.failed + 1}
      | false,false => {m with notDownloaded := m.notDownloaded + 1}
      | true,false => {m with found := m.found + 1})

-- A new checker; memory is what the new buffer holds.
def new (memory : List UInt8) (pos : PosCache) : MultiDataChecker := ⟨memory,[],fun _ => false,0,0,0,0,pos⟩

def check (currentStatus : Nat → Bool) (memory : List UInt8) (pos : PosCache) (first last : Nat) : Option MultiDataChecker :=
  let first := if first ≥ w.files.numChunks then 0 else first
  let last := if last ≥ w.files.numChunks then uint32Sub w.files.numChunks 1 else last
  (upTo first last).foldlM (fun m c => m.checkChunk w currentStatus c) (new memory pos)

end MultiDataChecker

namespace Checked

variable (w : Checked)

-- Where savePiece keeps a byte of a chunk in the dnd file of one of the chunk's files.
def kept (c k g : Nat) : Nat :=
  if k = (filesOf w.files c 0).headD 0 then
    (DNDFile.create (w.files.file k) w.files.chunkSize).firstSize + (g - w.files.fileOffset (w.files.file k) c)
  else g

def byte (c k g : Nat) : Option UInt8 :=
  if w.doNotDownload k then (w.dndFile k).bind fun d => d.data[w.kept c k g]? else (w.onDisk k).bind fun data => data[g]?

structure InChunk (c k g : Nat) : Prop where
  inFile : g < w.files.size k
  low : c * w.files.chunkSize ≤ w.files.start k + g
  high : w.files.start k + g < c * w.files.chunkSize + w.files.chunkLen c

def Inside (c k : Nat) : Prop := w.files.start k ≤ c * w.files.chunkSize ∧ c * w.files.chunkSize + w.files.chunkLen c ≤ w.files.start k + w.files.size k

def offset (c k g : Nat) : Nat := w.files.start k + g - c * w.files.chunkSize

structure Intact (c : Nat) : Prop where
  spread : ∀ k, w.Inside c k → w.doNotDownload k = false
  bytes : ∃ bytes : List UInt8, bytes.length = w.files.chunkLen c ∧ (∀ k g, w.InChunk c k g → w.byte c k g = bytes[w.offset c k g]?) ∧
    w.sha1 bytes = w.hash c

-- The bytes of a chunk with the torrent's hash that is not intact: a byte of an excluded
-- file is missing, all that is on disk of the chunk agrees with them, and the other files
-- have their part of it.
structure Completes (c : Nat) (bytes : List UInt8) : Prop where
  length : bytes.length = w.files.chunkLen c
  hash : w.sha1 bytes = w.hash c
  spread : ∀ k, w.Inside c k → w.doNotDownload k = false
  missing : ∃ k g, w.InChunk c k g ∧ w.byte c k g = none
  there : ∀ k g, w.InChunk c k g → w.doNotDownload k = false → (w.byte c k g).isSome = true
  agrees : ∀ k g b, w.InChunk c k g → w.byte c k g = some b → bytes[w.offset c k g]? = some b

end Checked

-- A check of the chunks from first to last ends, sets the bits of exactly the intact ones,
-- and counts each chunk once.
def Reports (w : Checked) (currentStatus : Nat → Bool) (memory : List UInt8) (pos : PosCache) (first last : Nat) : Prop :=
  ∃ m, MultiDataChecker.check w currentStatus memory pos first last = some m ∧
    (∀ c, first ≤ c → c ≤ last → (m.result c = true ↔ w.Intact c)) ∧
    m.downloaded + m.failed + m.found + m.notDownloaded = last + 1 - first

end KtorrentStream.Datachecker
