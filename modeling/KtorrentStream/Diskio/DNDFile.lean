import KtorrentStream.Diskio.MultiFileCache
set_option autoImplicit true

namespace KtorrentStream.Diskio
open KtorrentStream.Util KtorrentStream.Torrent

-- A file of the dnd directory. Its header is not read again once it is there, data
-- is what comes behind it: the first chunk's part, and from firstSize on the last
-- chunk's.
structure DNDFile where
  firstSize : Nat
  data : List UInt8

namespace DNDFile

-- fwrite behind the end leaves zeros in between.
def put (data bytes : List UInt8) (pos : Nat) : List UInt8 :=
  if bytes = [] then data else CacheFile.splice (data ++ List.replicate (pos - data.length) 0) bytes pos

def create (tf : TorrentFile) (chunkSize : Nat) : DNDFile := ⟨uint32Sub (uint32 chunkSize) (uint32 tf.firstChunkOffset),[]⟩

variable (d : DNDFile)

def readFirstChunk (off size : Nat) : List UInt8 := (d.data.drop off).take size

def readLastChunk (off size : Nat) : List UInt8 := (d.data.drop (d.firstSize + off)).take size

def writeFirstChunk (bytes : List UInt8) (off : Nat) : DNDFile := {d with data := put d.data bytes off}

def writeLastChunk (bytes : List UInt8) (off : Nat) : DNDFile := {d with data := put d.data bytes (d.firstSize + off)}

end DNDFile

-- The data files and the dnd files. A file is in one of the two: `files` has a
-- place for each, which is empty for one that has a dnd file.
structure Disk where
  files : List CacheFile
  dndFiles : Nat → Option DNDFile

namespace Disk

variable (t : Files) (disk : Disk)

-- What is read for a part of a chunk that starts in file `first`. Only a data file
-- throws when it is too short.
def readPart (c first : Nat) (part : Part) : Option (List UInt8) :=
  match disk.dndFiles part.file with
  | none => disk.files[part.file]?.bind fun f => f.read part.len part.off
  | some d =>
    some (if part.file = first then d.readLastChunk (uint32Sub (uint32 part.off) (uint32 (t.fileOffset (t.file first) c))) part.len
      else d.readFirstChunk (uint32 part.off) part.len)

def setDnd (k : Nat) (d : Option DNDFile) : Nat → Option DNDFile := fun j => if j = k then d else disk.dndFiles j

def writePart (c first : Nat) (bytes : List UInt8) (part : Part) : Option Disk :=
  match disk.dndFiles part.file with
  | none =>
    match disk.files[part.file]? with
    | none => none
    | some f => (f.write bytes part.off).map fun f => {disk with files := disk.files.set part.file f}
  | some d =>
    let d := if part.file = first then d.writeLastChunk bytes (uint32Sub (uint32 part.off) (uint32 (t.fileOffset (t.file first) c)))
      else d.writeFirstChunk bytes (uint32 part.off)
    some {disk with dndFiles := disk.setDnd part.file (some d)}

-- Each part goes behind the one before, also when less of it could be read.
def readParts (c first : Nat) : List Part → List UInt8 → Nat → Option (List UInt8)
  | [],buf,_ => some buf
  | part :: rest,buf,pieceOff =>
    match disk.readPart t c first part with
    | none => none
    | some bytes => readParts c first rest (CacheFile.splice buf bytes pieceOff) (pieceOff + part.len)

def writeParts (c first : Nat) : Disk → List Part → List UInt8 → Option Disk
  | disk,[],_ => some disk
  | disk,part :: rest,data =>
    match disk.writePart t c first (data.take part.len) part with
    | none => none
    | some disk => writeParts c first disk rest (data.drop part.len)

def lastChunkSize : Nat := if t.totalSize % t.chunkSize > 0 then t.totalSize % t.chunkSize else t.chunkSize

def firstPart (tf : TorrentFile) : Nat :=
  let cs := if tf.firstChunk = uint32Sub t.numChunks 1 then uint32 (lastChunkSize t) else uint32 t.chunkSize
  uint32Sub cs (uint32 tf.firstChunkOffset)

-- tmp is what the buffer holds that is not read into.
def saveFirstAndLastChunk (tf : TorrentFile) (src tmp : List UInt8) : DNDFile :=
  let n := firstPart t tf
  let first := src.take n
  let tmp := first ++ tmp.drop first.length
  let out := (DNDFile.create tf t.chunkSize).writeFirstChunk (tmp.take n) 0
  if tf.firstChunk ≠ tf.lastChunk then
    let last := (src.drop (t.fileOffset tf tf.lastChunk)).take (uint32 tf.lastChunkSize)
    let tmp := last ++ tmp.drop last.length
    out.writeLastChunk (tmp.take (uint32 tf.lastChunkSize)) 0
  else out

def recreateFile (tf : TorrentFile) (dnd : DNDFile) : List UInt8 :=
  let toRead := if firstPart t tf > tf.size then uint32 tf.size else firstPart t tf
  let data := DNDFile.put [] (dnd.readFirstChunk 0 toRead) 0
  if tf.firstChunk ≠ tf.lastChunk then
    DNDFile.put data (dnd.readLastChunk 0 (uint32 tf.lastChunkSize)) (t.fileOffset tf tf.lastChunk)
  else data

-- Excluding a file that is excluded, or including one that is not, does nothing.
def downloadStatusChanged (tmp : List UInt8) (k : Nat) (download : Bool) : Disk :=
  match disk.files[k]?,disk.dndFiles k,download with
  | some f,none,false =>
    ⟨disk.files.set k {f with data := []},disk.setDnd k (some (saveFirstAndLastChunk t (t.file k) f.data tmp))⟩
  | some f,some d,true => ⟨disk.files.set k {f with data := recreateFile t (t.file k) d},disk.setDnd k none⟩
  | _,_,_ => disk

end Disk

-- The cache of a torrent with excluded files. tmp is what the buffer of
-- saveFirstAndLastChunk holds when it is new.
structure ExcludingCache extends MultiFileCache where
  dndFiles : Nat → Option DNDFile
  tmp : List UInt8

namespace ExcludingCache

variable (t : Files) (m : ExcludingCache)

def disk : Disk := ⟨m.files,m.dndFiles⟩

def withDisk (disk : Disk) : ExcludingCache := {m with files := disk.files,dndFiles := disk.dndFiles}

-- There is no piece in an excluded file alone.
def createPiece (chunk off len : Nat) (readOnly : Bool) : Option (Nat × ExcludingCache) :=
  match (t.calcChunkPos m.pos chunk).1 with
  | [k] =>
    if (m.dndFiles k).isSome then none
    else (m.toMultiFileCache.createPiece t chunk off len readOnly).map fun created => (created.1,{m with toMultiFileCache := created.2})
  | _ => (m.toMultiFileCache.createPiece t chunk off len readOnly).map fun created => (created.1,{m with toMultiFileCache := created.2})

def preparePiece (chunk off len : Nat) : Option (Nat × ExcludingCache) :=
  match m.findPiece chunk off len false with
  | some p => some (p,m)
  | none => m.createPiece t chunk off len false

def fromFiles (chunk off length : Nat) (buf : List UInt8) : Option (List UInt8 × PosCache) :=
  let tflist := t.calcChunkPos m.pos chunk
  match tflist.1 with
  | [k] =>
    (m.files[k]?.bind fun f => f.read length (uint64 (t.fileOffset (t.file k) chunk + off))).map fun bytes =>
      (CacheFile.splice buf bytes 0,tflist.2)
  | list =>
    (m.disk.readParts t chunk (list.headD 0) (MultiFileCache.parts t chunk off length list.length 0 0 list) buf 0).map fun buf => (buf,tflist.2)

def loadPiece (chunk off length : Nat) : Option (Nat × ExcludingCache) :=
  match m.findPiece chunk off length true with
  | some p => some (p,m)
  | none =>
    match m.createPiece t chunk off length true with
    | none => none
    | some (p,m) =>
      match m.pieces[p]? with
      | none => none
      | some pd =>
        if pd.mapped then some (p,m)
        else
          match m.fromFiles t chunk off length pd.buf with
          | none => none
          | some (buf,pos) => some (p,{m with pos := pos,pieces := m.pieces.set p {pd with buf := buf}})

def savePiece (p : Nat) : Option ExcludingCache :=
  match m.pieces[p]? with
  | none => some m
  | some pd =>
    if pd.mapped then some m
    else
      let tflist := t.calcChunkPos m.pos pd.chunk
      (m.disk.writeParts t pd.chunk (tflist.1.headD 0) (MultiFileCache.parts t pd.chunk pd.off pd.len tflist.1.length 0 0 tflist.1) pd.buf).map
        fun disk => {m.withDisk disk with pos := tflist.2}

def write (p : Nat) (data : List UInt8) : Option ExcludingCache :=
  (m.toMultiFileCache.write t p data).map fun cache => {m with toMultiFileCache := cache}

def clearPieces (chunk : Nat) : ExcludingCache := {m with toMultiFileCache := m.toMultiFileCache.clearPieces chunk}

def downloadStatusChanged (k : Nat) (download : Bool) : ExcludingCache := m.withDisk (m.disk.downloadStatusChanged t m.tmp k download)

end ExcludingCache

end KtorrentStream.Diskio
