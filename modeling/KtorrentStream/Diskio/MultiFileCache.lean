import KtorrentStream.Torrent.Files
import KtorrentStream.Diskio.PieceData
set_option autoImplicit true

namespace KtorrentStream.Diskio
open KtorrentStream.Util KtorrentStream.Torrent

-- data is what is in the file, its length file_size.
structure CacheFile where
  maxSize : Nat
  data : List UInt8

namespace CacheFile

variable (f : CacheFile)

-- QFile::resize fills up with zeros.
def grown (size : Nat) : List UInt8 := f.data ++ List.replicate (size - f.data.length) 0

def splice (data bytes : List UInt8) (off : Nat) : List UInt8 := data.take off ++ bytes ++ data.drop (off + bytes.length)

-- none for a thrown Error.
def read (size off : Nat) : Option (List UInt8) :=
  if off ≥ f.data.length ∨ off ≥ f.maxSize then none
  else
    let bytes := (f.data.drop off).take size
    if bytes.length = size then some bytes else none

def write (bytes : List UInt8) (off : Nat) : Option CacheFile :=
  if uint64 (off + bytes.length) > f.maxSize then none else some {f with data := splice (f.grown off) bytes off}

-- The file is made long enough for the mapping.
def map (size off : Nat) : Option CacheFile :=
  if uint64 (off + size) > f.maxSize then none else some {f with data := f.grown (off + size)}

end CacheFile

structure Part where
  file : Nat
  off : Nat
  len : Nat

def calculateOffsetAndLength (pieceOff pieceLen fileOff chunkOff chunkLen : Nat) : Nat × Nat :=
  if pieceOff ≥ chunkOff ∧ uint32 (pieceOff + pieceLen) ≤ uint32 (chunkOff + chunkLen) then
    (fileOff + (pieceOff - chunkOff),pieceLen)
  else if pieceOff ≥ chunkOff ∧ pieceLen < uint32 (chunkOff + chunkLen) then
    (fileOff + (pieceOff - chunkOff),uint32Sub chunkLen (pieceOff - chunkOff))
  else if pieceOff < chunkOff ∧ uint32 (pieceOff + pieceLen) > chunkOff ∧ uint32 (pieceOff + pieceLen) ≤ uint32 (chunkOff + chunkLen) then
    (fileOff,uint32Sub pieceLen (chunkOff - pieceOff))
  else if chunkOff ≥ pieceOff ∧ uint32 (chunkOff + chunkLen) < uint32 (pieceOff + pieceLen) then (fileOff,chunkLen)
  else (0,0)

-- The cache of a torrent without excluded files. canMap says whether a piece that
-- lies in one file gets mapped, fresh what the n-th buffer holds before it is
-- written.
structure MultiFileCache where
  files : List CacheFile
  pos : PosCache
  pieces : List PieceData
  pieceCache : List Nat
  canMap : Nat → Nat → Bool
  fresh : Nat → Nat → UInt8

namespace MultiFileCache

variable (t : Files) (m : MultiFileCache)

-- The loop over the files of a chunk that loadPiece and savePiece share: where
-- each part of the piece goes.
def parts (c off length count : Nat) : Nat → Nat → List Nat → List Part
  | _,_,[] => []
  | i,chunkOff,k :: rest =>
    let f := t.file k
    let fileOff := if i = 0 then t.fileOffset f c else 0
    let cdata := if count = 1 then t.chunkLen c
      else if i = 0 then uint32 f.lastChunkSize
      else if i = count - 1 then uint32Sub (t.chunkLen c) chunkOff
      else uint32 f.size
    if uint32 (off + length) ≤ chunkOff ∨ off ≥ uint32 (chunkOff + cdata) then
      parts c off length count (i + 1) (uint32 (chunkOff + cdata)) rest
    else
      let place := calculateOffsetAndLength off length fileOff chunkOff cdata
      ⟨k,place.1,place.2⟩ :: parts c off length count (i + 1) (uint32 (chunkOff + cdata)) rest

def writeParts : List CacheFile → List Part → List UInt8 → Option (List CacheFile)
  | files,[],_ => some files
  | files,part :: rest,data =>
    match files[part.file]? with
    | none => none
    | some f =>
      match f.write (data.take part.len) part.off with
      | none => none
      | some f => writeParts (files.set part.file f) rest (data.drop part.len)

def readParts (files : List CacheFile) : List Part → Option (List UInt8)
  | [] => some []
  | part :: rest =>
    match files[part.file]? with
    | none => none
    | some f =>
      match f.read part.len part.off,readParts files rest with
      | some bytes,some more => some (bytes ++ more)
      | _,_ => none

def suits (chunk off len : Nat) (readOnly : Bool) (p : Nat) : Bool :=
  match m.pieces[p]? with
  | none => false
  | some pd => pd.chunk == chunk && pd.off == off && pd.len == len && !(pd.readOnly && !readOnly)

def findPiece (chunk off len : Nat) (readOnly : Bool) : Option Nat := m.pieceCache.find? (m.suits chunk off len readOnly)

def insertPiece (pd : PieceData) : MultiFileCache :=
  {m with pieces := m.pieces ++ [pd],pieceCache := m.pieces.length :: m.pieceCache}

def buffered (chunk off len : Nat) (readOnly : Bool) : PieceData :=
  ⟨chunk,off,len,false,readOnly,(List.range len).map (m.fresh m.pieces.length)⟩

-- Where a piece of a chunk in one file is in that file.
def mappedOff (k chunk off : Nat) : Nat := uint64 (t.fileOffset (t.file k) chunk + off)

def createPiece (chunk off len : Nat) (readOnly : Bool) : Option (Nat × MultiFileCache) :=
  let tflist := t.calcChunkPos m.pos chunk
  let m := {m with pos := tflist.2}
  match tflist.1 with
  | [k] =>
    match m.files[k]? with
    | none => none
    | some f =>
      if m.canMap chunk off then
        match f.map len (mappedOff t k chunk off) with
        | none => none
        | some f => some (m.pieces.length,{m with files := m.files.set k f}.insertPiece ⟨chunk,off,len,true,readOnly,[]⟩)
      else some (m.pieces.length,m.insertPiece (m.buffered chunk off len readOnly))
  | _ => some (m.pieces.length,m.insertPiece (m.buffered chunk off len readOnly))

def preparePiece (chunk off len : Nat) : Option (Nat × MultiFileCache) :=
  match m.findPiece chunk off len false with
  | some p => some (p,m)
  | none => m.createPiece t chunk off len false

def fromFiles (chunk off length : Nat) : Option (List UInt8 × PosCache) :=
  let tflist := t.calcChunkPos m.pos chunk
  match tflist.1 with
  | [k] => (m.files[k]?.bind fun f => f.read length (uint64 (t.fileOffset (t.file k) chunk + off))).map fun bytes => (bytes,tflist.2)
  | list => (readParts m.files (parts t chunk off length list.length 0 0 list)).map fun bytes => (bytes,tflist.2)

def loadPiece (chunk off length : Nat) : Option (Nat × MultiFileCache) :=
  match m.findPiece chunk off length true with
  | some p => some (p,m)
  | none =>
    match m.createPiece t chunk off length true with
    | none => none
    | some (p,m) =>
      match m.pieces[p]? with
      | none => none
      | some pd =>
        if pd.mapped then some (p,m)
        else
          match m.fromFiles t chunk off length with
          | none => none
          | some (bytes,pos) =>
            some (p,{m with pos := pos,pieces := m.pieces.set p {pd with buf := bytes ++ pd.buf.drop bytes.length}})

def savePiece (p : Nat) : Option MultiFileCache :=
  match m.pieces[p]? with
  | none => some m
  | some pd =>
    if pd.mapped then some m
    else
      let tflist := t.calcChunkPos m.pos pd.chunk
      (writeParts m.files (parts t pd.chunk pd.off pd.len tflist.1.length 0 0 tflist.1) pd.buf).map fun files =>
        {m with files := files,pos := tflist.2}

-- The file that a mapped piece of a chunk is a part of.
def mappedFile (chunk : Nat) : Nat := (t.calcChunkPos ⟨0,0⟩ chunk).1.headD 0

def write (p : Nat) (data : List UInt8) : Option MultiFileCache :=
  match m.pieces[p]? with
  | none => some m
  | some pd =>
    if data.length > pd.len then some m
    else if pd.readOnly then none
    else if pd.mapped then
      let k := mappedFile t pd.chunk
      match m.files[k]? with
      | none => none
      | some f => some {m with files := m.files.set k {f with data := CacheFile.splice f.data data (mappedOff t k pd.chunk pd.off)}}
    else some {m with pieces := m.pieces.set p {pd with buf := data ++ pd.buf.drop data.length}}

def bytes (pd : PieceData) : List UInt8 :=
  if pd.mapped then
    let k := mappedFile t pd.chunk
    match m.files[k]? with
    | none => []
    | some f => (f.data.drop (mappedOff t k pd.chunk pd.off)).take pd.len
  else pd.buf

def clearPieces (chunk : Nat) : MultiFileCache :=
  {m with pieceCache := m.pieceCache.filter fun p => (m.pieces[p]?).all fun pd => pd.chunk != chunk}

end MultiFileCache

end KtorrentStream.Diskio
