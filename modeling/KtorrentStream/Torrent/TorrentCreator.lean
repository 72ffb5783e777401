import KtorrentStream.Bcodec.Fields
import KtorrentStream.Diskio.MultiFileCache
set_option autoImplicit true

namespace KtorrentStream.Torrent
open Util Bcodec Diskio

-- A directory as QDir lists it: the files with their bytes, then the directories
-- in it but for "." and "..", which are skipped.
inductive Dir where
  | mk (files : List (List Char × List UInt8)) (dirs : List (List Char × Dir))

-- if (!sd.endsWith(bt::DirSeparator())) sd += bt::DirSeparator();
def withSeparator (path : List Char) : List Char := if path.getLast? = some '/' then path else path ++ ['/']

mutual
def Dir.entries (dir : List Char) : Dir → List (List Char × List UInt8)
  | .mk files dirs => files.map (fun f => (dir ++ f.1,f.2)) ++ entriesOf dir dirs
def entriesOf (dir : List Char) : List (List Char × Dir) → List (List Char × List UInt8)
  | [] => []
  | (name,d) :: rest => d.entries (withSeparator (dir ++ name)) ++ entriesOf dir rest
end

def TorrentFile.fileOffset (f : TorrentFile) (cindex chunkSize : Nat) : Nat :=
  if f.firstChunkOffset = 0 then uint64 (uint32Sub cindex f.firstChunk * chunkSize)
  else
    let off := if uint32Sub cindex f.firstChunk > 0 then uint64 (uint32Sub (uint32Sub cindex f.firstChunk) 1 * chunkSize) else 0
    if cindex > 0 then uint64 (off + (chunkSize - f.firstChunkOffset)) else off

structure CreatedFile where
  path : List Char
  content : List UInt8
  file : TorrentFile

structure TorrentCreator where
  trackers : List (List Char)
  webseeds : List (List Char)
  chunkSize : Nat
  name : List Char
  comments : List Char
  priv : Bool
  decentralized : Bool
  files : List CreatedFile
  totSize : Nat
  numChunks : Nat
  lastSize : Nat
  curChunk : Nat
  hashes : List (List UInt8)

-- What Qt and the system give: QString::toInt, QString::toUtf8, the codec that is utf-8
-- when no encoding is named, the version text, the time, SHA1Hash::generate, and the
-- bytes that a new array has for each chunk.
structure Surroundings where
  qt : QtNumber
  toUtf8 : List Char → List UInt8
  toUnicode : Option (List UInt8) → List UInt8 → List Char
  version : List UInt8
  now : Nat
  generate : List UInt8 → List UInt8
  memory : Nat → Nat → UInt8
  utf8 : ∀ s, toUnicode none (toUtf8 s) = s
  time : now < 9223372036854775808
  generate_length : ∀ data, (generate data).length = 20

namespace TorrentCreator

def addFile (chunkSize : Nat) (s : List CreatedFile × Nat) (entry : List Char × List UInt8) : List CreatedFile × Nat :=
  (s.1 ++ [⟨entry.1,entry.2,.new s.2 entry.2.length chunkSize⟩],uint64 (s.2 + entry.2.length))

-- The constructor, for a target that is a directory; cs counts KiB. chunk_size is an
-- int, so the chunks have fewer than 2^31 bytes.
def new (target : Dir) (trackers webseeds : List (List Char)) (cs : Nat) (name comments : List Char) (priv decentralized : Bool) : TorrentCreator :=
  let chunkSize := cs * 1024
  let (files,totSize) := (target.entries []).foldl (addFile chunkSize) ([],0)
  {trackers,webseeds,chunkSize,name,comments,priv,decentralized,files,totSize,
    numChunks := countChunks totSize chunkSize,
    lastSize := if totSize % chunkSize = 0 then chunkSize else totSize % chunkSize,
    curChunk := 0,
    hashes := []}

section
variable (env : Surroundings)

-- The loop of calcHashMulti over the files of the chunk. A read gives what the file
-- has; none is a write that leaves the array.
def readFiles (c : TorrentCreator) (s count : Nat) : Nat → Nat → List CreatedFile → List UInt8 → Option (List UInt8)
  | _,_,[],buf => some buf
  | i,read,f :: rest,buf =>
    let off := if i = 0 then f.file.fileOffset c.curChunk c.chunkSize else 0
    let toRead := uint32 (
      if count = 1 then s
      else if i = 0 then f.file.lastChunkSize
      else if i + 1 = count then uint32Sub s read
      else f.content.length)
    let part := (f.content.drop off).take toRead
    if read + part.length ≤ s then c.readFiles s count (i + 1) (uint32 (read + toRead)) rest (CacheFile.splice buf part read)
    else none

def fileList (c : TorrentCreator) : List CreatedFile :=
  c.files.filter fun f => decide (f.file.firstChunk ≤ c.curChunk) && decide (c.curChunk ≤ f.file.lastChunk)

def chunkLength (c : TorrentCreator) : Nat := if c.curChunk ≠ uint32Sub c.numChunks 1 then c.chunkSize else c.lastSize

def calcHashMulti (c : TorrentCreator) : Option (Bool × TorrentCreator) :=
  let s := c.chunkLength
  match c.readFiles s c.fileList.length 0 0 c.fileList ((List.range s).map (env.memory c.curChunk)) with
  | none => none
  | some buf =>
    let c := {c with hashes := c.hashes ++ [env.generate buf],curChunk := c.curChunk + 1}
    some (decide (c.curChunk ≥ c.numChunks),c)

-- There are files, so that calcHashSingle is not called.
def calculateHash (c : TorrentCreator) : Option (Bool × TorrentCreator) :=
  if c.curChunk ≥ c.numChunks then some (true,c) else c.calcHashMulti env

def hashLoop : Nat → TorrentCreator → Option TorrentCreator
  | 0,c => some c
  | fuel + 1,c =>
    match c.calculateHash env with
    | none => none
    | some (true,c) => some c
    | some (false,c) => hashLoop fuel c

def run (c : TorrentCreator) : Option TorrentCreator := if c.hashes = [] then hashLoop env (c.numChunks + 1) c else some c

def text (key : String) : Call := .writeByteArray (ascii key)

def string (s : List Char) : Call := .writeByteArray (env.toUtf8 s)

def number (n : Nat) : Call := .writeUint64 (UInt64.ofNat n)

def saveFile (f : CreatedFile) : List Call :=
  [.beginDict,text "length",number f.content.length,text "path",.beginList] ++ (f.path.splitOn '/').map (string env) ++ [.finish,.finish]

-- The size of the array is a Uint32.
def savePieces (c : TorrentCreator) : Option (List UInt8) :=
  if uint32 (c.numChunks * 20) = c.numChunks * 20 then some (c.hashes.take c.numChunks).flatten else none

def saveInfo (c : TorrentCreator) (pieces : List UInt8) : List Call :=
  [.beginDict,text "files",.beginList] ++ c.files.flatMap (saveFile env) ++
    [.finish,text "name",string env c.name,text "piece length",number c.chunkSize,text "pieces",.writeData pieces] ++
    (if c.priv then [text "private",number 1] else []) ++ [.finish]

-- t.section(',',n,n)
def commaField (t : List Char) (n : Nat) : List Char := (t.splitOn ',').getD n []

def node (t : List Char) : List Call :=
  [.beginList,string env (commaField t 0),
    .writeUint32 (UInt32.ofNat (((env.qt.toInt (env.toUtf8 (commaField t 1))).getD 0) % 4294967296).toNat),.finish]

def saveAnnounce (c : TorrentCreator) : List Call :=
  if c.decentralized then []
  else
    [text "announce",string env (c.trackers.headD [])] ++
      (if c.trackers.length > 1 then
        [text "announce-list",.beginList] ++ c.trackers.flatMap (fun t => [.beginList,string env t,.finish]) ++ [.finish]
      else [])

def saveWebSeeds (c : TorrentCreator) : List Call :=
  match c.webseeds with
  | [] => []
  | [u] => [text "url-list",string env u]
  | us => [text "url-list",.beginList] ++ us.map (string env) ++ [.finish]

def torrentCalls (c : TorrentCreator) (pieces : List UInt8) : List Call :=
  [.beginDict] ++ c.saveAnnounce env ++ (if c.comments.length > 0 then [text "comment",string env c.comments] else []) ++
    [text "created by",.writeByteArray env.version,text "creation date",number env.now,text "info"] ++ c.saveInfo env pieces ++
    (if c.decentralized then [text "nodes",.beginList] ++ c.trackers.flatMap (node env) ++ [.finish] else []) ++
    c.saveWebSeeds env ++ [.finish]

def saveTorrent (c : TorrentCreator) : Option (List UInt8) := c.savePieces.map fun pieces => encode (c.torrentCalls env pieces)

end

end TorrentCreator

def filePaths (toUnicode : Option (List UInt8) → List UInt8 → List Char) (enc : Option (List UInt8)) : List BNode → List (List Char)
  | [] => []
  | node :: rest =>
    match node with
    | .dict d _ _ =>
      match BDictNode.getList d "path" with
      | some ln =>
        match loadPath toUnicode enc ln with
        | .ok path => if path.getLast? = some '/' then filePaths toUnicode enc rest else path :: filePaths toUnicode enc rest
        | .error _ => []
      | none => []
    | _ => []

def loadPaths (qt : QtNumber) (toUnicode : Option (List UInt8) → List UInt8 → List Char) (data : QByteArray) : List (List Char) :=
  match decode qt data 0 with
  | .ok (some (.dict dict _ _),_) =>
    match loadBefore dict,BDictNode.getDict dict "info" with
    | .ok enc,some info => filePaths toUnicode enc ((BDictNode.getList info "files").getD [])
    | _,_ => []
  | _ => []

end KtorrentStream.Torrent
