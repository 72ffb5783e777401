import KtorrentStream.Bcodec.BDecoder
import KtorrentStream.Torrent.TorrentFile
set_option autoImplicit true

namespace KtorrentStream.Torrent
open KtorrentStream.Util KtorrentStream.Bcodec

inductive LoadError where
  | decode (err : Bcodec.Failure)
  | corrupted      -- "Corrupted torrent."
  | keyNotFound    -- "Key not found in dict"
  | incompatible   -- "Incompatible type"

-- An Error is thrown, or the process divides by zero.
inductive LoadFailure where
  | thrown (err : LoadError)
  | dividedByZero

abbrev Entries := List (List UInt8 × BNode)

def ascii (text : String) : List UInt8 := text.toList.map fun c => UInt8.ofNat c.toNat

namespace BDictNode

-- QString(e.key) == key: the conversion stops at the first 0 byte.
def getData (children : Entries) (key : String) : Option BNode :=
  (children.find? fun e => e.1.takeWhile (· ≠ 0) = ascii key).map Prod.snd

def getList (children : Entries) (key : String) : Option (List BNode) :=
  match getData children key with
  | some (.list items _ _) => some items
  | _ => none

def getDict (children : Entries) (key : String) : Option Entries :=
  match getData children key with
  | some (.dict entries _ _) => some entries
  | _ => none

def getValue (children : Entries) (key : String) : Option Value :=
  match getData children key with
  | some (.value v _ _) => some v
  | _ => none

end BDictNode

-- getInt, getInt64 and getByteArray of the value that was found.
def getInt : Option Value → Except LoadError Int
  | none => .error .keyNotFound
  | some (.int v) => .ok v
  | some _ => .error .incompatible

def getInt64 : Option Value → Except LoadError Int
  | none => .error .keyNotFound
  | some (.int v) => .ok v
  | some (.int64 v) => .ok v
  | some (.string _) => .error .incompatible

def getByteArray : Option Value → Except LoadError (List UInt8)
  | none => .error .keyNotFound
  | some (.string s) => .ok s
  | some _ => .error .incompatible

def valueOf : BNode → Option Value
  | .value v _ _ => some v
  | _ => none

-- An Int64 stored in a Uint64.
def toUint64 (v : Int) : Nat := (v % 18446744073709551616).toNat

-- lengths has the lengths of the files as they were in the data.
structure Torrent where
  chunkSize : Nat
  totalSize : Nat
  lastChunkSize : Nat
  files : List TorrentFile
  hashPieces : List (List UInt8)
  lengths : List Int

section

-- The text codec, by the value of the encoding entry if there is one.
variable (toUnicode : Option (List UInt8) → List UInt8 → List Char) (enc : Option (List UInt8))

def loadPath : List BNode → Except LoadError (List Char)
  | [] => .ok []
  | node :: rest =>
    match getByteArray (valueOf node) with
    | .error e => .error e
    | .ok v =>
      match loadPath rest with
      | .error e => .error e
      | .ok path => .ok ((toUnicode enc v).filter (· ≠ '\n') ++ (if rest.isEmpty then [] else ['/']) ++ path)

def checkPathForDirectoryTraversal (path : List Char) : Bool := !(path.splitOn '/').contains ['.','.']

-- The length of a file; none for an entry whose path ends with a separator.
def readFile (node : BNode) : Except LoadError (Option Int) :=
  match node with
  | .dict d _ _ =>
    match BDictNode.getList d "path" with
    | none => .error .corrupted
    | some ln =>
      match loadPath toUnicode enc ln with
      | .error e => .error e
      | .ok path =>
        if path.getLast? = some '/' then .ok none
        else if !checkPathForDirectoryTraversal path then .error .corrupted
        else
          match getInt64 (BDictNode.getValue d "length") with
          | .error e => .error e
          | .ok s => .ok (some s)
  | _ => .error .corrupted

def loadFiles (chunkSize : Nat) : List BNode → List TorrentFile → List Int → Nat → Except LoadFailure (List TorrentFile × List Int × Nat)
  | [],files,lengths,totalSize => .ok (files,lengths,totalSize)
  | node :: rest,files,lengths,totalSize =>
    match readFile toUnicode enc node with
    | .error e => .error (.thrown e)
    | .ok none => loadFiles chunkSize rest files lengths totalSize
    | .ok (some s) =>
      if chunkSize = 0 then .error .dividedByZero
      else
        loadFiles chunkSize rest (files ++ [.new totalSize (toUint64 s) chunkSize]) (lengths ++ [s])
          (uint64 (totalSize + toUint64 s))

-- The bytes of each hash that are inside the string.
def hashes (hashString : List UInt8) : List (List UInt8) :=
  (List.range ((hashString.length + 19) / 20)).map fun i => (hashString.drop (20 * i)).take 20

def loadHash (dict : Entries) : Except LoadError (List (List UInt8)) :=
  match getByteArray (BDictNode.getValue dict "pieces") with
  | .error e => .error e
  | .ok hashString => .ok (hashes hashString)

-- Uint32 num_chunks
def countChunks (totalSize chunkSize : Nat) : Nat :=
  if totalSize % chunkSize > 0 then uint32 (uint32 (totalSize / chunkSize) + 1) else uint32 (totalSize / chunkSize)

def loadSizes (dict : Entries) (chunkSize : Nat) : Except LoadFailure (List TorrentFile × List Int × Nat) :=
  match BDictNode.getList dict "files" with
  | some files => loadFiles toUnicode enc chunkSize files [] [] 0
  | none =>
    match getInt64 (BDictNode.getValue dict "length") with
    | .error e => .error (.thrown e)
    | .ok length => .ok ([],[length],toUint64 length)

def loadInfo (dict : Entries) : Except LoadFailure Torrent :=
  match getInt64 (BDictNode.getValue dict "piece length") with
  | .error e => .error (.thrown e)
  | .ok pieceLength =>
    let chunkSize := toUint64 pieceLength
    match loadSizes toUnicode enc dict chunkSize with
    | .error e => .error e
    | .ok (files,lengths,totalSize) =>
      match loadHash dict with
      | .error e => .error (.thrown e)
      | .ok hashPieces =>
        match getByteArray (BDictNode.getValue dict "name") with
        | .error e => .error (.thrown e)
        | .ok _ =>
          if chunkSize = 0 then .error .dividedByZero
          else if countChunks totalSize chunkSize ≠ uint32 hashPieces.length then .error (.thrown .corrupted)
          else .ok {
            chunkSize := chunkSize
            totalSize := totalSize
            lastChunkSize := if totalSize % chunkSize > 0 then totalSize % chunkSize else chunkSize
            files := files
            hashPieces := hashPieces
            lengths := lengths}

end

def checkAll (checks : List (Except LoadError Unit)) : Except LoadError Unit :=
  match checks with
  | [] => .ok ()
  | .error e :: _ => .error e
  | .ok _ :: rest => checkAll rest

def loadNode : BNode → Except LoadError Unit
  | .list [ip,port] _ _ =>
    match getByteArray (valueOf ip),getInt (valueOf port) with
    | .error e,_ => .error e
    | _,.error e => .error e
    | .ok _,.ok _ => .ok ()
  | _ => .error .corrupted

def getString (v : Option Value) : Except LoadError Unit :=
  match getByteArray v with
  | .error e => .error e
  | .ok _ => .ok ()

-- What load reads before the info: the encoding, the announce URL and the nodes.
def loadBefore (dict : Entries) : Except LoadError (Option (List UInt8)) :=
  let encoding := BDictNode.getValue dict "encoding"
  match (if encoding.isSome then (getByteArray encoding).map some else .ok none) with
  | .error e => .error e
  | .ok enc =>
    let announce := BDictNode.getValue dict "announce"
    match checkAll ((if announce.isSome then [getString announce] else []) ++
        ((BDictNode.getList dict "nodes").getD []).map loadNode) with
    | .error e => .error e
    | .ok _ => .ok enc

def loadTier : BNode → List (Except LoadError Unit)
  | .list urls _ _ => urls.map fun url => getString (valueOf url)
  | _ => []

-- And behind it: the announce list and the web seeds.
def loadAfter (dict : Entries) : Except LoadError Unit :=
  let tiers := ((BDictNode.getList dict "announce-list").getD []).flatMap loadTier
  let seeds := match BDictNode.getList dict "url-list" with
    | some urls => urls.map fun url => getString (valueOf url)
    | none => if (BDictNode.getValue dict "url-list").isSome then [getString (BDictNode.getValue dict "url-list")] else []
  checkAll (tiers ++ seeds)

def load (qt : QtNumber) (toUnicode : Option (List UInt8) → List UInt8 → List Char) (data : QByteArray) : Except LoadFailure Torrent :=
  match decode qt data 0 with
  | .error e => .error (.thrown (.decode e))
  | .ok (some (.dict dict _ _),_) =>
    match loadBefore dict with
    | .error e => .error (.thrown e)
    | .ok enc =>
      match BDictNode.getDict dict "info" with
      | none => .error (.thrown .corrupted)
      | some info =>
        match loadInfo toUnicode enc info with
        | .error e => .error e
        | .ok tor =>
          match loadAfter dict with
          | .error e => .error (.thrown e)
          | .ok _ => .ok tor
  | .ok _ => .error (.thrown .corrupted)

end KtorrentStream.Torrent
