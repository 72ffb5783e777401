import KtorrentStream.Util.BitSet
import KtorrentStream.Util.PtrMap
import KtorrentStream.Util.File
import KtorrentStream.Diskio.PieceData
import KtorrentStream.Download.PieceDownloader
set_option autoImplicit true

namespace KtorrentStream.Download
open KtorrentStream.Util KtorrentStream.Diskio

-- The incremental SHA-1 generator behind SHA1HashGen.
structure Sha1 (σ H : Type) where
  clear : σ
  update : σ → List UInt8 → σ
  final : σ → H
  append : ∀ s a b, update (update s a) b = update s (a ++ b)

def Sha1.generate (sha : Sha1 σ H) (data : List UInt8) : H := sha.final (sha.update sha.clear data)

structure DownloadStatus where
  timeouts : Nat
  status : List Nat

namespace DownloadStatus

def new : DownloadStatus := ⟨0,[]⟩

def add (ds : DownloadStatus) (p : Nat) : DownloadStatus := {ds with status := ds.status.insert p}

def remove (ds : DownloadStatus) (p : Nat) : DownloadStatus := {ds with status := ds.status.filter (· != p)}

def contains (ds : DownloadStatus) (p : Nat) : Bool := ds.status.contains p

def clear (ds : DownloadStatus) : DownloadStatus := {ds with status := []}

def timeout (ds : DownloadStatus) : DownloadStatus := {ds with timeouts := ds.timeouts + 1}

end DownloadStatus

structure ChunkDownload (σ H : Type) where
  index : Nat
  size : Nat
  totalPiecesNumber : Nat
  downloadedPiecesNumber : Nat
  lastSize : Nat
  pieces : BitSet
  pieceData : List (Option Nat)
  numPiecesInHash : Nat
  hashState : σ
  hash : Option H
  pdown : List Nat
  dstatus : PtrMap DownloadStatus
  pieceProviders : List (Option Nat)

namespace ChunkDownload

def numPieces (size : Nat) : Nat := size / maxPieceLen + (if size % maxPieceLen ≠ 0 then 1 else 0)

def new (sha : Sha1 σ H) (index size : Nat) : ChunkDownload σ H where
  index := index
  size := size
  totalPiecesNumber := numPieces size
  downloadedPiecesNumber := 0
  lastSize := if size % maxPieceLen ≠ 0 then size % maxPieceLen else maxPieceLen
  pieces := .new (numPieces size)
  pieceData := List.replicate (numPieces size) none
  numPiecesInHash := 0
  hashState := sha.clear
  hash := none
  pdown := []
  dstatus := .empty
  pieceProviders := []

variable (cd : ChunkDownload σ H)

def pieceLen (i : Nat) : Nat := if i = cd.totalPiecesNumber - 1 then cd.lastSize else maxPieceLen

def getHash : Option H := cd.hash

def containsPeer (pd : Nat) : Bool := cd.pdown.contains pd

def nearlyDone : Bool :=
  let left := cd.totalPiecesNumber - cd.downloadedPiecesNumber
  left < 2 && left > 0

def isChoked (peers : Peers) : Bool := cd.pdown.all fun pd => (peers pd).isChoked

def getDownloadSpeed (peers : Peers) : Nat := (cd.pdown.map fun pd => (peers pd).getDownloadRateOf cd.index).sum

def bytesDownloaded : Nat :=
  (((List.range cd.totalPiecesNumber).filter cd.pieces.get).map cd.pieceLen).sum

def bytesLeft : Nat := cd.size - cd.bytesDownloaded

-- Requests

def request (i : Nat) (pd : Option Nat) : Request :=
  ⟨cd.index,i * maxPieceLen,if i + 1 < cd.totalPiecesNumber then maxPieceLen else cd.lastSize,pd⟩

def timesDownloading (pd i : Nat) : Nat := cd.dstatus.entries.countP fun e => e.1 != pd && e.2.contains i

def bestPieceLoop (pd : Nat) : List Nat → Option (Nat × Nat) → Option Nat
  | [],best => best.map Prod.fst
  | i :: rest,best =>
    if cd.pieces.get i then bestPieceLoop pd rest best
    else if (cd.dstatus.find pd).any (·.contains i) then bestPieceLoop pd rest best
    else
      let times := cd.timesDownloading pd i
      if times = 0 then some i
      else if best.all fun b => b.2 > times then bestPieceLoop pd rest (some (i,times))
      else bestPieceLoop pd rest best

-- none for the value total_pieces_number
def bestPiece (pd : Nat) : Option Nat := cd.bestPieceLoop pd (List.range cd.totalPiecesNumber) none

def sendRequest (peers : Peers) (now pd : Nat) : Option (ChunkDownload σ H × Peers) :=
  if (cd.dstatus.find pd).isNone || (peers pd).isChoked then none
  else match cd.bestPiece pd with
    | none => none
    | some bp =>
      some ({cd with dstatus := cd.dstatus.modify pd (·.add bp)},
        peers.modify pd fun p =>
          let asked := p.download (cd.request bp (some pd)) now
          if cd.nearlyDone then asked.setNearlyDone true else asked)

-- One pass over tmp; a downloader that cannot take a request is erased from it.
def sendPass (now : Nat) : List Nat → ChunkDownload σ H → Peers → List Nat × ChunkDownload σ H × Peers
  | [],cd,peers => ([],cd,peers)
  | pd :: rest,cd,peers =>
    if !(peers pd).isChoked && (peers pd).canAddRequest then
      match cd.sendRequest peers now pd with
      | some (cd',peers') =>
        let (tmp,last) := sendPass now rest cd' peers'
        (pd :: tmp,last)
      | none => sendPass now rest cd peers
    else sendPass now rest cd peers

def sendLoop (now : Nat) : Nat → List Nat → ChunkDownload σ H → Peers → ChunkDownload σ H × Peers
  | 0,_,cd,peers => (cd,peers)
  | fuel + 1,tmp,cd,peers =>
    if tmp.length > 0 then
      let (tmp',cd',peers') := sendPass now tmp cd peers
      sendLoop now fuel tmp' cd' peers'
    else (cd,peers)

-- A downloader that stays in tmp was asked for one more piece in each pass.
def sendRequests (peers : Peers) (now : Nat) : ChunkDownload σ H × Peers :=
  sendLoop now (cd.totalPiecesNumber + 1) cd.pdown cd peers

def sendCancels (peers : Peers) (pd : Nat) : ChunkDownload σ H × Peers :=
  match cd.dstatus.find pd with
  | none => (cd,peers)
  | some ds =>
    ({cd with dstatus := cd.dstatus.modify pd (·.clear)},
      peers.modify pd fun p => ds.status.foldl (fun p i => p.cancel (cd.request i none)) p)

def cancelAll (peers : Peers) : ChunkDownload σ H × Peers :=
  cd.pdown.foldl (fun s pd => s.1.sendCancels s.2 pd) (cd,peers)

def endgameCancel (peers : Peers) (p : Piece) : ChunkDownload σ H × Peers :=
  cd.pdown.foldl
    (fun s pd =>
      if (s.1.dstatus.find pd).any (·.contains (p.off / maxPieceLen)) then
        ({s.1 with dstatus := s.1.dstatus.modify pd (·.remove (p.off / maxPieceLen))},
          s.2.modify pd (·.cancel p.request))
      else s)
    (cd,peers)

def releaseAllPDs (peers : Peers) : ChunkDownload σ H × Peers :=
  let (_,peers') := cd.pdown.foldl (fun s pd => s.1.sendCancels (s.2.modify pd (·.release)) pd) (cd,peers)
  ({cd with dstatus := .empty,pdown := []},peers')

def assign (peers : Peers) (now pd : Nat) : Bool × ChunkDownload σ H × Peers :=
  if cd.pdown.contains pd then (false,cd,peers)
  else
    (true,{cd with pdown := cd.pdown ++ [pd],dstatus := cd.dstatus.insert pd .new}.sendRequests
      (peers.modify pd (·.grab)) now)

def release (peers : Peers) (pd : Nat) : ChunkDownload σ H × Peers :=
  if !cd.pdown.contains pd then (cd,peers)
  else
    let (cd',peers') := cd.sendCancels (peers.modify pd (·.release)) pd
    ({cd' with dstatus := cd'.dstatus.erase pd,pdown := cd'.pdown.filter (· != pd)},peers')

-- A rejected request releases the downloader, and so does the first timeout.
def notDownloaded (peers : Peers) (now : Nat) (r : Request) (reject : Bool) : ChunkDownload σ H × Peers :=
  match r.pd with
  | none => cd.sendRequests peers now
  | some pd =>
    match cd.dstatus.find pd with
    | none => cd.sendRequests peers now
    | some _ =>
      let removed := cd.dstatus.modify pd (·.remove (r.off / maxPieceLen))
      if reject then
        let (cd',peers') := {cd with dstatus := removed}.release peers pd
        cd'.sendRequests peers' now
      else
        let timed := {cd with dstatus := removed.modify pd (·.timeout)}
        let cancelled := peers.modify pd (·.cancel r)
        if (timed.dstatus.find pd).any (·.timeouts > 0) && cd.pdown.length > 0 then
          let (cd',peers') := timed.release cancelled pd
          cd'.sendRequests peers' now
        else timed.sendRequests cancelled now

def onRejected (peers : Peers) (now : Nat) (r : Request) : ChunkDownload σ H × Peers :=
  if cd.index = r.index then cd.notDownloaded peers now r true else (cd,peers)

def onTimeout (peers : Peers) (now : Nat) (r : Request) : ChunkDownload σ H × Peers :=
  if cd.index = r.index then cd.notDownloaded peers now r false else (cd,peers)

-- Pieces and their hash

def prefixEnd (pieces : BitSet) (total : Nat) : Nat → Nat → Nat
  | 0,nn => nn
  | fuel + 1,nn => if nn < total && pieces.get nn then prefixEnd pieces total fuel (nn + 1) else nn

def hashPiece (sha : Sha1 σ H) (s : σ × Cache) (i : Nat) : σ × Cache :=
  let (p,cache) := match cd.pieceData.getD i none with
    | some p => (p,s.2)
    | none => s.2.getPiece cd.index (i * maxPieceLen) (cd.pieceLen i) true
  match cache.pieces[p]? with
  | none => (s.1,cache)
  | some pd => (sha.update s.1 (cache.bytes pd),cache.savePiece p)

def updateHash (sha : Sha1 σ H) (cache : Cache) : ChunkDownload σ H × Cache :=
  let nn := prefixEnd cd.pieces cd.totalPiecesNumber (cd.totalPiecesNumber - cd.numPiecesInHash) cd.numPiecesInHash
  let (state,cache') :=
    (List.range' cd.numPiecesInHash (nn - cd.numPiecesInHash)).foldl (cd.hashPiece sha) (cd.hashState,cache)
  ({cd with hashState := state,numPiecesInHash := nn},cache')

structure Received (σ H : Type) where
  cd : ChunkDownload σ H
  peers : Peers
  cache : Cache
  isNeeded : Bool
  complete : Bool

def statusRemoved (p : Piece) : PtrMap DownloadStatus :=
  match p.pd with
  | none => cd.dstatus
  | some pd => cd.dstatus.modify pd (·.remove (p.off / maxPieceLen))

def markDownloaded (p : Piece) (ptr : Nat) : ChunkDownload σ H :=
  {cd with
    pieceData := cd.pieceData.set (p.off / maxPieceLen) (some ptr)
    pieces := cd.pieces.set (p.off / maxPieceLen) true
    pieceProviders := cd.pieceProviders.insert p.pd
    downloadedPiecesNumber := cd.downloadedPiecesNumber + 1
    dstatus := cd.statusRemoved p}

-- What follows once the piece is in its buffer.
def stored (sha : Sha1 σ H) (peers : Peers) (now : Nat) (cache : Cache) (p : Piece) : Received σ H :=
  let (cd,peers) := if cd.pdown.length > 1 then cd.endgameCancel peers p else (cd,peers)
  let (cd,cache) := cd.updateHash sha cache
  if cd.downloadedPiecesNumber ≥ cd.totalPiecesNumber then
    let (cd,peers) := {cd with hash := some (sha.final cd.hashState)}.releaseAllPDs peers
    ⟨cd,peers,cache,true,true⟩
  else
    let (cd,peers) := cd.sendRequests peers now
    ⟨cd,peers,cache,true,false⟩

-- The piece is one of the chunk, it is missing and it has the right length.
def accepts (p : Piece) : Bool :=
  !(p.off / maxPieceLen ≥ cd.totalPiecesNumber || cd.pieces.get (p.off / maxPieceLen) ||
    p.len != cd.pieceLen (p.off / maxPieceLen))

-- For a piece that getPiece does not throw for.
def pieceReceived (sha : Sha1 σ H) (peers : Peers) (now : Nat) (cache : Cache) (p : Piece) : Received σ H :=
  if !cd.accepts p then ⟨cd,peers,cache,false,false⟩
  else
    let (ptr,cache) := cache.getPiece cd.index p.off p.len false
    match cache.write ptr p.data with
    | none => ⟨{cd with dstatus := cd.statusRemoved p},peers,cache,false,false⟩
    | some (count,cache) =>
      if count = p.len then (cd.markDownloaded p ptr).stored sha peers now cache p
      else
        let (cd,peers) := {cd with dstatus := cd.statusRemoved p}.sendRequests peers now
        ⟨cd,peers,cache,false,false⟩

-- The current_chunks file

-- piece_data[i] when it has a buffer.
def pieceAt (cache : Cache) (i : Nat) : Option PieceData :=
  match cd.pieceData.getD i none with
  | none => none
  | some p => cache.pieces[p]?

-- PieceHeader, and the bytes of a piece that is not mapped.
def savePiece (cache : Cache) (i : Nat) (pd : PieceData) : List UInt8 :=
  uint32Bytes i ++ uint32Bytes pd.len ++ uint32Bytes (if pd.mapped then 1 else 0) ++
    (if pd.mapped then [] else cache.bytes pd)

def followed (cache : Cache) : List (Nat × PieceData) :=
  (List.range cd.pieces.numBits).filterMap fun i => (cd.pieceAt cache i).map fun pd => (i,pd)

-- What follows the ChunkDownloadHeader.
def saveBody (cache : Cache) : List UInt8 :=
  cd.pieces.data ++ uint32Bytes (cd.followed cache).length ++
    (cd.followed cache).flatMap fun e => savePiece cache e.1 e.2

def save (cache : Cache) : List UInt8 :=
  uint32Bytes cd.index ++ uint32Bytes cd.pieces.numBits ++ uint32Bytes 1 ++ cd.saveBody cache

structure PieceHeader where
  piece : Nat
  size : Nat
  mapped : Nat

def readPieceHeader (file : File) : Option (PieceHeader × File) := do
  let (piece,file) ← file.readUint32
  let (size,file) ← file.readUint32
  let (mapped,file) ← file.readUint32
  return (⟨piece,size,mapped⟩,file)

-- p->readFromFile(file,p->length())
def readFromFile (cache : Cache) (p : Nat) (file : File) : Option (Cache × File) :=
  match cache.pieces[p]? with
  | none => none
  | some pd =>
    let (bytes,file) := file.read pd.len
    if bytes.length = pd.len then some (cache.fill p pd bytes,file) else none

def loadPiece (cache : Cache) (file : File) : Option (ChunkDownload σ H × Cache × File) :=
  match readPieceHeader file with
  | none => none
  | some (phdr,file) =>
    if phdr.piece ≥ cd.totalPiecesNumber then none
    else
      let (p,cache) := cache.getPiece cd.index (phdr.piece * maxPieceLen) phdr.size false
      let placed := {cd with pieceData := cd.pieceData.set phdr.piece (some p)}
      if phdr.mapped = 0 then (readFromFile cache p file).map fun read => (placed,read)
      else some (placed,cache,file)

def loadPieces : Nat → ChunkDownload σ H → Cache → File → Option (ChunkDownload σ H × Cache × File)
  | 0,cd,cache,file => some (cd,cache,file)
  | n + 1,cd,cache,file =>
    match cd.loadPiece cache file with
    | none => none
    | some (cd',cache',file') => loadPieces n cd' cache' file'

def loadBits (file : File) : ChunkDownload σ H × File :=
  let empty := BitSet.new cd.totalPiecesNumber
  let (bytes,rest) := file.read empty.data.length
  let pieces := (empty.readData bytes).updateNumOnBits
  ({cd with pieces := pieces,downloadedPiecesNumber := pieces.numOnBits},rest)

-- What is done once all pieces are there.
def loaded (sha : Sha1 σ H) (updateHash : Bool) (cache : Cache) : ChunkDownload σ H × Cache :=
  let (cd,cache) := if updateHash then {cd with numPiecesInHash := 0}.updateHash sha cache else (cd,cache)
  (if cd.downloadedPiecesNumber ≠ 0 then {cd with pieceProviders := cd.pieceProviders.insert none} else cd,cache)

-- none for a load that returns false: the caller deletes the ChunkDownload then.
def load (sha : Sha1 σ H) (numBits : Nat) (updateHash : Bool) (cache : Cache) (file : File) :
    Option (ChunkDownload σ H × Cache × File) :=
  if numBits ≠ cd.totalPiecesNumber then none
  else
    let (cd,file) := cd.loadBits file
    match file.readUint32 with
    | none => none
    | some (toFollow,file) =>
      if toFollow > cd.totalPiecesNumber then none
      else match loadPieces toFollow cd cache file with
        | none => none
        | some (cd,cache,file) =>
          let (cd,cache) := cd.loaded sha updateHash cache
          some (cd,cache,file)

end ChunkDownload

end KtorrentStream.Download
