import KtorrentStream.Download.ChunkDownload
set_option autoImplicit true

namespace KtorrentStream.Download
open KtorrentStream.Util KtorrentStream.Diskio

-- completed, chunkSize and hash are what it asks the ChunkManager and the
-- Torrent: cman.completed(), the size of a chunk and its SHA-1 hash.
structure Downloader (σ H : Type) where
  completed : Bool
  chunkSize : Nat → UInt32
  hash : Nat → H
  downloadingChunks : PtrMap (ChunkDownload σ H)
  pieceDownloaders : List Nat
  peers : Peers
  cache : Cache
  bytesDownloaded : Nat
  totalUnnecessaryData : Nat
  unnecessaryDataChunkFinished : Nat

namespace Downloader

variable (d : Downloader σ H)

def visit (i : Nat) (f : ChunkDownload σ H → Peers → ChunkDownload σ H × Peers) : Downloader σ H :=
  match d.downloadingChunks.find i with
  | none => d
  | some cd =>
    {d with
      downloadingChunks := d.downloadingChunks.modify i fun _ => (f cd d.peers).1
      peers := (f cd d.peers).2}

def keys : List Nat := d.downloadingChunks.entries.map Prod.fst

def visitAll (f : ChunkDownload σ H → Peers → ChunkDownload σ H × Peers) : Downloader σ H :=
  d.keys.foldl (fun d i => d.visit i f) d

def erase (i : Nat) : Downloader σ H := {d with downloadingChunks := d.downloadingChunks.erase i}

def assignPieceDownloaderToChunk (sha : Sha1 σ H) (now pd i : Nat) : Bool × Downloader σ H :=
  match d.downloadingChunks.find i with
  | some cd => ((cd.assign d.peers now pd).1,d.visit i fun cd peers => (cd.assign peers now pd).2)
  | none =>
    let made := {d with downloadingChunks := d.downloadingChunks.insert i (.new sha i (d.chunkSize i).toNat)}
    (true,made.visit i fun cd peers => (cd.assign peers now pd).2)

def selectWorst (pd : Nat) : Option (Nat × ChunkDownload σ H) :=
  d.downloadingChunks.entries.foldl
    (fun cdmin e =>
      if !(d.peers pd).hasChunk e.1 || e.2.containsPeer pd then cdmin
      else match cdmin with
        | none => some e
        | some m =>
          if e.2.getDownloadSpeed d.peers < m.2.getDownloadSpeed d.peers then some e
          else if e.2.pdown.length < m.2.pdown.length then some e
          else cdmin)
    none

def downloadFrom (sha : Sha1 σ H) (now pd : Nat) (answer : Option Nat) : Bool × Downloader σ H :=
  match answer with
  | some i => d.assignPieceDownloaderToChunk sha now pd i
  | none =>
    if (d.peers pd).grabbed = 0 then
      match d.selectWorst pd with
      | some (i,cd) => ((cd.assign d.peers now pd).1,d.visit i fun cd peers => (cd.assign peers now pd).2)
      | none => (false,d)
    else (false,d)

-- The while loop over one peer. Each round takes one more chunk, so that it ends
-- one round after grabbed has reached getMaxChunkDownloads.
def downloadLoop (sha : Sha1 σ H) (now pd : Nat) : Nat → List (Option Nat) → Downloader σ H → List (Option Nat) × Downloader σ H
  | 0,answers,d => (answers,d)
  | fuel + 1,answers,d =>
    if (d.peers pd).canDownloadChunk.getD false then
      match d.downloadFrom sha now pd answers.head?.join with
      | (false,d') => (answers.tail,d')
      | (true,d') => downloadLoop sha now pd fuel answers.tail {d' with peers := d'.peers.modify pd (·.setNearlyDone false)}
    else (answers,d)

def assignPeers (sha : Sha1 σ H) (now : Nat) (answers : List (Option Nat)) : Downloader σ H :=
  (d.pieceDownloaders.foldl
    (fun s pd =>
      if (s.2.peers pd).isChoked then s
      else downloadLoop sha now pd ((s.2.peers pd).getMaxChunkDownloads.getD 0 + 2) s.1 s.2)
    (answers,d)).2

-- needsUpdate says for which chunks nothing has happened in the last minute.
def normalUpdate (sha : Sha1 σ H) (now : Nat) (needsUpdate : Nat → Bool) (answers : List (Option Nat)) : Downloader σ H :=
  (d.visitAll fun cd peers =>
    if cd.pdown.isEmpty then (cd,peers)
    else if cd.isChoked peers then cd.releaseAllPDs peers
    else if needsUpdate cd.index then cd.sendRequests peers now
    else (cd,peers)).assignPeers sha now answers

-- The signals timedout and rejected of a peer reach the ChunkDownloads it is
-- assigned to, and only the one of the request's chunk looks at them.
def timedout (now pd : Nat) (r : Request) : Downloader σ H :=
  d.visit r.index fun cd peers => if cd.containsPeer pd then cd.onTimeout peers now r else (cd,peers)

def rejected (now pd : Nat) (r : Request) : Downloader σ H :=
  d.visit r.index fun cd peers => if cd.containsPeer pd then cd.onRejected peers now r else (cd,peers)

-- The oldest requests come first; the ones that are sent again are not old.
def checkTimeouts (now pd : Nat) : Nat → Downloader σ H → Downloader σ H
  | 0,d => d
  | fuel + 1,d =>
    match (d.peers pd).reqs with
    | [] => d
    | first :: rest =>
      if now - first.2 > 60000 then
        checkTimeouts now pd fuel ({d with peers := d.peers.modify pd fun p => {p with reqs := rest}}.timedout now pd first.1)
      else d

def update (sha : Sha1 σ H) (now : Nat) (needsUpdate : Nat → Bool) (answers : List (Option Nat)) : Downloader σ H :=
  if d.completed then d
  else
    let d := d.normalUpdate sha now needsUpdate answers
    d.pieceDownloaders.foldl (fun d pd => checkTimeouts now pd (d.peers pd).reqs.length d) d

def finished [DecidableEq H] (cd : ChunkDownload σ H) (saved : Bool) : Bool := cd.getHash == some (d.hash cd.index) && saved

def counted (cd : ChunkDownload σ H) (p : Piece) (ok done : Bool) : Downloader σ H :=
  let got := if ok then d.bytesDownloaded + p.len else d.bytesDownloaded
  {d with
    bytesDownloaded := if done then got else if cd.size > got then 0 else got - cd.size
    totalUnnecessaryData := if ok then d.totalUnnecessaryData else d.totalUnnecessaryData + p.len}

def pieceReceived [DecidableEq H] (sha : Sha1 σ H) (now : Nat) (saved : Bool) (p : Piece) : Downloader σ H :=
  if d.completed then d
  else match d.downloadingChunks.find p.index with
    | none =>
      {d with
        totalUnnecessaryData := d.totalUnnecessaryData + p.len
        unnecessaryDataChunkFinished := d.unnecessaryDataChunkFinished + p.len}
    | some cd =>
      let r := cd.pieceReceived sha d.peers now d.cache p
      let d' := {d with
        downloadingChunks := d.downloadingChunks.modify p.index fun _ => r.cd
        peers := r.peers
        cache := r.cache}
      if r.complete then (d'.counted r.cd p r.isNeeded (d.finished r.cd saved)).erase p.index
      else d'.counted r.cd p r.isNeeded true

def readUint32 (packet : List UInt8) (off : Nat) : Nat :=
  (packet.getD off 0).toNat * 16777216 + (packet.getD (off + 1) 0).toNat * 65536 + (packet.getD (off + 2) 0).toNat * 256 +
    (packet.getD (off + 3) 0).toNat

def pieceOf (pd : Nat) (packet : List UInt8) : Piece := ⟨readUint32 packet 1,readUint32 packet 5,packet.drop 9,some pd⟩

-- ChunkDownload::pieceReceived ends with the Error of getPiece, and with it the whole
-- of handlePiece.
def mapThrows (p : Piece) : Bool :=
  !d.completed &&
    match d.downloadingChunks.find p.index with
    | none => false
    | some cd => cd.accepts p && d.cache.mapThrows cd.index p.off p.len

-- Peer::handlePiece; a packet that is too short kills the peer.
def handlePiece [DecidableEq H] (sha : Sha1 σ H) (now : Nat) (saved paused : Bool) (pd : Nat) (packet : List UInt8) : Downloader σ H :=
  if paused then d
  else if packet.length < 9 then d
  else
    let d := {d with peers := d.peers.modify pd (·.piece (pieceOf pd packet))}
    if d.mapThrows (pieceOf pd packet) then
      d.visit (readUint32 packet 1) fun cd peers => ({cd with dstatus := cd.statusRemoved (pieceOf pd packet)},peers)
    else
      let d := d.pieceReceived sha now saved (pieceOf pd packet)
      {d with peers := d.peers.modify pd (·.update now)}

def addPieceDownloader (pd : Nat) : Downloader σ H := {d with pieceDownloaders := d.pieceDownloaders ++ [pd]}

def removePieceDownloader (pd : Nat) : Downloader σ H :=
  let d := d.visitAll fun cd peers => cd.release peers pd
  {d with pieceDownloaders := d.pieceDownloaders.filter (· != pd)}

def stopAndReassignPieceDownloader (sha : Sha1 σ H) (now pd i : Nat) : Downloader σ H :=
  (((d.removePieceDownloader pd).assignPieceDownloaderToChunk sha now pd i).2).addPieceDownloader pd

def clearDownloads : Downloader σ H := {d with downloadingChunks := .empty,pieceDownloaders := []}

def pause : Downloader σ H := {d with downloadingChunks := .empty}

def exclude (i : Nat) : Downloader σ H :=
  (d.visit i fun cd peers =>
    let (cd,peers) := cd.cancelAll peers
    cd.releaseAllPDs peers).erase i

-- for (Uint32 i = from;i <= to;i++)
def onExcluded (lower upper : Nat) : Downloader σ H := (List.range' lower (upper + 1 - lower)).foldl exclude d

def dataChecked (okChunks : BitSet) (lower upper : Nat) : Downloader σ H :=
  (List.range' lower (min okChunks.numBits (upper + 1) - lower)).foldl
    (fun d i => if okChunks.get i then (d.visit i fun cd peers => cd.releaseAllPDs peers).erase i else d) d

-- ok says that the hash of the chunk from the webseed is right. What WebSeed::handleData
-- wrote into the chunk and savePiece are not followed here.
def onChunkReady (i : Nat) (ok : Bool) : Downloader σ H :=
  if ok then (d.visit i fun cd peers => cd.cancelAll peers).erase i else d

end Downloader

end KtorrentStream.Download
