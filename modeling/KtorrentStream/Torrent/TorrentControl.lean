import KtorrentStream.Diskio.ChunkManager
import KtorrentStream.Download.CurrentChunks
import KtorrentStream.Download.Run
set_option autoImplicit true

namespace KtorrentStream.Torrent
open KtorrentStream.Util KtorrentStream.Diskio KtorrentStream.Download

-- The Downloader and the ChunkManager of a torrent, with the signals between them.
structure TorrentControl (t : Files) (σ H : Type) where
  downloader : Downloader σ H
  cman : ChunkManager t.numChunks

namespace TorrentControl

variable {t : Files} (s : TorrentControl t σ H)

def synced : Downloader σ H := {s.downloader with completed := s.cman.completed}

def downloaded : Nat := t.totalSize - s.cman.bytesLeft t

-- cache->clearPieces(c) is in resetChunk.
def resetChunk (i : Nat) : TorrentControl t σ H where
  downloader :=
    if i ≥ t.numChunks || s.cman.duringLoad then s.downloader
    else {s.downloader with cache := s.downloader.cache.clearPieces i}
  cman := s.cman.resetChunk i

-- The ChunkDownload that a piece completes: Downloader::finished. webseeding says
-- whether a webseed is downloading the chunk. The result is false for an Error
-- that cman.chunkDownloaded throws.
def finished [DecidableEq H] (cd : ChunkDownload σ H) (writes webseeding : Bool) : Bool × TorrentControl t σ H :=
  if cd.getHash = some (s.downloader.hash cd.index) then
    let (saved,cman) := s.cman.chunkDownloaded writes cd.index
    (saved,{s with cman := cman})
  else (true,if webseeding then s else s.resetChunk cd.index)

def received (sha : Sha1 σ H) (now pd : Nat) (packet : List UInt8) (cd : ChunkDownload σ H) : ChunkDownload.Received σ H :=
  cd.pieceReceived sha (s.downloader.peers.modify pd (·.piece (Downloader.pieceOf pd packet))) now s.downloader.cache
    (Downloader.pieceOf pd packet)

def handlePiece [DecidableEq H] (sha : Sha1 σ H) (now : Nat) (writes webseeding paused : Bool) (pd : Nat) (packet : List UInt8) :
    TorrentControl t σ H :=
  let delivered (saved : Bool) := {s with downloader := s.synced.handlePiece sha now saved paused pd packet}
  if paused || packet.length < 9 || s.cman.completed then delivered true
  else match s.downloader.downloadingChunks.find (Downloader.readUint32 packet 1) with
    | none => delivered true
    | some cd =>
      let r := s.received sha now pd packet cd
      if !r.complete || s.synced.mapThrows (Downloader.pieceOf pd packet) then delivered true
      else
        let saved := (s.finished r.cd writes webseeding).1
        ((delivered saved).finished r.cd writes webseeding).2

-- Downloader::onChunkReady. ok says that the hash is right, saved that savePiece
-- does not throw.
def onChunkReady (i : Nat) (ok saved writes : Bool) : TorrentControl t σ H :=
  if ok then
    {downloader := {s.downloader.onChunkReady i true with bytesDownloaded := s.downloader.bytesDownloaded + t.chunkLen i}
     cman := if saved then (s.cman.chunkDownloaded writes i).2 else s.cman}
  else if s.downloader.downloadingChunks.contains i then s
  else s.resetChunk i

def dropExcluded (i : Nat) : TorrentControl t σ H :=
  if s.downloader.downloadingChunks.contains i then {s with downloader := s.downloader.exclude i}.resetChunk i else s

def onExcluded (lower upper : Nat) : TorrentControl t σ H := (upTo lower upper).foldl dropExcluded s

-- ChunkManager::exclude with its signal.
def exclude (lower upper : Nat) : TorrentControl t σ H :=
  {s with cman := s.cman.exclude lower upper}.onExcluded (min lower upper) (max lower upper)

-- ChunkManager::include; onIncluded concerns the chunk selector only.
def includeRange (lower upper : Nat) : TorrentControl t σ H := {s with cman := s.cman.includeRange lower upper}

def prioritise (lower upper : Nat) (priority : Priority) : TorrentControl t σ H :=
  {s with cman := s.cman.prioritise lower upper priority}

def dataChecked (okChunks : BitSet) (lower upper : Nat) : TorrentControl t σ H :=
  {s with downloader := s.downloader.dataChecked okChunks lower upper}

def recalcDownloaded : TorrentControl t σ H := {s with downloader := {s.downloader with bytesDownloaded := s.downloaded}}

def afterDataCheck (okChunks : BitSet) (lower upper : Nat) (writes : Bool) : TorrentControl t σ H :=
  let s := s.dataChecked okChunks lower upper
  {s with cman := s.cman.dataChecked okChunks lower upper writes}.recalcDownloaded

-- Downloader::loadDownloads; none for a file that cannot be opened.
def loadDownloads (sha : Sha1 σ H) (memory : Nat → List UInt8) : Option File → TorrentControl t σ H
  | none => s
  | some file =>
    if s.cman.completed then s
    else
      let unwanted i := (s.cman.chunk i).status == .onDisk || (s.cman.chunk i).isExcluded
      {s with downloader := s.downloader.loadDownloads sha t.numChunks s.downloaded unwanted memory file}

inductive Event where
  | update (now : Nat) (needsUpdate : Nat → Bool) (answers : List (Option Nat))
  | piece (now : Nat) (writes webseeding paused : Bool) (pd : Nat) (packet : List UInt8)
  | rejected (now pd : Nat) (r : Request)
  | addPieceDownloader (pd : Nat) (peer : PieceDownloader)
  | removePieceDownloader (pd : Nat)
  | stopAndReassign (now pd i : Nat)
  | peer (pd : Nat) (state : PieceDownloader)
  | chunkReady (i : Nat) (ok saved writes : Bool)
  | exclude (lower upper : Nat)
  -- The signal for chunks that are only to be seeded.
  | excluded (lower upper : Nat)
  | included (lower upper : Nat)
  | prioritise (lower upper : Nat) (priority : Priority)
  | resetChunk (i : Nat)
  | dataChecked (okChunks : BitSet) (lower upper : Nat)
  | afterDataCheck (okChunks : BitSet) (lower upper : Nat) (writes : Bool)
  | recalcDownloaded
  | loadDownloads (memory : Nat → List UInt8) (file : Option File)
  | pause
  | clearDownloads

def perform [DecidableEq H] (sha : Sha1 σ H) : Event → TorrentControl t σ H
  | .update now needsUpdate answers => {s with downloader := s.synced.perform sha (.update now needsUpdate answers)}
  | .piece now writes webseeding paused pd packet => s.handlePiece sha now writes webseeding paused pd packet
  | .rejected now pd r => {s with downloader := s.downloader.perform sha (.rejected now pd r)}
  | .addPieceDownloader pd peer => {s with downloader := s.downloader.perform sha (.addPieceDownloader pd peer)}
  | .removePieceDownloader pd => {s with downloader := s.downloader.perform sha (.removePieceDownloader pd)}
  | .stopAndReassign now pd i => {s with downloader := s.downloader.perform sha (.stopAndReassign now pd i)}
  | .peer pd state => {s with downloader := s.downloader.perform sha (.peer pd state)}
  | .chunkReady i ok saved writes => s.onChunkReady i ok saved writes
  | .exclude lower upper => s.exclude lower upper
  | .excluded lower upper => s.onExcluded lower upper
  | .included lower upper => s.includeRange lower upper
  | .prioritise lower upper priority => s.prioritise lower upper priority
  | .resetChunk i => s.resetChunk i
  | .dataChecked okChunks lower upper => s.dataChecked okChunks lower upper
  | .afterDataCheck okChunks lower upper writes => s.afterDataCheck okChunks lower upper writes
  | .recalcDownloaded => s.recalcDownloaded
  | .loadDownloads memory file => s.loadDownloads sha memory file
  | .pause => {s with downloader := s.downloader.pause}
  | .clearDownloads => {s with downloader := s.downloader.clearDownloads}

end TorrentControl

namespace TorrentControl

variable {t : Files}

-- A new Downloader for a ChunkManager that has loaded its index.
structure New (s : TorrentControl t σ H) : Prop where
  none : s.downloader.downloadingChunks = .empty
  sizes : ∀ i, (s.downloader.chunkSize i).toNat = t.chunkLen i
  bytes : s.downloader.bytesDownloaded = s.downloaded

inductive Reached [DecidableEq H] (sha : Sha1 σ H) (allowed : TorrentControl t σ H → Event → Prop) : TorrentControl t σ H → Prop
  | new {s : TorrentControl t σ H} (new : New s) : Reached sha allowed s
  | step {s : TorrentControl t σ H} (before : Reached sha allowed s) (event : Event) (allows : allowed s event) : Reached sha allowed (s.perform sha event)

end TorrentControl

end KtorrentStream.Torrent
