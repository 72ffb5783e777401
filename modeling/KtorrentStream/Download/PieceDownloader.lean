import KtorrentStream.Util.BitSet
set_option autoImplicit true

namespace KtorrentStream.Download
open KtorrentStream.Util

def maxPieceLen : Nat := 16384

structure Request where
  index : Nat
  off : Nat
  len : Nat
  pd : Option Nat
  deriving DecidableEq

-- operator == only compares the index, offset and length.
def Request.same (a b : Request) : Bool := a.index == b.index && a.len == b.len && a.off == b.off

structure Piece where
  index : Nat
  off : Nat
  data : List UInt8
  pd : Option Nat

def Piece.len (p : Piece) : Nat := p.data.length

def Piece.request (p : Piece) : Request := ⟨p.index,p.off,p.len,p.pd⟩

-- PeerDownloader with what it reads of its Peer; `peer` is false once the Peer
-- is destroyed.
structure PieceDownloader where
  grabbed : Nat
  nearlyDone : Bool
  peer : Bool
  choked : Bool
  chunksAvailability : BitSet
  downloadRate : Nat
  maxRequestQueue : Nat
  piecesInChunk : Nat
  reqs : List (Request × Nat)
  waitQueue : List Request
  maxWaitQueueSize : Nat

namespace PieceDownloader

def grab (pd : PieceDownloader) : PieceDownloader := {pd with grabbed := pd.grabbed + 1}

def release (pd : PieceDownloader) : PieceDownloader := {pd with grabbed := pd.grabbed - 1}

def isChoked (pd : PieceDownloader) : Bool := if pd.peer then pd.choked else true

def hasChunk (pd : PieceDownloader) (idx : Nat) : Bool := if pd.peer then pd.chunksAvailability.get idx else false

def getDownloadRate (pd : PieceDownloader) : Nat := if pd.peer then pd.downloadRate else 0

def getDownloadRateOf (pd : PieceDownloader) (chunkIndex : Nat) : Nat :=
  match pd.reqs with
  | [] => 0
  | first :: _ => if first.1.index = chunkIndex then pd.getDownloadRate else 0

def isNearlyDone (pd : PieceDownloader) : Bool := pd.grabbed == 1 && pd.nearlyDone

def setNearlyDone (pd : PieceDownloader) (nd : Bool) : PieceDownloader := {pd with nearlyDone := nd}

def canAddRequest (pd : PieceDownloader) : Bool := pd.waitQueue.length < pd.maxWaitQueueSize

-- none stands for the division by zero of a chunk smaller than a piece.
def getMaxChunkDownloads (pd : PieceDownloader) : Option Nat :=
  let numExtra := pd.downloadRate / 1024 / 25
  if pd.piecesInChunk ≥ 16 then some (1 + 16 * numExtra / pd.piecesInChunk)
  else if pd.piecesInChunk = 0 then none
  else some (1 + 16 / pd.piecesInChunk * numExtra)

def canDownloadChunk (pd : PieceDownloader) : Option Bool :=
  if !pd.peer then some false
  else pd.getMaxChunkDownloads.map fun most => (pd.grabbed < most || pd.isNearlyDone) && pd.canAddRequest

-- 1 + (int)ceil(10 * rate / MAX_PIECE_LEN), capped by what the peer asked for
def maxReqs (pd : PieceDownloader) : Nat :=
  let wanted := 1 + (10 * pd.downloadRate + (maxPieceLen - 1)) / maxPieceLen
  if wanted > pd.maxRequestQueue ∧ pd.maxRequestQueue ≠ 0 then pd.maxRequestQueue else wanted

-- Requests move from the wait queue to the peer while it can take more.
def update (pd : PieceDownloader) (now : Nat) : PieceDownloader :=
  let count := pd.maxReqs - pd.reqs.length
  {pd with
    reqs := pd.reqs ++ (pd.waitQueue.take count).map fun r => (r,now)
    waitQueue := pd.waitQueue.drop count
    maxWaitQueueSize := max (2 * pd.maxReqs) 10}

def download (pd : PieceDownloader) (req : Request) (now : Nat) : PieceDownloader :=
  if pd.peer then {pd with waitQueue := pd.waitQueue ++ [req]}.update now else pd

def cancel (pd : PieceDownloader) (req : Request) : PieceDownloader :=
  if !pd.peer then pd
  else if pd.waitQueue.any (req.same ·) then {pd with waitQueue := pd.waitQueue.filter fun r => !req.same r}
  else {pd with reqs := pd.reqs.filter fun r => !req.same r.1}

-- Only the first of the equal requests is taken from reqs.
def piece (pd : PieceDownloader) (p : Piece) : PieceDownloader :=
  if pd.reqs.any fun r => p.request.same r.1 then {pd with reqs := pd.reqs.eraseP fun r => p.request.same r.1}
  else {pd with waitQueue := pd.waitQueue.filter fun r => !p.request.same r}

end PieceDownloader

abbrev Peers := Nat → PieceDownloader

def Peers.modify (peers : Peers) (pd : Nat) (f : PieceDownloader → PieceDownloader) : Peers := fun p =>
  if p = pd then f (peers p) else peers p

end KtorrentStream.Download
