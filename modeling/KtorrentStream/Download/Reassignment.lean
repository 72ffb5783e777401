import Mathlib.Data.List.DropRight
import KtorrentStream.Lib.Sorting
import KtorrentStream.Download.GrabCount
import KtorrentStream.Download.ManagerOfStream
set_option autoImplicit true

namespace KtorrentStream.Download
open KtorrentStream.Util KtorrentStream.Lib

def msecondsToSeconds (mseconds : Nat) : Nat := mseconds / 1000

def streamingSpeedReserve : Nat := 20 * 1024

def PieceDownloader.getAverageDownloadRate (pd : PieceDownloader) : Nat := pd.getDownloadRate

-- The greatest Uint32 for a peer that downloads nothing.
def Downloader.getMinimalIndexDownloadingChunk (d : Downloader σ H) (pd : Nat) : Nat :=
  match d.downloadingChunks.entries.find? fun e => e.2.containsPeer pd with
  | some e => e.2.index
  | none => 4294967295

def cmpPeersByRate (d : Downloader σ H) (first second : Nat) : Bool :=
  (d.peers first).getDownloadRate > (d.peers second).getDownloadRate

def cmpPeersInsideBufferPreferred (d : Downloader σ H) : Nat → Nat → Bool := cmpPeersByRate d

def cmpPeersOutsideBufferPreferred (d : Downloader σ H) : Nat → Nat → Bool := cmpPeersByRate d

def cmpPeersInsideBufferRequired (d : Downloader σ H) (first second : Nat) : Bool :=
  if d.getMinimalIndexDownloadingChunk first > d.getMinimalIndexDownloadingChunk second then true
  else if d.getMinimalIndexDownloadingChunk first = d.getMinimalIndexDownloadingChunk second then
    (d.peers first).getDownloadRate > (d.peers second).getDownloadRate
  else false

def assignedInRange (d : Downloader σ H) (lower upper peer : Nat) : Bool :=
  (upTo lower upper).any fun i => (d.downloadingChunks.find i).any (·.containsPeer peer)

-- What is left of the first list, and the second list.
def movePeersAssignedForChunksInRange (d : Downloader σ H) (moveFrom moveInto : List Nat) (lower upper : Nat) :
    List Nat × List Nat :=
  (moveFrom.filter fun peer => !assignedInRange d lower upper peer,moveInto ++ moveFrom.filter (assignedInRange d lower upper))

-- Peers are popped from the back.
def deletePeersDownloadedMorePrioritizedChunksFromList (d : Downloader σ H) (peersSorted : List Nat) (chunk : Nat) : List Nat :=
  peersSorted.rdropWhile fun peer => d.getMinimalIndexDownloadingChunk peer ≤ chunk

-- peers_outside_preferred_buffer, peers_inside_preferred_buffer and peers_inside_required_buffer
inductive Buffer where
  | outside
  | preferred
  | required
  deriving DecidableEq

abbrev SortedPeers := Buffer → List Nat

namespace Streaming

def withDowner (s : Streaming σ H) (d : Downloader σ H) : Streaming σ H := {s with state := {s.state with downer := d}}

def bytesLeft (s : Streaming σ H) (i : Nat) : Nat :=
  match s.state.downer.downloadingChunks.find i with
  | some cd => cd.bytesLeft
  | none => (s.state.downer.chunkSize i).toNat

def updateSortedPeersList (sorter : Sorter Nat) (s : Streaming σ H) : SortedPeers :=
  let d := s.state.downer
  let (outside,required) :=
    movePeersAssignedForChunksInRange d d.pieceDownloaders [] s.bufferRequiredStartsFrom s.bufferRequiredFinishTo
  let (outside,preferred) :=
    movePeersAssignedForChunksInRange d outside [] s.bufferPreferredStartsFrom s.bufferPreferredFinishTo
  fun
  | .outside => sorter.sort (cmpPeersOutsideBufferPreferred d) outside
  | .preferred => sorter.sort (cmpPeersInsideBufferPreferred d) preferred
  | .required => sorter.sort (cmpPeersInsideBufferRequired d) required

def reassign (sha : Sha1 σ H) (now : Nat) (s : Streaming σ H) (peer chunk : Nat) : Streaming σ H :=
  s.withDowner (s.state.downer.stopAndReassignPieceDownloader sha now peer chunk)

-- A call of stopAndReassignPieceDownloader: the state in which the chunk was found to be
-- late, and the one right before the call.
structure Taken (σ H : Type) where
  peer : Nat
  chunk : Nat
  found : Streaming σ H
  before : Streaming σ H

-- What tryReassignPeers gives, the list that is left and the calls it made.
structure Tried (σ H : Type) where
  enough : Bool
  left : List Nat
  after : Streaming σ H
  taken : List (Taken σ H)

def requiredAdditionDownloadRate (s : Streaming σ H) (chunk : Nat) : Nat :=
  let timeUntilChunkRequired := msecondsToSeconds (s.getTimeUntilRequired chunk)
  if timeUntilChunkRequired = 0 then s.bytesLeft chunk / 1
  else s.bytesLeft chunk / timeUntilChunkRequired + streamingSpeedReserve

def reassignLoop (sha : Sha1 σ H) (now : Nat) (found : Streaming σ H) (chunk : Nat) : List Nat → Nat → Streaming σ H → Tried σ H
  | [],_,s => ⟨false,[],s,[]⟩
  | peer :: rest,required,s =>
    if (s.state.downer.peers peer).hasChunk chunk then
      let s' := s.reassign sha now peer chunk
      let actual := min (s'.state.downer.peers peer).getDownloadRate (s'.state.downer.peers peer).getAverageDownloadRate
      if required < actual then ⟨true,rest,s',[⟨peer,chunk,found,s⟩]⟩
      else
        let tried := reassignLoop sha now found chunk rest (required - actual) s'
        {tried with taken := ⟨peer,chunk,found,s⟩ :: tried.taken}
    else
      let tried := reassignLoop sha now found chunk rest required s
      {tried with left := peer :: tried.left}

def tryReassignPeers (sha : Sha1 σ H) (now : Nat) (found s : Streaming σ H) (peersSorted : List Nat) (chunk : Nat) : Tried σ H :=
  reassignLoop sha now found chunk peersSorted (s.requiredAdditionDownloadRate chunk) s

end Streaming

open Streaming

-- A pass of checkAndMakeBufferRequiredBeInTime, and the calls it has made.
structure Pass (σ H : Type) where
  s : Streaming σ H
  peers : SortedPeers
  taken : List (Taken σ H)

namespace Pass

variable (sha : Sha1 σ H) (now : Nat) (p : Pass σ H)

def attempt (found : Streaming σ H) (chunk : Nat) (b : Buffer) : Bool × Pass σ H :=
  let tried := tryReassignPeers sha now found p.s (p.peers b) chunk
  (tried.enough,{p with s := tried.after,peers := Function.update p.peers b tried.left,taken := p.taken ++ tried.taken})

def prune (chunk : Nat) : Pass σ H :=
  let left := deletePeersDownloadedMorePrioritizedChunksFromList p.s.state.downer (p.peers .required) chunk
  {p with peers := Function.update p.peers .required left}

def makeInTime (chunk : Nat) : Bool × Pass σ H :=
  let outside := p.attempt sha now p.s chunk .outside
  if outside.1 then (false,outside.2)
  else
    let preferred := outside.2.attempt sha now p.s chunk .preferred
    if preferred.1 then (false,preferred.2)
    else
      let required := (preferred.2.prune chunk).attempt sha now p.s chunk .required
      ((required.2.peers .required).isEmpty,required.2)

def loop : List Nat → Pass σ H → Pass σ H
  | [],p => p
  | i :: rest,p =>
    if p.s.doesMeetRequirement i then loop rest p
    else
      match p.makeInTime sha now i with
      | (true,p') => p'
      | (false,p') => loop rest p'

end Pass

end KtorrentStream.Download
