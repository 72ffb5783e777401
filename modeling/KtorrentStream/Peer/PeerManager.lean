import KtorrentStream.Util.Bytes
import KtorrentStream.Util.PtrMap
import KtorrentStream.Util.Word
import KtorrentStream.Peer.ChunkCounter
set_option autoImplicit true

namespace KtorrentStream.Peer
open KtorrentStream.Util

structure Peer where
  chunksAvailability : BitSet
  receivedHaveMessage : Bool
  killed : Bool

-- loaded is Torrent::isLoaded, peerIdCounter the static counter of Peer.
structure PeerManager where
  numChunks : Nat
  loaded : Bool
  started : Bool
  peerMap : PtrMap Peer
  peerIdCounter : Nat
  availableChunks : BitSet
  cnt : ChunkCounter

def Peer.new (numChunks : Nat) : Peer := ⟨BitSet.new numChunks,false,false⟩

def Peer.kill (peer : Peer) : Peer := {peer with killed := true}

namespace PeerManager

def new (numChunks : Nat) (loaded : Bool) (peerIdCounter : Nat) : PeerManager where
  numChunks := numChunks
  loaded := loaded
  started := false
  peerMap := PtrMap.empty
  peerIdCounter := peerIdCounter
  availableChunks := BitSet.new numChunks
  cnt := ChunkCounter.new numChunks

-- Of have and bitSetReceived what concerns the counts; whether we are interested is left out.
def have_ (m : PeerManager) (index : Nat) : PeerManager :=
  {m with availableChunks := m.availableChunks.set index true,cnt := m.cnt.inc index}

def bitSetReceived (m : PeerManager) (bs : BitSet) : PeerManager :=
  (List.range bs.numBits).foldl (fun m i => if bs.get i then m.have_ i else m) m

def updateAvailableChunks (m : PeerManager) : PeerManager :=
  {m with availableChunks :=
    (List.range m.availableChunks.numBits).foldl (fun bs i => bs.set i (m.cnt.get i > 0)) m.availableChunks}

def handleHaveOf (m : PeerManager) (peer : Peer) (ch : Nat) : PeerManager × Peer :=
  if ch < peer.chunksAvailability.numBits then
    (m.have_ ch,{peer with chunksAvailability := peer.chunksAvailability.set ch true})
  else if m.loaded then (m,peer.kill)
  else (m,peer)

def handleHave (m : PeerManager) (peer : Peer) (packet : List UInt8) : PeerManager × Peer :=
  if packet.length ≠ 5 then (m,peer.kill)
  else m.handleHaveOf {peer with receivedHaveMessage := true} (readUint32 packet 1)

def handleHaveAll (m : PeerManager) (peer : Peer) (packet : List UInt8) : PeerManager × Peer :=
  if packet.length ≠ 1 then (m,peer.kill)
  else
    let bs := peer.chunksAvailability.setAll true
    (m.bitSetReceived bs,{peer with receivedHaveMessage := true,chunksAvailability := bs})

def handleHaveNone (m : PeerManager) (peer : Peer) (packet : List UInt8) : PeerManager × Peer :=
  if packet.length ≠ 1 then (m,peer.kill)
  else
    let bs := peer.chunksAvailability.setAll false
    (m.bitSetReceived bs,{peer with chunksAvailability := bs})

def handleBitField (m : PeerManager) (peer : Peer) (packet : List UInt8) : PeerManager × Peer :=
  if packet.length ≠ 1 + peer.chunksAvailability.data.length then
    if m.loaded then (m,peer.kill) else (m,peer)
  else
    let bs := BitSet.ofData (packet.drop 1) peer.chunksAvailability.numBits
    (m.bitSetReceived bs,{peer with receivedHaveMessage := true,chunksAvailability := bs})

-- The other packets do not touch the chunks; that they may kill the peer is a kill event.
def handlePacket (m : PeerManager) (peer : Peer) (packet : List UInt8) : PeerManager × Peer :=
  if peer.killed then (m,peer)
  else match packet.head? with
    | some 4 => m.handleHave peer packet
    | some 5 => m.handleBitField peer packet
    | some 14 => m.handleHaveAll peer packet
    | some 15 => m.handleHaveNone peer packet
    | _ => (m,peer)

end PeerManager

-- update goes over the peers and clears those that are killed, or lets them handle the
-- packets that have come; here each of these is an event of its own, in any order.
inductive PeerEvent
  | start
  | stop
  | createPeer
  | handlePacket (id : Nat) (packet : List UInt8)
  | kill (id : Nat)
  | clear (id : Nat)

namespace PeerManager

def step (m : PeerManager) : PeerEvent → PeerManager
  | .start => {m with started := true}
  | .stop => {m with
      cnt := m.cnt.reset,
      availableChunks := m.availableChunks.setAll false,
      started := false,
      peerMap := PtrMap.empty}
  | .createPeer =>
    if m.started then {m with
      peerMap := m.peerMap.insert m.peerIdCounter (Peer.new m.numChunks),
      peerIdCounter := uint32 (m.peerIdCounter + 1)}
    else m
  | .handlePacket id packet =>
    match m.peerMap.find id with
    | none => m
    | some peer =>
      let (m,peer) := m.handlePacket peer packet
      {m with peerMap := m.peerMap.modify id fun _ => peer}
  | .kill id =>
    match m.peerMap.find id with
    | none => m
    | some peer => {m with peerMap := m.peerMap.modify id fun _ => peer.kill}
  | .clear id =>
    match m.peerMap.find id with
    | none => m
    | some peer =>
      if m.started && peer.killed then
        let m := {m with cnt := m.cnt.decBitSet peer.chunksAvailability}.updateAvailableChunks
        {m with peerMap := m.peerMap.erase id}
      else m

def run (m : PeerManager) (events : List PeerEvent) : PeerManager := events.foldl step m

end PeerManager

end KtorrentStream.Peer
