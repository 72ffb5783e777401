import KtorrentStream.Peer.PeerManager
set_option autoImplicit true

namespace KtorrentStream.Peer
open KtorrentStream.Util

-- active_chunks is a QMultiMap: under each chunk its peers, the last one inserted first.
-- With it the calls of chunkAllowed on the peers, and how often qrand has been called.
structure SuperSeeder where
  chunkCounter : ChunkCounter
  activeChunks : Nat → List Nat
  activePeers : PtrMap Nat
  numSeeders : Nat
  allowed : List (Nat × Nat)
  draws : Nat

namespace SuperSeeder

def new (numChunks : Nat) : SuperSeeder := ⟨ChunkCounter.new numChunks,fun _ => [],PtrMap.empty,0,[],0⟩

def numChunks (s : SuperSeeder) : Nat := s.chunkCounter.cnt.length

def allow (s : SuperSeeder) (peer chunk : Nat) : SuperSeeder :=
  {s with
    activeChunks := fun c => if c = chunk then peer :: s.activeChunks c else s.activeChunks c
    activePeers := s.activePeers.insert peer chunk
    allowed := s.allowed ++ [(peer,chunk)]}

def deactivate (s : SuperSeeder) (peer : Nat) : SuperSeeder :=
  match s.activePeers.find peer with
  | none => s
  | some chunk =>
    {s with
      activeChunks := fun c => if c = chunk then (s.activeChunks c).filter (· ≠ peer) else s.activeChunks c
      activePeers := s.activePeers.erase peer}

-- The loop of sendChunk, and the chunk that is allowed if there is one. After the loop
-- this is chunk, not the alternative.
def search (s : SuperSeeder) (bs : BitSet) (start : Nat) : Nat → Nat → Nat → Option (Option Nat)
  | 0,_,_ => none
  | fuel + 1,chunk,alternative =>
    if chunk = start then some (if alternative < s.numChunks then some chunk else none)
    else
      let chunk := (chunk + 1) % s.numChunks
      if bs.get chunk then s.search bs start fuel chunk alternative
      else if uint32Sub (s.chunkCounter.get chunk) s.numSeeders = 0 then some (some chunk)
      else s.search bs start fuel chunk (if alternative = s.numChunks then chunk else alternative)

-- The counts, and the other peers that were given the chunk are taken out of both maps.
def toldHave (s : SuperSeeder) (peer : Nat) (p : Peer) (chunk : Nat) : SuperSeeder :=
  {s with
    chunkCounter := s.chunkCounter.inc chunk
    numSeeders := if p.chunksAvailability.allOn then uint32 (s.numSeeders + 1) else s.numSeeders
    activeChunks := fun c => if c = chunk then (s.activeChunks c).filter (· = peer) else s.activeChunks c
    activePeers := ((s.activeChunks chunk).filter (· ≠ peer)).foldl PtrMap.erase s.activePeers}

section
variable (qrand : Nat → Nat) (peers : PtrMap Peer)

-- The loop comes around in numChunks rounds. A peer that is not there cannot be asked.
def sendChunk (s : SuperSeeder) (peer : Nat) : Option SuperSeeder :=
  if s.activePeers.contains peer then some s
  else (peers.find peer).bind fun p =>
    if p.chunksAvailability.allOn then some s
    else
      let start := qrand s.draws % s.numChunks
      let drawn := {s with draws := s.draws + 1}
      (s.search p.chunksAvailability start s.numChunks ((start + 1) % s.numChunks) s.numChunks).map fun
        | none => drawn
        | some chunk => drawn.allow peer chunk

def have_ (s : SuperSeeder) (peer chunk : Nat) : Option SuperSeeder :=
  (peers.find peer).bind fun p =>
    ((s.activeChunks chunk).filter (· ≠ peer)).foldlM (sendChunk qrand peers) (s.toldHave peer p chunk)

def haveAll (s : SuperSeeder) (peer : Nat) : SuperSeeder :=
  let s := s.deactivate peer
  {s with numSeeders := uint32 (s.numSeeders + 1)}

def bitset (s : SuperSeeder) (peer : Nat) (bs : BitSet) : Option SuperSeeder :=
  if bs.allOn then some (s.haveAll peer)
  else (List.range bs.numBits).foldlM (fun s i => if bs.get i then s.have_ qrand peers peer i else some s) s

def peerAdded (s : SuperSeeder) (peer : Nat) : Option SuperSeeder :=
  (peers.find peer).bind fun p =>
    if p.chunksAvailability.allOn then some {s with numSeeders := uint32 (s.numSeeders + 1)}
    else sendChunk qrand peers {s with chunkCounter := s.chunkCounter.incBitSet p.chunksAvailability} peer

end

def peerRemoved (s : SuperSeeder) (peer : Nat) (p : Peer) : SuperSeeder :=
  let s := s.deactivate peer
  {s with
    numSeeders := if p.chunksAvailability.allOn && s.numSeeders > 0 then s.numSeeders - 1 else s.numSeeders
    chunkCounter := s.chunkCounter.decBitSet p.chunksAvailability}

end SuperSeeder

-- A PeerManager with its super seeder. The peers are told apart by their addresses, so a
-- new one has an address that no connected peer has.
structure Swarm where
  manager : PeerManager
  superseeder : SuperSeeder

inductive SwarmEvent
  | join (peer : Nat)
  | message (peer : Nat) (packet : List UInt8)
  | kill (peer : Nat)
  | clear (peer : Nat)

namespace Swarm

def new (numChunks : Nat) (loaded : Bool) : Swarm := ⟨(PeerManager.new numChunks loaded 0).step .start,SuperSeeder.new numChunks⟩

-- What the packet of a peer that is not killed makes PeerManager tell the super seeder: have
-- before the chunk goes into the set of the peer, bitset after the set of the peer is there.
def forward (qrand : Nat → Nat) (w : Swarm) (n : Nat) (peer : Peer) (packet : List UInt8) : Option SuperSeeder :=
  let after := (w.manager.step (.handlePacket n packet)).peerMap
  if peer.killed then some w.superseeder
  else match packet.head? with
    | some 4 =>
      if packet.length = 5 ∧ readUint32 packet 1 < peer.chunksAvailability.numBits then
        w.superseeder.have_ qrand w.manager.peerMap n (readUint32 packet 1)
      else some w.superseeder
    | some 5 =>
      if packet.length = 1 + peer.chunksAvailability.data.length then
        w.superseeder.bitset qrand after n (BitSet.ofData (packet.drop 1) peer.chunksAvailability.numBits)
      else some w.superseeder
    | some 14 =>
      if packet.length = 1 then w.superseeder.bitset qrand after n (peer.chunksAvailability.setAll true) else some w.superseeder
    | some 15 =>
      if packet.length = 1 then w.superseeder.bitset qrand after n (peer.chunksAvailability.setAll false) else some w.superseeder
    | _ => some w.superseeder

def step (qrand : Nat → Nat) (w : Swarm) : SwarmEvent → Option Swarm
  | .join n =>
    if w.manager.peerMap.contains n then some w
    else
      let manager := {w.manager with peerMap := w.manager.peerMap.insert n (Peer.new w.manager.numChunks)}
      (w.superseeder.peerAdded qrand manager.peerMap n).map fun s => ⟨manager,s⟩
  | .message n packet =>
    match w.manager.peerMap.find n with
    | none => some w
    | some peer => (w.forward qrand n peer packet).map fun s => ⟨w.manager.step (.handlePacket n packet),s⟩
  | .kill n => some {w with manager := w.manager.step (.kill n)}
  | .clear n =>
    match w.manager.peerMap.find n with
    | none => some w
    | some peer =>
      if peer.killed then some ⟨w.manager.step (.clear n),w.superseeder.peerRemoved n peer⟩
      else some w

def run (qrand : Nat → Nat) (w : Swarm) (events : List SwarmEvent) : Option Swarm := events.foldlM (step qrand) w

end Swarm

end KtorrentStream.Peer
