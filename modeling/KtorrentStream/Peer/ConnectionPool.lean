import KtorrentStream.Lib.Along
import KtorrentStream.Net.Address
import KtorrentStream.Peer.NewConnection
set_option autoImplicit true

namespace KtorrentStream.Peer
open KtorrentStream.Util KtorrentStream.Lib KtorrentStream.Net

-- The settings that a connector asks for, and OpenFileAllowed().
structure ServerInterface where
  primaryIsUtp : Bool
  encryptionEnabled : Bool
  unencryptedConnectionsAllowed : Bool
  utpEnabled : Bool
  onlyUseUtp : Bool
  openFileAllowed : Bool

namespace PeerConnector

inductive Method
  | tcpWithEncryption
  | tcpWithoutEncryption
  | utpWithEncryption
  | utpWithoutEncryption
  deriving DecidableEq

end PeerConnector

open PeerConnector (Method)

-- A PeerConnector, which has a token; currentMethod is there once it is acquired.
structure PeerConnector where
  addr : Address
  isLocal : Bool
  triedMethods : List Method
  currentMethod : Option Method

namespace PeerConnector

def acquired (s : ServerInterface) : Method :=
  if s.encryptionEnabled then
    if s.utpEnabled && s.primaryIsUtp then .utpWithEncryption else .tcpWithEncryption
  else
    if s.utpEnabled && s.primaryIsUtp then .utpWithoutEncryption else .tcpWithoutEncryption

-- Whether the settings let a method be tried after one that failed.
def allowed (s : ServerInterface) : Method → Bool
  | .utpWithEncryption => s.utpEnabled && s.encryptionEnabled
  | .utpWithoutEncryption => s.utpEnabled && s.unencryptedConnectionsAllowed
  | .tcpWithEncryption => !s.onlyUseUtp && s.encryptionEnabled && s.openFileAllowed
  | .tcpWithoutEncryption => !s.onlyUseUtp && s.unencryptedConnectionsAllowed && s.openFileAllowed

-- The branches of authenticationFinished, in their order.
def order (s : ServerInterface) : List Method :=
  if s.primaryIsUtp then [.utpWithEncryption,.utpWithoutEncryption,.tcpWithEncryption,.tcpWithoutEncryption]
  else [.tcpWithEncryption,.tcpWithoutEncryption,.utpWithEncryption,.utpWithoutEncryption]

def nextMethod (s : ServerInterface) (tried : List Method) : Option Method := (order s).find? fun m => allowed s m && !tried.contains m

end PeerConnector

-- Of a Peer what the PeerManager looks at. kill clears its token.
structure PoolPeer where
  address : Address
  peerID : Nat
  isLocal : Bool
  acaScore : Rat
  killed : Bool

def PoolPeer.bad (p : PoolPeer) : Bool := decide (p.acaScore ≤ -5) && decide (p.acaScore > -50)

-- The order of Address::operator < is that of these numbers.
def addressKey : Address → Nat
  | .v4 ip port => ip.toNat * 65536 + port.toNat
  | .v6 ip port => 281474976710656 + (ip.val.foldl (fun n byte => n * 256 + byte.toNat) 0) * 65536 + port.toNat

-- A PeerManager with the ConnectionLimit, and all tokens that are out. Connectors are known
-- by their pointers, peers by their ids.
structure ConnectionPool where
  infoHash : Nat
  started : Bool
  paused : Bool
  potentialPeers : PtrMap (Address × Bool)
  connectors : PtrMap PeerConnector
  nextPointer : Nat
  peerMap : PtrMap PoolPeer
  peerIdCounter : Nat
  connections : Connections

namespace ConnectionPool

def new (infoHash system : Nat) : ConnectionPool := ⟨infoHash,false,false,.empty,.empty,0,.empty,1,.new system⟩

def maxSimultaniousAuths : Nat := 20

variable (p : ConnectionPool)

-- ConnectionLimit::acquire for the torrent, and the destructor of one of its tokens.
def acquire : Option Connections := (p.connections.limit.acquire p.infoHash).map fun limit => ⟨limit,p.infoHash :: p.connections.tokens⟩

def release : ConnectionPool := {p with connections := Admission.released p.connections p.infoHash}

def addPotentialPeer (addr : Address) (isLocal : Bool) : ConnectionPool :=
  if p.potentialPeers.count < 500 then {p with potentialPeers := p.potentialPeers.insert (addressKey addr) (addr,isLocal)} else p

-- Peer::kill
def kill (id : Nat) : ConnectionPool :=
  match p.peerMap.find id with
  | none => p
  | some peer =>
    if peer.killed then p
    else {p.release with peerMap := p.peerMap.modify id fun _ => {peer with killed := true}}

def connectedTo (peerID : Nat) : Bool := p.started && p.peerMap.entries.any fun e => e.2.peerID == peerID

def connectedToAddress (addr : Address) : Bool := p.peerMap.entries.any fun e => e.2.address == addr

-- The peer has the token. Its constructor kills it where its address is 0.0.0.0.
def createPeer (addr : Address) (peerID : Nat) (isLocal : Bool) : ConnectionPool :=
  let p : ConnectionPool := {p with
    peerMap := p.peerMap.insert p.peerIdCounter ⟨addr,peerID,isLocal,0,false⟩
    peerIdCounter := p.peerIdCounter + 1}
  match addr with
  | .v4 0 _ => p.kill (p.peerIdCounter - 1)
  | _ => p

-- The token of the connector is the peer's when there is one, and otherwise destroyed with
-- the connector.
def peerAuthenticated (pointer : Nat) (c : PeerConnector) : Option Nat → ConnectionPool
  | some peerID =>
    if p.started && !p.connectedTo peerID then {p with connectors := p.connectors.erase pointer}.createPeer c.addr peerID c.isLocal
    else {p.release with connectors := p.connectors.erase pointer}
  | none => {p.release with connectors := p.connectors.erase pointer}

-- PeerConnector::acquired, and authenticationFinished with the id of the peer or none.
def acquired (s : ServerInterface) (pointer : Nat) : ConnectionPool :=
  match p.connectors.find pointer with
  | none => p
  | some c =>
    if c.currentMethod = none ∧ p.started then
      {p with connectors := p.connectors.modify pointer fun _ => {c with currentMethod := some (PeerConnector.acquired s)}}
    else p

def authenticationFinished (s : ServerInterface) (pointer : Nat) (ok : Option Nat) : ConnectionPool :=
  match p.connectors.find pointer with
  | none => p
  | some c =>
    match c.currentMethod,ok with
    | none,_ => p
    | some _,some peerID => p.peerAuthenticated pointer c (some peerID)
    | some m,none =>
      let tried := c.triedMethods.insert m
      match PeerConnector.nextMethod s tried with
      | some next => {p with connectors := p.connectors.modify pointer fun _ => {c with triedMethods := tried,currentMethod := some next}}
      | none => p.peerAuthenticated pointer c none

def badPeer : Option Nat := (p.peerMap.entries.find? fun e => e.2.bad).map Prod.fst

-- The token that is acquired first is destroyed when the function returns.
def newConnection (addr : Address) (peerID : Nat) : ConnectionPool :=
  if !p.started then p
  else match p.acquire with
    | some connections => {p with connections := connections}.release
    | none => match p.badPeer with
      | none => p
      | some id => match (p.kill id).acquire with
        | none => p.kill id
        | some connections => {p.kill id with connections := connections}.createPeer addr peerID false

-- ServerAuthenticate::handshakeReceived, once the torrent is found.
def handshakeReceived (own : Nat) (allowed : Address → Bool) (addr : Address) (peerID : Nat) : ConnectionPool :=
  if !allowed addr || peerID == own || p.connectedTo peerID then p else p.newConnection addr peerID

-- The loop of connectToPeers: it takes the potential peers from the front.
def connectToPeers (allowed : Address → Bool) : List (Nat × Address × Bool) → ConnectionPool → ConnectionPool
  | [],p => p
  | (key,addr,isLocal) :: rest,p =>
    if p.connectors.count > maxSimultaniousAuths then p
    else if allowed addr && !p.connectedToAddress addr then
      match p.acquire with
      | none => p
      | some connections => connectToPeers allowed rest {p with
          connections := connections
          connectors := p.connectors.insert p.nextPointer ⟨addr,isLocal,[],none⟩
          nextPointer := p.nextPointer + 1
          potentialPeers := p.potentialPeers.erase key}
    else connectToPeers allowed rest {p with potentialPeers := p.potentialPeers.erase key}

-- PeerManager::pex
def pex (peers : List Address) : ConnectionPool := peers.foldl (fun p addr => p.addPotentialPeer addr false) p

-- What a peer does in Peer::update: its packets name other peers, and one of them or its
-- closed socket kills it.
structure Updated where
  peers : List Address
  dies : Bool

def updatePeer (stalled : Nat → Bool) (updated : Nat → Updated) (p : ConnectionPool) (id : Nat) : ConnectionPool :=
  match p.peerMap.find id with
  | none => p
  | some peer =>
    if peer.killed then {p with peerMap := p.peerMap.erase id}
    else if stalled id then
      let p := (p.addPotentialPeer peer.address peer.isLocal).kill id
      {p with peerMap := p.peerMap.erase id}
    else
      let p := p.pex (updated id).peers
      if (updated id).dies then p.kill id else p

def update (stalled : Nat → Bool) (updated : Nat → Updated) (allowed : Address → Bool) : ConnectionPool :=
  if !p.started then p
  else
    let p := (p.peerMap.entries.map Prod.fst).foldl (updatePeer stalled updated) p
    if p.paused then p else p.connectToPeers allowed p.potentialPeers.entries

-- The tokens of the connectors and of the peers are destroyed with them.
def dropConnector (pointer : Nat) : ConnectionPool := {p.release with connectors := p.connectors.erase pointer}

def dropPeer (id : Nat) : ConnectionPool := {p.kill id with peerMap := (p.kill id).peerMap.erase id}

-- connectors.clear() and closeAllConnections()
def clearConnectors : ConnectionPool := (p.connectors.entries.map Prod.fst).foldl dropConnector p

def closeAllConnections : ConnectionPool := (p.peerMap.entries.map Prod.fst).foldl dropPeer p

def stop : ConnectionPool := {p with started := false}.clearConnectors.closeAllConnections

-- others: what happens to the tokens of other torrents, and to the limits.
inductive Event
  | start
  | stop
  | pause (on : Bool)
  | addPotentialPeer (addr : Address) (isLocal : Bool)
  | acquired (s : ServerInterface) (pointer : Nat)
  | authenticationFinished (s : ServerInterface) (pointer : Nat) (ok : Option Nat)
  | handshakeReceived (own : Nat) (allowed : Address → Bool) (addr : Address) (peerID : Nat)
  | acaScore (id : Nat) (score : Rat)
  | kill (id : Nat)
  | update (stalled : Nat → Bool) (updated : Nat → Updated) (allowed : Address → Bool)
  | others (e : LimitEvent)

-- Whether the event is about a token of this torrent.
def own : LimitEvent → Bool
  | .acquire hash => hash == p.infoHash
  | .destroy token => p.connections.tokens[token]? == some p.infoHash
  | .setLimits _ _ _ => false

def step : Event → ConnectionPool
  | .start => {p with started := true,paused := false}
  | .stop => p.stop
  | .pause on => {p with paused := on}
  | .addPotentialPeer addr isLocal => p.addPotentialPeer addr isLocal
  | .acquired s pointer => p.acquired s pointer
  | .authenticationFinished s pointer ok => p.authenticationFinished s pointer ok
  | .handshakeReceived own allowed addr peerID => p.handshakeReceived own allowed addr peerID
  | .acaScore id score => match p.peerMap.find id with
    | none => p
    | some peer => {p with peerMap := p.peerMap.modify id fun _ => {peer with acaScore := score}}
  | .kill id => p.kill id
  | .update stalled updated allowed => p.update stalled updated allowed
  | .others e => if p.own e then p else {p with connections := p.connections.step e}

-- The connections in use

def run (infoHash system : Nat) (events : List Event) : ConnectionPool := events.foldl step (new infoHash system)

def Event.limits : Event → Bool
  | .others e => e.sets
  | _ => false

end ConnectionPool

-- The methods of a connector, the last one first.
def PeerConnector.attempts (c : PeerConnector) : List Method := c.currentMethod.toList ++ c.triedMethods

def PoolPeer.live (peer : PoolPeer) : Bool := !peer.killed

namespace ConnectionPool

-- Every token of the torrent that is out belongs to one connector or to one living peer. A
-- method is not tried twice, and who gives up has tried all that is allowed then.
structure Consistent (p : ConnectionPool) : Prop where
  owned : p.connections.tokens.count p.infoHash = p.connectors.count + p.peerMap.countValues PoolPeer.live
  counted : p.connections.limit.torrentTotal p.infoHash = p.connections.tokens.count p.infoHash ∧ p.connections.limit.globalTotal = p.connections.tokens.length
  stopped : p.started = false → p.connections.tokens.count p.infoHash = 0
  auths : p.connectors.count ≤ maxSimultaniousAuths + 1
  potential : p.potentialPeers.count ≤ 500
  distinct : ∀ j k one two, p.peerMap.find j = some one → p.peerMap.find k = some two → one.peerID = two.peerID → j = k
  attempts : ∀ k c, p.connectors.find k = some c → c.attempts.Nodup ∧ c.attempts.length ≤ 4
  retries : ∀ s k c, p.connectors.find k = some c → c.currentMethod ≠ none →
    (∃ c' next, (p.authenticationFinished s k none).connectors.find k = some c' ∧ c'.attempts = next :: c.attempts ∧ PeerConnector.allowed s next = true) ∨
      ((p.authenticationFinished s k none).connectors.find k = none ∧ ∀ m, PeerConnector.allowed s m = true → m ∈ c.attempts)

-- Every token of the torrent that is out belongs to one connector or one living peer, but
-- for spare ones that a function holds. Where limited is true the limits are kept.
structure Kept (spare : Nat) (limited : Bool) (p : ConnectionPool) : Prop where
  counted : p.connections.Counted
  owned : p.connections.tokens.count p.infoHash = p.connectors.count + p.peerMap.countValues PoolPeer.live + spare
  within : limited = true → p.connections.limit.Within p.infoHash
  auths : p.connectors.count ≤ maxSimultaniousAuths + 1
  potential : p.potentialPeers.count ≤ 500
  stopped : p.started = false → (∀ k, p.connectors.find k = none) ∧ ∀ k, p.peerMap.find k = none
  pointers : ∀ k c, p.connectors.find k = some c → k < p.nextPointer ∧ c.attempts.Nodup ∧ (c.currentMethod = none → c.triedMethods = [])
  ids : ∀ k peer, p.peerMap.find k = some peer → k < p.peerIdCounter
  distinct : ∀ j k one two, p.peerMap.find j = some one → p.peerMap.find k = some two → one.peerID = two.peerID → j = k

end ConnectionPool

namespace ConnectionPool
namespace Kept

variable {p : ConnectionPool} {limited : Bool} {hash torrent : Nat} {granted : Connections}

theorem acquire (kept : Kept spare limited p) (done : p.acquire = some granted) : Kept (spare + 1) limited {p with connections := granted} := by
  unfold ConnectionPool.acquire at done
  obtain ⟨limit,room,rfl⟩ := Option.map_eq_some_iff.mp done
  have owned := kept.owned
  refine {kept with counted := Connections.acquire_counted kept.counted room,owned := ?_,within := fun _ => ConnectionLimit.acquire_within room}
  show (p.infoHash :: p.connections.tokens).count p.infoHash = _
  rw [List.count_cons_self,owned]
  rfl

theorem release_within {s : Connections} (counted : s.Counted) (out : hash ∈ s.tokens) (within : s.limit.Within torrent) :
    (s.limit.release hash).Within torrent := by
  obtain ⟨some_,value,found⟩ := counted.entry out
  obtain ⟨global,one⟩ := within
  have total := ConnectionLimit.release_total found some_ torrent
  have less := (ConnectionLimit.release_cases found some_).1
  have limits := s.limit.release_limits hash
  unfold ConnectionLimit.Within
  rw [limits.1,limits.2,total]
  exact ⟨by omega,by omega⟩

theorem release (kept : Kept (spare + 1) limited p) : Kept spare limited p.release := by
  have owned := kept.owned
  have out : p.infoHash ∈ p.connections.tokens := List.count_pos_iff.mp (by omega)
  refine {kept with
    counted := Connections.destroyed_counted kept.counted out
    owned := ?_
    within := fun on => release_within kept.counted out (kept.within on)}
  show (p.connections.tokens.erase p.infoHash).count p.infoHash = _
  rw [List.count_erase_self,owned]
  rfl

theorem dropConnector (kept : Kept spare limited p) (found : p.connectors.find k = some c) :
    Kept (spare + 1) limited {p with connectors := p.connectors.erase k} := by
  have less := p.connectors.count_erase found
  have owned := kept.owned
  have auths := kept.auths
  refine {kept with owned := ?_,auths := ?_,stopped := fun off => ?_,pointers := fun j c' there => ?_}
  · show p.connections.tokens.count p.infoHash = (p.connectors.erase k).count + p.peerMap.countValues PoolPeer.live + (spare + 1)
    omega
  · show (p.connectors.erase k).count ≤ maxSimultaniousAuths + 1
    omega
  · exact absurd (((kept.stopped off).1 k).symm.trans found) (by simp)
  · rw [PtrMap.find_erase] at there
    split at there
    · cases there
    · exact kept.pointers j c' there

theorem changeConnector (kept : Kept spare limited p) (k : Nat) (c : PeerConnector) (once : c.attempts.Nodup) (begun : c.currentMethod ≠ none) :
    Kept spare limited {p with connectors := p.connectors.modify k fun _ => c} := by
  have same := p.connectors.count_modify k fun _ => c
  refine {kept with owned := ?_,auths := ?_,stopped := fun off => ⟨?_,(kept.stopped off).2⟩,pointers := fun j c' there => ?_}
  · show _ = (p.connectors.modify k _).count + _ + _
    rw [same]
    exact kept.owned
  · exact same ▸ kept.auths
  · intro j
    show (p.connectors.modify k _).find j = none
    rw [PtrMap.find_modify,(kept.stopped off).1 j,Option.map_none,ite_self]
  · rw [PtrMap.find_modify] at there
    split at there
    · obtain ⟨old,found,rfl⟩ := Option.map_eq_some_iff.mp there
      exact ⟨(kept.pointers j old found).1,once,fun never => absurd never begun⟩
    · exact kept.pointers j c' there

theorem addConnector (kept : Kept (spare + 1) limited p) (on : p.started = true) (few : p.connectors.count ≤ maxSimultaniousAuths) (addr : Address) (isLocal : Bool) :
    Kept spare limited {p with connectors := p.connectors.insert p.nextPointer ⟨addr,isLocal,[],none⟩,nextPointer := p.nextPointer + 1} := by
  have fresh : p.connectors.find p.nextPointer = none := by
    cases found : p.connectors.find p.nextPointer with
    | none => rfl
    | some c => exact absurd (kept.pointers _ c found).1 (Nat.lt_irrefl _)
  have more := p.connectors.count_insert ⟨addr,isLocal,[],none⟩ fresh
  have owned := kept.owned
  refine {kept with owned := ?_,auths := ?_,stopped := fun off => ?_,pointers := fun j c there => ?_}
  · show p.connections.tokens.count p.infoHash = (p.connectors.insert _ _).count + p.peerMap.countValues PoolPeer.live + spare
    omega
  · show (p.connectors.insert _ _).count ≤ maxSimultaniousAuths + 1
    omega
  · exact absurd (on.symm.trans off) (by decide)
  · rw [PtrMap.find_insert] at there
    split at there
    · rename_i here
      cases there
      exact ⟨here ▸ Nat.lt_succ_self _,.nil,fun _ => rfl⟩
    · obtain ⟨low,rest⟩ := kept.pointers j c there
      exact ⟨Nat.lt_succ_of_lt low,rest⟩

theorem addPeer (kept : Kept (spare + 1) limited p) (added : PoolPeer) (on : p.started = true) (new : ∀ k peer, p.peerMap.find k = some peer → peer.peerID ≠ added.peerID)
    (live : added.killed = false) : Kept spare limited {p with peerMap := p.peerMap.insert p.peerIdCounter added,peerIdCounter := p.peerIdCounter + 1} := by
  have fresh : p.peerMap.find p.peerIdCounter = none := by
    cases found : p.peerMap.find p.peerIdCounter with
    | none => rfl
    | some peer => exact absurd (kept.ids _ peer found) (Nat.lt_irrefl _)
  have more := p.peerMap.countValues_insert PoolPeer.live added fresh
  rw [show added.live = true by rw [PoolPeer.live,live]; rfl,Bool.toNat_true] at more
  have owned := kept.owned
  refine {kept with owned := ?_,stopped := fun off => ?_,ids := fun j peer there => ?_,distinct := fun j k one two here there same => ?_}
  · show p.connections.tokens.count p.infoHash = p.connectors.count + (p.peerMap.insert _ _).countValues PoolPeer.live + spare
    omega
  · exact absurd (on.symm.trans off) (by decide)
  · rw [PtrMap.find_insert] at there
    split at there
    · rename_i here
      exact here ▸ Nat.lt_succ_self _
    · exact Nat.lt_succ_of_lt (kept.ids j peer there)
  · rw [PtrMap.find_insert] at here there
    split at here
    · cases here
      split at there
      · rename_i left right
        exact left.trans right.symm
      · exact absurd same.symm (new k two there)
    · split at there
      · cases there
        exact absurd same (new j one here)
      · exact kept.distinct j k one two here there same

-- A peer that stays the same one is changed; what it has less is spare.
theorem changePeer (kept : Kept spare limited p) (changed : PoolPeer) (found : p.peerMap.find k = some peer) (same : changed.peerID = peer.peerID)
    (tokens : spare' + changed.live.toNat = spare + peer.live.toNat) :
    Kept spare' limited {p with peerMap := p.peerMap.modify k fun _ => changed} := by
  have less := p.peerMap.countValues_modify PoolPeer.live changed found
  have owned := kept.owned
  have was (j : Nat) (one : PoolPeer) (there : (p.peerMap.modify k fun _ => changed).find j = some one) :
      ∃ old, p.peerMap.find j = some old ∧ one.peerID = old.peerID := by
    rw [PtrMap.find_modify] at there
    split at there
    · rename_i here
      obtain ⟨old,was,rfl⟩ := Option.map_eq_some_iff.mp there
      rw [here] at was
      exact ⟨peer,here ▸ found,same⟩
    · exact ⟨one,there,rfl⟩
  refine {kept with owned := ?_,stopped := fun off => ?_,ids := fun j one there => ?_,distinct := fun i j one two here there eq => ?_}
  · show p.connections.tokens.count p.infoHash = p.connectors.count + (p.peerMap.modify _ _).countValues PoolPeer.live + spare'
    omega
  · exact absurd (((kept.stopped off).2 k).symm.trans found) (by simp)
  · obtain ⟨old,there,_⟩ := was j one there
    exact kept.ids j old there
  · obtain ⟨first,here,left⟩ := was i one here
    obtain ⟨second,there,right⟩ := was j two there
    exact kept.distinct i j first second here there (left.symm.trans (eq.trans right))

theorem dropPeer (kept : Kept spare limited p) (found : p.peerMap.find k = some peer) (dead : peer.live = false) :
    Kept spare limited {p with peerMap := p.peerMap.erase k} := by
  have less := p.peerMap.countValues_erase_found PoolPeer.live found
  rw [dead,Bool.toNat_false] at less
  have owned := kept.owned
  have was (j : Nat) (one : PoolPeer) (there : (p.peerMap.erase k).find j = some one) : p.peerMap.find j = some one := by
    rw [PtrMap.find_erase] at there
    split at there
    · cases there
    · exact there
  refine {kept with owned := ?_,stopped := fun off => ?_,ids := fun j one there => kept.ids j one (was j one there),
                    distinct := fun i j one two here there => kept.distinct i j one two (was i one here) (was j two there)}
  · show p.connections.tokens.count p.infoHash = p.connectors.count + (p.peerMap.erase k).countValues PoolPeer.live + spare
    omega
  · exact absurd (((kept.stopped off).2 k).symm.trans found) (by simp)

-- The functions of the PeerManager

theorem addPotentialPeer (kept : Kept spare limited p) (addr : Address) (isLocal : Bool) : Kept spare limited (p.addPotentialPeer addr isLocal) := by
  unfold ConnectionPool.addPotentialPeer
  split
  · have more := p.potentialPeers.count_insert_le (addressKey addr) (addr,isLocal)
    refine {kept with potential := ?_}
    show (p.potentialPeers.insert _ _).count ≤ 500
    omega
  · exact kept

theorem dropPotential (kept : Kept spare limited p) (key : Nat) : Kept spare limited {p with potentialPeers := p.potentialPeers.erase key} :=
  {kept with potential := (p.potentialPeers.count_erase_le key).trans kept.potential}

theorem kill (kept : Kept spare limited p) (id : Nat) : Kept spare limited (p.kill id) := by
  unfold ConnectionPool.kill
  split
  · exact kept
  · rename_i peer found
    split
    · exact kept
    · rename_i living
      have live : peer.live = true := by
        unfold PoolPeer.live
        rw [Bool.not_eq_true] at living
        rw [living]
        rfl
      exact (kept.changePeer {peer with killed := true} found rfl (by rw [live]; rfl)).release

theorem connectedTo_new (on : p.started = true) (new : p.connectedTo peerID = false) (found : p.peerMap.find k = some peer) : peer.peerID ≠ peerID := by
  unfold ConnectionPool.connectedTo at new
  rw [on,Bool.true_and,List.any_eq_false] at new
  simpa using new _ ((p.peerMap.find_eq_some_iff).mp found)

theorem createPeer (kept : Kept (spare + 1) limited p) (on : p.started = true) (new : ∀ k peer, p.peerMap.find k = some peer → peer.peerID ≠ peerID)
    (addr : Address) (isLocal : Bool) : Kept spare limited (p.createPeer addr peerID isLocal) := by
  have added := kept.addPeer ⟨addr,peerID,isLocal,0,false⟩ on new rfl
  unfold ConnectionPool.createPeer
  dsimp only
  split
  · exact added.kill _
  · exact added

theorem peerAuthenticated (kept : Kept spare limited p) (found : p.connectors.find k = some c) (ok : Option Nat) :
    Kept spare limited (p.peerAuthenticated k c ok) := by
  have dropped := kept.dropConnector found
  unfold ConnectionPool.peerAuthenticated
  split
  · rename_i peerID
    split
    · rename_i test
      rw [Bool.and_eq_true,Bool.not_eq_true'] at test
      exact dropped.createPeer test.1 (fun j peer there => connectedTo_new test.1 test.2 there) c.addr c.isLocal
    · exact dropped.release
  · exact dropped.release

theorem acquired (kept : Kept spare limited p) (s : ServerInterface) (k : Nat) : Kept spare limited (p.acquired s k) := by
  unfold ConnectionPool.acquired
  split
  · exact kept
  · rename_i c found
    split
    · rename_i idle
      have nothing := (kept.pointers k c found).2.2 idle.1
      apply kept.changeConnector
      · show (PeerConnector.acquired s :: c.triedMethods).Nodup
        rw [nothing]
        exact List.nodup_singleton _
      · simp
    · exact kept

end Kept

theorem addPotentialPeer_started (p : ConnectionPool) (addr : Address) (isLocal : Bool) :
    (p.addPotentialPeer addr isLocal).started = p.started ∧ (p.addPotentialPeer addr isLocal).peerMap = p.peerMap := by
  unfold addPotentialPeer
  split <;> exact ⟨rfl,rfl⟩

-- What kill leaves as it is, and that the peer is dead.
structure Killed (p : ConnectionPool) (id : Nat) (p' : ConnectionPool) : Prop where
  started : p'.started = p.started
  connectors : p'.connectors = p.connectors
  others : ∀ k, k ≠ id → p'.peerMap.find k = p.peerMap.find k
  dead : ∀ peer, p.peerMap.find id = some peer → p'.peerMap.find id = some {peer with killed := true}
  absent : p.peerMap.find id = none → p'.peerMap.find id = none

theorem kill_killed (p : ConnectionPool) (id : Nat) : Killed p id (p.kill id) := by
  unfold kill
  split
  · rename_i absent
    exact ⟨rfl,rfl,fun _ _ => rfl,fun peer found => absurd (absent.symm.trans found) (by simp),fun _ => absent⟩
  · rename_i peer found
    split
    · rename_i dead
      refine ⟨rfl,rfl,fun _ _ => rfl,fun other there => ?_,fun absent => absurd (absent.symm.trans found) (by simp)⟩
      cases found.symm.trans there
      rw [found]
      cases peer
      cases dead
      rfl
    · refine ⟨rfl,rfl,fun k other => ?_,fun other there => ?_,fun absent => absurd (absent.symm.trans found) (by simp)⟩
      · show (p.peerMap.modify id _).find k = _
        rw [PtrMap.find_modify,if_neg other]
      · cases found.symm.trans there
        show (p.peerMap.modify id _).find id = _
        rw [PtrMap.find_modify,if_pos rfl,found]
        rfl

theorem Killed.ids {id : Nat} (killed : Killed p id p') (there : p'.peerMap.find k = some one) : ∃ old, p.peerMap.find k = some old ∧ old.peerID = one.peerID := by
  by_cases here : k = id
  · cases found : p.peerMap.find id with
    | none =>
        rw [here,killed.absent found] at there
        cases there
    | some peer =>
        rw [here,killed.dead peer found] at there
        cases there
        exact ⟨peer,here ▸ found,rfl⟩
  · exact ⟨one,(killed.others k here).symm.trans there,rfl⟩

theorem nextMethod_some (next : PeerConnector.nextMethod s tried = some m) : PeerConnector.allowed s m = true ∧ m ∉ tried := by
  have test := List.find?_some next
  simpa using test

theorem nextMethod_none (nothing : PeerConnector.nextMethod s tried = none) (allowed : PeerConnector.allowed s m = true) : m ∈ tried := by
  have member : m ∈ PeerConnector.order s := by
    unfold PeerConnector.order
    cases m <;> split <;> simp
  have test := List.find?_eq_none.mp nothing m member
  simpa [allowed] using test

theorem tried_nodup {c : PeerConnector} (once : c.attempts.Nodup) (current : c.currentMethod = some m) : c.triedMethods.insert m = m :: c.triedMethods ∧ (m :: c.triedMethods).Nodup := by
  unfold PeerConnector.attempts at once
  rw [current] at once
  exact ⟨List.insert_of_not_mem (List.nodup_cons.mp once).1,once⟩

namespace Kept
variable {p : ConnectionPool} {limited : Bool}

theorem authenticationFinished (kept : Kept spare limited p) (s : ServerInterface) (k : Nat) (ok : Option Nat) :
    Kept spare limited (p.authenticationFinished s k ok) := by
  unfold ConnectionPool.authenticationFinished
  split
  · exact kept
  · rename_i c found
    split
    · exact kept
    · exact kept.peerAuthenticated found _
    · rename_i m current
      obtain ⟨tried,once⟩ := tried_nodup (kept.pointers k c found).2.1 current
      rw [tried]
      dsimp only
      split
      · rename_i next more
        apply kept.changeConnector
        · exact List.nodup_cons.mpr ⟨(nextMethod_some more).2,once⟩
        · simp
      · exact kept.peerAuthenticated found none

theorem newConnection (kept : Kept spare limited p) (addr : Address) (new : p.connectedTo peerID = false) : Kept spare limited (p.newConnection addr peerID) := by
  unfold ConnectionPool.newConnection
  split
  · exact kept
  · rename_i on
    simp only [Bool.not_eq_true',Bool.not_eq_false] at on
    split
    · rename_i granted done
      exact (kept.acquire done).release
    · split
      · exact kept
      · rename_i id bad
        split
        · exact kept.kill id
        · rename_i granted done
          have killed := kill_killed p id
          apply ((kept.kill id).acquire done).createPeer
          · exact killed.started.trans on
          · intro k peer there
            obtain ⟨old,found,same⟩ := killed.ids there
            exact same ▸ connectedTo_new on new found

theorem handshakeReceived (kept : Kept spare limited p) (own : Nat) (allowed : Address → Bool) (addr : Address) (peerID : Nat) :
    Kept spare limited (p.handshakeReceived own allowed addr peerID) := by
  unfold ConnectionPool.handshakeReceived
  split
  · exact kept
  · rename_i test
    simp only [Bool.or_eq_true,not_or,Bool.not_eq_true] at test
    exact kept.newConnection addr test.2

theorem connectToPeers (kept : Kept spare limited p) (on : p.started = true) (allowed : Address → Bool) (waiting : List (Nat × Address × Bool)) :
    Kept spare limited (p.connectToPeers allowed waiting) := by
  induction waiting generalizing p with
  | nil => exact kept
  | cons entry rest ih =>
      obtain ⟨key,addr,isLocal⟩ := entry
      unfold ConnectionPool.connectToPeers
      split
      · exact kept
      · rename_i few
        split
        · split
          · exact kept
          · rename_i granted done
            exact ih (((kept.acquire done).addConnector on (Nat.not_lt.mp few) addr isLocal).dropPotential key) on
        · exact ih (kept.dropPotential key) on

theorem killDrop {id : Nat} (kept : Kept spare limited p) (found : p.peerMap.find id = some peer) :
    Kept spare limited {p.kill id with peerMap := (p.kill id).peerMap.erase id} :=
  (kept.kill id).dropPeer ((kill_killed p id).dead peer found) rfl

theorem pex (kept : Kept spare limited p) (peers : List Address) : Kept spare limited (p.pex peers) := by
  unfold ConnectionPool.pex
  induction peers generalizing p with
  | nil => exact kept
  | cons addr rest ih => exact ih (kept.addPotentialPeer addr false)

theorem updatePeer (kept : Kept spare limited p) (stalled : Nat → Bool) (updated : Nat → Updated) (id : Nat) :
    Kept spare limited (p.updatePeer stalled updated id) := by
  unfold ConnectionPool.updatePeer
  split
  · exact kept
  · rename_i peer found
    split
    · rename_i dead
      exact kept.dropPeer found (by rw [PoolPeer.live,dead]; rfl)
    · split
      · have waiting := kept.addPotentialPeer peer.address peer.isLocal
        apply waiting.killDrop
        rw [(addPotentialPeer_started ..).2]
        exact found
      · have named := kept.pex (updated id).peers
        split
        · exact named.kill id
        · exact named

theorem updatePeers (kept : Kept spare limited p) (stalled : Nat → Bool) (updated : Nat → Updated) (ids : List Nat) :
    Kept spare limited (ids.foldl (ConnectionPool.updatePeer stalled updated) p) := by
  induction ids generalizing p with
  | nil => exact kept
  | cons id rest ih => exact ih (kept.updatePeer stalled updated id)

end Kept

theorem pex_started (p : ConnectionPool) (peers : List Address) : (p.pex peers).started = p.started :=
  foldl_fixed (fun p addr => (addPotentialPeer_started p addr false).1) peers p

theorem updatePeer_started (stalled : Nat → Bool) (updated : Nat → Updated) (p : ConnectionPool) (id : Nat) :
    (p.updatePeer stalled updated id).started = p.started := by
  unfold updatePeer
  split
  · rfl
  · split
    · rfl
    · split
      · exact (kill_killed _ id).started.trans (addPotentialPeer_started ..).1
      · have same := p.pex_started (updated id).peers
        split
        · exact (kill_killed _ id).started.trans same
        · exact same

theorem Kept.update (kept : Kept spare limited p) (stalled : Nat → Bool) (updated : Nat → Updated) (allowed : Address → Bool) :
    Kept spare limited (p.update stalled updated allowed) := by
  unfold ConnectionPool.update
  split
  · exact kept
  · rename_i on
    simp only [Bool.not_eq_true',Bool.not_eq_false] at on
    have turned := kept.updatePeers stalled updated (p.peerMap.entries.map Prod.fst)
    dsimp only
    split
    · exact turned
    · exact turned.connectToPeers ((foldl_fixed (updatePeer_started stalled updated) _ p).trans on) allowed _

theorem foldl_stopped {f : ConnectionPool → Nat → ConnectionPool} (blind : ∀ p k, f {p with started := false} k = {f p k with started := false})
    (keys : List Nat) (p : ConnectionPool) : keys.foldl f {p with started := false} = {keys.foldl f p with started := false} :=
  List.foldl_hom (fun p : ConnectionPool => {p with started := false}) blind

theorem dropPeer_stopped (p : ConnectionPool) (id : Nat) : dropPeer {p with started := false} id = {dropPeer p id with started := false} := by
  unfold dropPeer kill
  dsimp only
  split
  · rfl
  · split <;> rfl

theorem stop_eq (p : ConnectionPool) : p.stop = {p.clearConnectors.closeAllConnections with started := false} := by
  have connectors : {p with started := false}.clearConnectors = {p.clearConnectors with started := false} := foldl_stopped (fun _ _ => rfl) _ p
  unfold stop
  rw [connectors]
  exact foldl_stopped dropPeer_stopped _ p.clearConnectors

theorem foldl_none {f : ConnectionPool → Nat → ConnectionPool} {map : ConnectionPool → PtrMap β}
    (each : ∀ p k j, (map (f p k)).find j = if j = k then none else (map p).find j) (p : ConnectionPool) (j : Nat) :
    (map (((map p).entries.map Prod.fst).foldl f p)).find j = none := by
  have taken := foldl_local (f := fun p => (map p).find j) (g := fun _ => none) (c := j) (fun _ => rfl) (fun p k => each p k j)
    ((map p).entries.map Prod.fst) p
  rw [taken]
  split
  · rfl
  · rename_i absent
    apply (map p).absent_iff.mpr
    rintro e member rfl
    exact absent (List.mem_map_of_mem member)

theorem dropPeer_find (p : ConnectionPool) (id j : Nat) : (p.dropPeer id).peerMap.find j = if j = id then none else p.peerMap.find j := by
  show ((p.kill id).peerMap.erase id).find j = _
  rw [PtrMap.find_erase]
  split
  · rfl
  · rename_i other
    exact (kill_killed p id).others j other

theorem dropPeer_connectors (p : ConnectionPool) (id : Nat) : (p.dropPeer id).connectors = p.connectors := (kill_killed p id).connectors

theorem Kept.dropConnectors (kept : Kept spare limited p) (keys : List Nat) (once : keys.Nodup) (there : ∀ k ∈ keys, ∃ c, p.connectors.find k = some c) :
    Kept spare limited (keys.foldl ConnectionPool.dropConnector p) := by
  induction keys generalizing p with
  | nil => exact kept
  | cons k rest ih =>
      obtain ⟨c,found⟩ := there k List.mem_cons_self
      obtain ⟨fresh,once⟩ := List.nodup_cons.mp once
      apply ih (kept.dropConnector found).release once
      intro j member
      obtain ⟨c',found'⟩ := there j (List.mem_cons_of_mem _ member)
      refine ⟨c',?_⟩
      show (p.connectors.erase k).find j = some c'
      rw [PtrMap.find_erase,if_neg fun same : j = k => fresh (same ▸ member)]
      exact found'

theorem Kept.dropPeers (kept : Kept spare limited p) (ids : List Nat) : Kept spare limited (ids.foldl ConnectionPool.dropPeer p) := by
  induction ids generalizing p with
  | nil => exact kept
  | cons id rest ih =>
      apply ih
      cases found : p.peerMap.find id with
      | none =>
          have gone := (p.kill id).peerMap.erase_of_none ((kill_killed p id).absent found)
          unfold ConnectionPool.dropPeer
          rw [gone]
          exact kept.kill id
      | some peer => exact kept.killDrop found

theorem Kept.stop (kept : Kept spare limited p) : Kept spare limited p.stop := by
  have once : (p.connectors.entries.map Prod.fst).Nodup := List.pairwise_map.mpr (p.connectors.sorted.imp fun less => Nat.ne_of_lt less)
  have cleared := kept.dropConnectors _ once fun k member => by
    obtain ⟨e,inside,rfl⟩ := List.mem_map.mp member
    exact ⟨e.2,(p.connectors.find_eq_some_iff).mpr inside⟩
  have closed : Kept spare limited p.clearConnectors.closeAllConnections := cleared.dropPeers _
  have noConnectors (k : Nat) : p.clearConnectors.closeAllConnections.connectors.find k = none := by
    have same : p.clearConnectors.closeAllConnections.connectors = p.clearConnectors.connectors := foldl_fixed dropPeer_connectors _ _
    rw [same]
    exact foldl_none (f := ConnectionPool.dropConnector) (fun p k j => p.connectors.find_erase) p k
  have noPeers (k : Nat) : p.clearConnectors.closeAllConnections.peerMap.find k = none := foldl_none dropPeer_find p.clearConnectors k
  rw [stop_eq]
  exact {closed with stopped := fun _ => ⟨noConnectors,noPeers⟩}

theorem step_foreign {s : Connections} {hash : Nat} (counted : s.Counted) (e : LimitEvent) (acquired : e ≠ .acquire hash)
    (destroyed : ∀ token, e = .destroy token → s.tokens[token]? ≠ some hash) : (s.step e).tokens.count hash = s.tokens.count hash ∧
      ((∀ a b c, e ≠ .setLimits a b c) → s.limit.Within hash → (s.step e).limit.Within hash) := by
  cases e with
  | acquire other =>
      have apart : other ≠ hash := fun same => acquired (congrArg _ same)
      dsimp only [Connections.step]
      cases granted : s.limit.acquire other with
      | none => exact ⟨rfl,fun _ within => within⟩
      | some limit =>
          refine ⟨List.count_cons_of_ne apart,fun _ within => ?_⟩
          have total := ConnectionLimit.acquire_total granted hash
          have now := (ConnectionLimit.acquire_within granted).1
          obtain ⟨_,rfl⟩ := ConnectionLimit.acquire_cases granted
          rw [if_neg (Ne.symm apart)] at total
          exact ⟨now,by rw [total]; exact within.2⟩
  | destroy token =>
      dsimp only [Connections.step]
      cases here : s.tokens[token]? with
      | none => exact ⟨rfl,fun _ within => within⟩
      | some other =>
          have apart : hash ≠ other := fun same => destroyed token rfl (same ▸ here)
          refine ⟨?_,fun _ within => Kept.release_within counted (List.mem_of_getElem? here) within⟩
          show (s.tokens.eraseIdx token).count hash = _
          rw [Connections.count_eraseIdx here,if_neg apart]
          rfl
  | setLimits => exact ⟨rfl,fun never => absurd rfl (never _ _ _)⟩

theorem Kept.others (kept : Kept spare limited p) (e : LimitEvent) (foreign : p.own e = false) (kind : limited = true → ∀ a b c, e ≠ .setLimits a b c) :
    Kept spare limited {p with connections := p.connections.step e} := by
  have acquired : e ≠ .acquire p.infoHash := by
    rintro rfl
    simp [own] at foreign
  have destroyed : ∀ token, e = .destroy token → p.connections.tokens[token]? ≠ some p.infoHash := by
    rintro token rfl out
    simp [own,out] at foreign
  obtain ⟨tokens,within⟩ := step_foreign kept.counted e acquired destroyed
  exact {kept with
    counted := Connections.step_counted kept.counted e
    owned := tokens.trans kept.owned
    within := fun on => within (kind on) (kept.within on)}

theorem Kept.step (kept : Kept 0 limited p) (e : Event) (kind : limited = true → e.limits = false) : Kept 0 limited (p.step e) := by
  cases e with
  | start => exact {kept with stopped := fun never => by cases never}
  | stop => exact kept.stop
  | pause on => exact {kept with}
  | addPotentialPeer addr isLocal => exact kept.addPotentialPeer addr isLocal
  | acquired s pointer => exact kept.acquired s pointer
  | authenticationFinished s pointer ok => exact kept.authenticationFinished s pointer ok
  | handshakeReceived own allowed addr peerID => exact kept.handshakeReceived own allowed addr peerID
  | acaScore id score =>
      unfold ConnectionPool.step
      dsimp only
      split
      · exact kept
      · rename_i peer found
        exact kept.changePeer {peer with acaScore := score} found rfl rfl
  | kill id => exact kept.kill id
  | update stalled updated allowed => exact kept.update stalled updated allowed
  | others e =>
      unfold ConnectionPool.step
      dsimp only
      split
      · exact kept
      · rename_i foreign
        apply kept.others e (by simpa using foreign)
        rintro on a b c rfl
        cases kind on

theorem Kept.run (kept : Kept 0 limited p) (events : List Event) (kind : limited = true → ∀ e ∈ events, e.limits = false) :
    Kept 0 limited (events.foldl ConnectionPool.step p) := by
  induction events generalizing p with
  | nil => exact kept
  | cons e rest ih => exact ih (kept.step e fun on => kind on e List.mem_cons_self) fun on e' member => kind on e' (List.mem_cons_of_mem _ member)

theorem new_kept (infoHash system : Nat) : Kept 0 false (new infoHash system) where
  counted := Connections.new_counted system
  owned := rfl
  within never := by cases never
  auths := Nat.zero_le _
  potential := Nat.zero_le _
  stopped _ := ⟨fun _ => rfl,fun _ => rfl⟩
  pointers _ _ never := by cases never
  ids _ _ never := by cases never
  distinct _ _ _ _ never := by cases never

theorem attempts_length {c : PeerConnector} (once : c.attempts.Nodup) : c.attempts.length ≤ 4 := by
  have all : c.attempts ⊆ [.tcpWithEncryption,.tcpWithoutEncryption,.utpWithEncryption,.utpWithoutEncryption] := by
    intro m _
    cases m <;> simp
  exact (List.subperm_of_subset once all).length_le

theorem Kept.retries (kept : Kept spare limited p) (s : ServerInterface) (found : p.connectors.find k = some c) (begun : c.currentMethod ≠ none) :
    (∃ c' next, (p.authenticationFinished s k none).connectors.find k = some c' ∧ c'.attempts = next :: c.attempts ∧ PeerConnector.allowed s next = true) ∨
      ((p.authenticationFinished s k none).connectors.find k = none ∧ ∀ m, PeerConnector.allowed s m = true → m ∈ c.attempts) := by
  cases current : c.currentMethod with
  | none => exact absurd current begun
  | some m =>
      obtain ⟨tried,once⟩ := tried_nodup (kept.pointers k c found).2.1 current
      have same : c.attempts = m :: c.triedMethods := by
        unfold PeerConnector.attempts
        rw [current]
        rfl
      unfold ConnectionPool.authenticationFinished
      simp only [found,current,tried]
      cases more : PeerConnector.nextMethod s (m :: c.triedMethods) with
      | none =>
          right
          refine ⟨?_,fun m' allowed => same ▸ nextMethod_none more allowed⟩
          show (p.connectors.erase k).find k = none
          rw [PtrMap.find_erase,if_pos rfl]
      | some next =>
          left
          refine ⟨⟨c.addr,c.isLocal,m :: c.triedMethods,some next⟩,next,?_,by rw [same]; rfl,(nextMethod_some more).1⟩
          show (p.connectors.modify k _).find k = _
          rw [PtrMap.find_modify,if_pos rfl,found]
          rfl

theorem none_count {m : PtrMap β} (none_ : ∀ k, m.find k = none) : m.entries = [] := by
  apply List.eq_nil_iff_forall_not_mem.mpr
  intro e member
  exact absurd rfl (m.absent_iff.mp (none_ e.1) e member)

theorem Kept.consistent (kept : Kept 0 limited p) : Consistent p where
  owned := kept.owned
  counted := ⟨kept.counted.torrent p.infoHash,kept.counted.global⟩
  stopped off := by
    obtain ⟨connectors,peers⟩ := kept.stopped off
    rw [kept.owned,PtrMap.count,none_count connectors,PtrMap.countValues,none_count peers]
    rfl
  auths := kept.auths
  potential := kept.potential
  distinct := kept.distinct
  attempts k c found := ⟨(kept.pointers k c found).2.1,attempts_length (kept.pointers k c found).2.1⟩
  retries s k c found begun := kept.retries s found begun

def Limited (p : ConnectionPool) : Prop := p.connections.limit.Within p.infoHash

-- However connections come and go, and whatever the other torrents do with theirs. The
-- limits are kept from where they are, until they are set again.
theorem tokens_owned (infoHash system : Nat) (events : List Event) : Consistent (run infoHash system events) ∧
    ∀ before after, events = before ++ after → (∀ e ∈ after, e.limits = false) →
      (run infoHash system before).Limited → (run infoHash system events).Limited := by
  refine ⟨((new_kept infoHash system).run events fun never => by cases never).consistent,?_⟩
  rintro before after rfl unset within
  have kept : Kept 0 false (run infoHash system before) := (new_kept infoHash system).run before fun never => by cases never
  have limited : Kept 0 true (run infoHash system before) := {kept with within := fun _ => within}
  rw [run,List.foldl_append]
  exact (limited.run after fun _ => unset).within rfl

end ConnectionPool

end KtorrentStream.Peer
