import KtorrentStream.Lib.Isolation
import KtorrentStream.Net.Address
import KtorrentStream.Util.PtrMap
import KtorrentStream.Utp.Lifecycle
set_option autoImplicit true

namespace KtorrentStream.Utp
open KtorrentStream.Lib KtorrentStream.Util KtorrentStream.Net

-- A connection of the server. Its address is where its packets go; packets are not
-- asked where they come from.
structure Peer where
  remote : Address
  world : World

-- What a new connection finds: the clock, what its memory holds, its buffer.
-- UTPServer::sendTo takes every packet.
structure Surroundings where
  clock : Nat → TimeValue
  gain : Int → UInt32 → UInt32 → Int
  memory : ConnectionState × UInt16
  outputBuffer : CircularBuffer

def Surroundings.connection (a : Surroundings) (recvConnectionId : UInt16) (type : ConnectionType) : World :=
  {World.calm (.new recvConnectionId type a.memory a.outputBuffer (a.clock 0)) with
    clock := a.clock
    ticks := 1
    gain := a.gain}

-- created counts the connections that were made under an id; pending and
-- lastAccepted hold the ids of the connections that wait for a socket.
structure UTPServer where
  connections : PtrMap Peer
  created : UInt16 → Nat
  createSockets : Bool
  pending : List UInt16
  lastAccepted : List UInt16

-- A TransmissionError ends the call and is caught around it.
def attempt (x : Act α) (w : World) : Option World :=
  match x w with
  | .ok _ w' => some w'
  | .error .transmissionError w' => some w'
  | .error .undefined _ => none

-- Nothing around the call catches an exception.
def finish (x : Act α) (w : World) : Option World :=
  match x w with
  | .ok _ w' => some w'
  | .error _ _ => none

inductive Request where
  | send (data : List UInt8)
  | recv (maxLen : UInt32)
  | close

def Request.act (w : World) : Request → Option World
  | .send data => attempt (Utp.send data) w
  | .recv maxLen => attempt (Utp.recv maxLen) w
  | .close => attempt Utp.close w

namespace UTPServer

def find (s : UTPServer) (connId : UInt16) : Option Peer := s.connections.find connId.toNat

def contains (s : UTPServer) (connId : UInt16) : Bool := s.connections.contains connId.toNat

def insert (s : UTPServer) (connId : UInt16) (c : Peer) : UTPServer := {s with connections := s.connections.insert connId.toNat c}

def remove (s : UTPServer) (connId : UInt16) : UTPServer := {s with connections := s.connections.erase connId.toNat}

def create (s : UTPServer) (around : UInt16 → Nat → Surroundings) (connId : UInt16) (type : ConnectionType) : UTPServer × World :=
  ({s with created := fun id => if id = connId then s.created id + 1 else s.created id},
    (around connId (s.created connId)).connection connId type)

def accepted (s : UTPServer) (connId : UInt16) : UTPServer :=
  if s.createSockets then {s with pending := s.pending ++ [connId]} else {s with lastAccepted := s.lastAccepted ++ [connId]}

def syn (around : UInt16 → Nat → Surroundings) (s : UTPServer) (parser : PacketParser) (packet : Buffer) (addr : Address) :
    Option UTPServer :=
  let recvConnId := parser.header.connectionId + 1
  let (s',w) := s.create around recvConnId .incoming
  if s.contains recvConnId then (attempt sendReset w).map fun _ => s'
  else match Utp.handlePacket parser packet w with
    | .ok _ w' => some ((s'.insert recvConnId ⟨addr,w'⟩).accepted recvConnId)
    | .error .transmissionError _ => some (s'.remove recvConnId)
    | .error .undefined _ => none

def reset (s : UTPServer) (hdr : Header) : Option UTPServer :=
  match s.find hdr.connectionId with
  | none => some s
  | some c => (attempt Utp.reset c.world).map fun w => s.insert hdr.connectionId {c with world := w}

def deliver (s : UTPServer) (parser : PacketParser) (packet : Buffer) : Option UTPServer :=
  match s.find parser.header.connectionId with
  | none => some s
  | some c =>
      match Utp.handlePacket parser packet c.world with
      | .ok state w =>
          let s' := s.insert parser.header.connectionId {c with world := w}
          some (if state = .closed then s'.remove w.conn.stats.recvConnectionId else s')
      | .error .transmissionError w =>
          (attempt close w).map fun w' => s.insert parser.header.connectionId {c with world := w'}
      | .error .undefined _ => none

def handlePacket (around : UInt16 → Nat → Surroundings) (s : UTPServer) (packet : Buffer) (addr : Address) : Option UTPServer :=
  match parse packet.data with
  | .undefined => none
  | .rejected => some s
  | .accepted parser =>
      if parser.header.type = stData ∨ parser.header.type = stFin ∨ parser.header.type = stState then s.deliver parser packet
      else if parser.header.type = stReset then s.reset parser.header
      else if parser.header.type = stSyn then s.syn around parser packet addr
      else some s

-- Private::dataReceived discards packets which are too small.
def dataReceived (around : UInt16 → Nat → Surroundings) (s : UTPServer) (packet : Buffer) (addr : Address) : Option UTPServer :=
  if packet.data.length ≥ Header.size then s.handlePacket around packet addr else some s

-- connId is what the loop over qrand() ends with: a number that is free.
def connectTo (around : UInt16 → Nat → Surroundings) (s : UTPServer) (addr : Address) (connId : UInt16) : Option UTPServer :=
  if addr.port = 0 then some s
  else if s.contains connId then none
  else
    let (s',w) := s.create around connId .outgoing
    match startConnecting w with
    | .ok _ w' => some (s'.insert connId ⟨addr,w'⟩)
    | .error .transmissionError _ => some (s'.remove connId)
    | .error .undefined _ => none

def request (s : UTPServer) (connId : UInt16) (r : Request) : Option UTPServer :=
  match s.find connId with
  | none => some s
  | some c => (r.act c.world).map fun w => s.insert connId {c with world := w}

def checkTimeouts (s : UTPServer) (now : TimeValue) : Option UTPServer :=
  if s.connections.entries.all fun e => (finish (checkTimeout now) e.2.world).isSome then
    some {s with connections := s.connections.mapValues fun _ c => {c with world := (finish (checkTimeout now) c.world).getD c.world}}
  else none

def cleanup (s : UTPServer) : UTPServer :=
  {s with connections := ⟨s.connections.entries.filter fun e => e.2.world.conn.stats.state ≠ .closed,s.connections.sorted.filter _⟩}

end UTPServer

inductive ServerEvent where
  | dataReceived (packet : Buffer) (addr : Address)
  | connectTo (addr : Address) (connId : UInt16)
  | request (connId : UInt16) (r : Request)
  | checkTimeouts (now : TimeValue)
  | cleanup

def UTPServer.step (around : UInt16 → Nat → Surroundings) (s : UTPServer) : ServerEvent → Option UTPServer
  | .dataReceived packet addr => s.dataReceived around packet addr
  | .connectTo addr connId => s.connectTo around addr connId
  | .request connId r => s.request connId r
  | .checkTimeouts now => s.checkTimeouts now
  | .cleanup => some s.cleanup

end KtorrentStream.Utp
