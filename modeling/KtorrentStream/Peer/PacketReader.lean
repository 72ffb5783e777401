import KtorrentStream.Lib.Framing
import KtorrentStream.Util.Bytes
import KtorrentStream.Util.Word
set_option autoImplicit true

namespace KtorrentStream.Peer
open KtorrentStream.Util KtorrentStream.Lib

-- data holds the bytes that have been read; the rest of the array of size bytes is not written yet.
structure IncomingPacket where
  data : List UInt8
  size : Nat

def IncomingPacket.read (pck : IncomingPacket) : Nat := pck.data.length

-- Of len only the first lenReceived bytes are ever used.
structure PacketReader where
  error : Bool
  packetQueue : List IncomingPacket
  len : List UInt8
  lenReceived : Int
  maxPacketSize : Nat

namespace PacketReader

def new (maxPacketSize : Nat) : PacketReader := ⟨false,[],[],-1,maxPacketSize⟩

def int32 (n : Nat) : Int := if n < 2147483648 then n else n - 4294967296

-- memcpy into the last packet of the queue. None: past the end of its array.
def fillLast (r : PacketReader) (bytes : List UInt8) : Option PacketReader :=
  match r.packetQueue.getLast? with
  | none => none
  | some pck =>
    if pck.read + bytes.length ≤ pck.size then
      some {r with packetQueue := r.packetQueue.dropLast ++ [⟨pck.data ++ bytes,pck.size⟩]}
    else none

def readPacket (r : PacketReader) (buf : List UInt8) : Option (PacketReader × Nat) :=
  if buf.length = 0 then some (r,0)
  else match r.packetQueue.getLast? with
    | none => none
    | some pck =>
      if uint32 (pck.read + buf.length) ≥ pck.size then
        -- we can read the full packet
        let tr := uint32Sub pck.size pck.read
        (r.fillLast (buf.take tr)).map (·,tr)
      else
        -- we can do a partial read
        (r.fillLast buf).map (·,buf.length)

def beginPacket (r : PacketReader) (buf : List UInt8) (packetLength amOfLenRead : Nat) : Option (PacketReader × Nat) :=
  if packetLength = 0 then some (r,amOfLenRead)
  else if packetLength > r.maxPacketSize then some ({r with error := true},buf.length)
  else
    let r : PacketReader := {r with packetQueue := r.packetQueue ++ [⟨[],packetLength⟩]}
    (r.readPacket (buf.drop amOfLenRead)).map fun (r,read) => (r,amOfLenRead + read)

-- None: a memcpy past the end of len, which has four bytes.
def newPacket (r : PacketReader) (buf : List UInt8) : Option (PacketReader × Nat) :=
  if r.lenReceived > 0 then
    if int32 buf.length < 4 - r.lenReceived then
      if r.lenReceived + buf.length ≤ 4 then
        some ({r with
          len := r.len.take r.lenReceived.toNat ++ buf,
          lenReceived := r.lenReceived + int32 buf.length},buf.length)
      else none
    else
      let amOfLenRead := (4 - r.lenReceived).toNat
      let len := r.len.take r.lenReceived.toNat ++ buf.take amOfLenRead
      beginPacket {r with len := len,lenReceived := 0} buf (readUint32 len 0) amOfLenRead
  else if buf.length < 4 then
    some ({r with len := buf,lenReceived := buf.length},buf.length)
  else r.beginPacket buf (readUint32 buf 0) 4

-- while (ret < size && !error) ret += newPacket(buf + ret, size - ret);
-- newPacket takes at least one byte, so size rounds are enough.
def newPackets (rounds : Nat) (r : PacketReader) (buf : List UInt8) : Option PacketReader :=
  if buf = [] ∨ r.error then some r
  else match rounds with
    | 0 => none
    | rounds + 1 => do
      let (r,ret) ← r.newPacket buf
      newPackets rounds r (buf.drop ret)

def onDataReady (r : PacketReader) (buf : List UInt8) : Option PacketReader :=
  if r.error then some r
  else match r.packetQueue.getLast? with
    | none => newPackets buf.length r buf
    | some pck => do
      let (r,ret) ← if pck.read = pck.size then r.newPacket buf else r.readPacket buf
      newPackets buf.length r (buf.drop ret)

-- The packets that dequeuePacket gives until it gives none, and the queue after it.
def dequeuePackets : List IncomingPacket → List (List UInt8) × List IncomingPacket
  | [] => ([],[])
  | pck :: rest =>
    if pck.read = pck.size then ((pck.data :: (dequeuePackets rest).1),(dequeuePackets rest).2)
    else ([],pck :: rest)

def update (r : PacketReader) : PacketReader × List (List UInt8) :=
  if r.error then (r,[])
  else ({r with packetQueue := (dequeuePackets r.packetQueue).2},(dequeuePackets r.packetQueue).1)

end PacketReader

inductive Event
  | onDataReady (buf : List UInt8)
  | update

structure Reading where
  reader : PacketReader
  handled : List (List UInt8)

def Reading.step (s : Reading) : Event → Option Reading
  | .onDataReady buf => (s.reader.onDataReady buf).map fun reader => {s with reader := reader}
  | .update => some ⟨s.reader.update.1,s.handled ++ s.reader.update.2⟩

def Reading.run (s : Reading) : List Event → Option Reading
  | [] => some s
  | event :: rest => (s.step event).bind fun s => s.run rest

def Event.bytes : Event → List UInt8
  | .onDataReady buf => buf
  | .update => []

def stream (events : List Event) : List UInt8 := events.flatMap Event.bytes

-- The framing of the protocol: four bytes of length, the high byte first.
def framing (maxPacketSize : Nat) : Framing UInt8 where
  width := 4
  positive := four_bytes
  lengthOf := (readUint32 · 0)
  limit := maxPacketSize

end KtorrentStream.Peer
