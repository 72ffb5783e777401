import KtorrentStream.Download.Packet
import Mathlib.Logic.Function.Basic
set_option autoImplicit true

namespace KtorrentStream.Net
open Util Download

-- RC4 comes from libgcrypt; without encryption the bytes stay as they are.
structure Cipher (σ : Type) where
  encrypt : σ → List UInt8 → σ × List UInt8
  encrypt_length : ∀ enc data, (encrypt enc data).2.length = data.length

namespace Cipher

def after (cipher : Cipher σ) (enc : σ) : List (List UInt8) → σ
  | [] => enc
  | data :: rest => cipher.after (cipher.encrypt enc data).1 rest

def encryptAll (cipher : Cipher σ) (enc : σ) : List (List UInt8) → List UInt8
  | [] => []
  | data :: rest => (cipher.encrypt enc data).2 ++ cipher.encryptAll (cipher.encrypt enc data).1 rest

end Cipher

-- A Packet::Ptr with the bytes it was added with. Those it has now, and how many
-- of them are written, are kept by the socket.
structure Queued where
  id : Nat
  packet : Packet

def Queued.isData (p : Queued) : Bool := p.packet.type == 7

namespace PacketSocket

-- rejects is the piece that a reject answers.
inductive Event
  | added (p : Queued) (rejects : Option Nat)
  | selected (p : Queued)
  | accepted (bytes : List UInt8)
  | sent (p : Queued)
  | dropped (p : Queued) (reject : Bool)

end PacketSocket

structure PacketSocket (σ : Type) where
  data : Nat → List UInt8
  written : Nat → Nat
  controlPackets : List Queued
  dataPackets : List Queued
  currPacket : Option Queued
  ctrlPacketsSent : Nat
  uploadedDataBytes : Nat
  enc : σ
  count : Nat
  log : List PacketSocket.Event

namespace PacketSocket

def create (enc : σ) : PacketSocket σ := ⟨fun _ => [],fun _ => 0,[],[],none,0,0,enc,0,[]⟩

def addPacket (packet : Packet) (rejects : Option Nat) (s : PacketSocket σ) : PacketSocket σ :=
  let p : Queued := ⟨s.count,packet⟩
  {s with
    data := Function.update s.data s.count packet.data,
    written := Function.update s.written s.count 0,
    controlPackets := if p.isData then s.controlPackets else s.controlPackets ++ [p],
    dataPackets := if p.isData then s.dataPackets ++ [p] else s.dataPackets,
    count := s.count + 1,
    log := s.log ++ [.added p rejects]}

def preProcess (cipher : Cipher σ) (p : Queued) (s : PacketSocket σ) : PacketSocket σ :=
  let (enc,data) := cipher.encrypt s.enc (s.data p.id)
  {s with data := Function.update s.data p.id data,enc := enc,log := s.log ++ [.selected p]}

def nextPacket (s : PacketSocket σ) : Option Queued × Nat :=
  if s.ctrlPacketsSent < 3 then
    match s.controlPackets with
    | p :: _ => (some p,s.ctrlPacketsSent)
    | [] => (s.dataPackets.head?,s.ctrlPacketsSent)
  else
    match s.dataPackets with
    | p :: _ => (some p,0)
    | [] => (s.controlPackets.head?,s.ctrlPacketsSent)

def selectPacket (cipher : Cipher σ) (s : PacketSocket σ) : PacketSocket σ :=
  match s.nextPacket with
  | (none,count) => {s with currPacket := none,ctrlPacketsSent := count}
  | (some p,count) => {s.preProcess cipher p with currPacket := some p,ctrlPacketsSent := count}

-- Packet::send, when the device would take accept bytes. What it takes is an int.
def send (p : Queued) (maxToSend accept : Nat) (s : PacketSocket σ) : Nat × PacketSocket σ :=
  let bw := p.packet.size - s.written p.id
  let bw := if maxToSend < bw ∧ 0 < maxToSend then maxToSend else bw
  let ret := min accept (min bw 2147483647)
  (ret,{s with
    written := Function.update s.written p.id (s.written p.id + ret),
    log := s.log ++ [.accepted (((s.data p.id).drop (s.written p.id)).take ret)]})

def popFront (p : Queued) (s : PacketSocket σ) : PacketSocket σ :=
  if p.isData then {s with dataPackets := s.dataPackets.tail,ctrlPacketsSent := 0,log := s.log ++ [.sent p]}
  else {s with controlPackets := s.controlPackets.tail,ctrlPacketsSent := uint32 (s.ctrlPacketsSent + 1),log := s.log ++ [.sent p]}

def onData (p : Queued) (ret : Nat) (s : PacketSocket σ) : PacketSocket σ :=
  if p.isData then {s with uploadedDataBytes := uint32 (s.uploadedDataBytes + ret)} else s

-- accepts is what the device takes, send after send.
def writeLoop (cipher : Cipher σ) (max : Nat) : List Nat → Nat → PacketSocket σ → Nat × PacketSocket σ
  | [],written,s => (written,s)
  | accept :: accepts,written,s =>
    match s.currPacket with
    | none => (written,s)
    | some p =>
      if written < max ∨ max = 0 then
        let (ret,s) := s.send p (if max = 0 then 0 else max - written) accept
        if 0 < ret then
          let s := s.onData p ret
          if s.written p.id = p.packet.size then
            writeLoop cipher max accepts (written + ret) ((s.popFront p).selectPacket cipher)
          else (written + ret,s)
        else (written,s)
      else (written,s)

-- connecting: the socket is in CONNECTING and connectSuccesFull is false.
def write (cipher : Cipher σ) (connecting : Bool) (max : Nat) (accepts : List Nat) (s : PacketSocket σ) : Nat × PacketSocket σ :=
  if connecting then (0,s)
  else
    match s.currPacket with
    | some _ => writeLoop cipher max accepts 0 s
    | none => writeLoop cipher max accepts 0 (s.selectPacket cipher)

-- Packet::isPiece reads the bytes as they are now.
def isPiece (s : PacketSocket σ) (p : Queued) (req : Request) : Bool :=
  (s.data p.id).getD 4 0 == 7 && readUint32 (s.data p.id) 5 == req.index && readUint32 (s.data p.id) 9 == req.off &&
    uint32Sub p.packet.size 13 == req.len

-- none is the null pointer.
def makeRejectOfPiece (s : PacketSocket σ) (p : Queued) : Option Packet :=
  if p.isData then
    Packet.ofRequest ⟨readUint32 (s.data p.id) 5,readUint32 (s.data p.id) 9,uint32Sub p.packet.size 13,none⟩ 16
  else none

def queueReject (p : Queued) (reject : Bool) (s : PacketSocket σ) : Option (PacketSocket σ) :=
  if reject then
    match s.makeRejectOfPiece p with
    | some r => some (s.addPacket r (some p.id))
    | none => none
  else some s

def untouched (s : PacketSocket σ) (p : Queued) : Bool := s.written p.id == 0 && s.currPacket.map Queued.id != some p.id

-- No two packets have one number, so this takes one node out of the list.
def erase (p : Queued) (reject : Bool) (s : PacketSocket σ) : PacketSocket σ :=
  {s with dataPackets := s.dataPackets.filter fun q => q.id != p.id,log := s.log ++ [.dropped p reject]}

def clearPiece (reject : Bool) (s : PacketSocket σ) (p : Queued) : Option (PacketSocket σ) :=
  if p.isData && s.untouched p then (s.queueReject p reject).map (erase p reject) else some s

def skipPiece (req : Request) (reject : Bool) (s : PacketSocket σ) (p : Queued) : Option (PacketSocket σ) :=
  if s.isPiece p req && s.untouched p then (s.erase p reject).queueReject p reject else some s

-- The rejects that are added while the loops run go to the other queue.
def clearPieces (reject : Bool) (s : PacketSocket σ) : Option (PacketSocket σ) := s.dataPackets.foldlM (clearPiece reject) s

def doNotSendPiece (req : Request) (reject : Bool) (s : PacketSocket σ) : Option (PacketSocket σ) :=
  s.dataPackets.foldlM (skipPiece req reject) s

inductive Call
  | addPacket (packet : Packet)
  | write (connecting : Bool) (max : Nat) (accepts : List Nat)
  | doNotSendPiece (req : Request) (reject : Bool)
  | clearPieces (reject : Bool)

def call (cipher : Cipher σ) (s : PacketSocket σ) : Call → Option (PacketSocket σ)
  | .addPacket packet => some (s.addPacket packet none)
  | .write connecting max accepts => some (s.write cipher connecting max accepts).2
  | .doNotSendPiece req reject => s.doNotSendPiece req reject
  | .clearPieces reject => s.clearPieces reject

def run (cipher : Cipher σ) (calls : List Call) (s : PacketSocket σ) : Option (PacketSocket σ) :=
  calls.foldlM (PacketSocket.call cipher) s

@[simp] def Event.addition : Event → Option Queued
  | .added p _ => some p
  | _ => none

@[simp] def Event.selection : Event → Option Queued
  | .selected p => some p
  | _ => none

@[simp] def Event.sending : Event → Option Queued
  | .sent p => some p
  | _ => none

@[simp] def Event.drop : Event → Option (Queued × Bool)
  | .dropped p reject => some (p,reject)
  | _ => none

@[simp] def Event.rejection : Event → Option (Packet × Nat)
  | .added p (some id) => some (p.packet,id)
  | _ => none

@[simp] def Event.bytes : Event → List UInt8
  | .accepted bytes => bytes
  | _ => []

def added (log : List Event) : List Queued := log.filterMap Event.addition

def selected (log : List Event) : List Queued := log.filterMap Event.selection

def sent (log : List Event) : List Queued := log.filterMap Event.sending

def dropped (log : List Event) : List (Queued × Bool) := log.filterMap Event.drop

def rejects (log : List Event) : List (Packet × Nat) := log.filterMap Event.rejection

def wire (log : List Event) : List UInt8 := log.flatMap Event.bytes

@[simp] def Event.count (n : Nat) : Event → Nat
  | .sent p => if p.isData then 0 else n + 1
  | _ => n

def controlSince (log : List Event) : Nat := log.foldl Event.count 0

def Waits (log : List Event) (p : Queued) : Prop := p ∈ added log ∧ p ∉ sent log

end PacketSocket

-- A piece is only made by the constructor for pieces.
def Sendable (packet : Packet) : Prop :=
  Constructed packet ∧ (packet.type = 7 → ∃ index begin_ len memory, Packet.ofPiece index begin_ len memory = some packet)

def RejectOf (reject piece : Packet) : Prop :=
  ∀ index begin_ len memory, Packet.ofPiece index begin_ len memory = some piece →
    Packet.ofRequest ⟨index,begin_,len,none⟩ 16 = some reject

namespace PacketSocket

-- The device took the packets that were sent and a part of the selected one.
structure Whole (cipher : Cipher σ) (start : σ) (log : List Event) : Prop where
  sent_in : cipher.encryptAll start ((sent log).map (·.packet.data)) <+: wire log
  in_selected : wire log <+: cipher.encryptAll start ((selected log).map (·.packet.data))
  selected_order : ∃ current : Option Queued, selected log = sent log ++ current.toList
  once : (selected log).Nodup

-- Packets of a kind leave in the order in which they were added.
structure InOrder (s : PacketSocket σ) : Prop where
  once : (added s.log).Nodup
  control : (sent s.log).filter (fun p => !p.isData) ++ s.controlPackets = (added s.log).filter fun p => !p.isData
  pieces : (sent s.log).filter (fun p => p.isData) ++ s.dataPackets =
    (added s.log).filter fun p => p.isData && !((dropped s.log).map (·.1.id)).contains p.id

-- Only pieces that are not selected are dropped, with one reject each if asked.
structure Rejected (log : List Event) : Prop where
  pieces : ∀ d ∈ dropped log, d.1.isData = true ∧ d.1 ∈ added log ∧ d.1 ∉ selected log
  once : ((dropped log).map (·.1.id)).Nodup
  answered : (rejects log).map (·.2) = ((dropped log).filter (·.2)).map (·.1.id)
  answers : ∀ r ∈ rejects log, ∀ d ∈ dropped log, d.1.id = r.2 → RejectOf r.1 d.1.packet

-- A piece is selected while a control packet waits only behind three of them.
def Fair (log : List Event) : Prop :=
  ∀ before p behind, log = before ++ .selected p :: behind → p.isData = true →
    (∃ q, Waits before q ∧ q.isData = false) → 3 ≤ controlSince before

structure Intact (cipher : Cipher σ) (start : σ) (s : PacketSocket σ) : Prop where
  whole : Whole cipher start s.log
  inOrder : InOrder s
  rejected : Rejected s.log
  fair : Fair s.log

end PacketSocket

end KtorrentStream.Net
