import KtorrentStream.Lib.Effects
import KtorrentStream.Utp.LocalWindow
import KtorrentStream.Utp.PacketBuffer
set_option autoImplicit true

namespace KtorrentStream.Utp
open KtorrentStream.Util

structure TimeValue where
  seconds : UInt64
  microseconds : UInt64
  deriving DecidableEq

namespace TimeValue

def timestampMicroSeconds (tv : TimeValue) : UInt32 := (tv.seconds * 1000000 + tv.microseconds).toUInt32

def addMilliSeconds (tv : TimeValue) (ms : UInt32) : TimeValue :=
  let microseconds := tv.microseconds + (ms * 1000).toUInt64
  if microseconds > 1000000 then ⟨tv.seconds + microseconds / 1000000,microseconds % 1000000⟩
  else {tv with microseconds}

def toTimeStamp (tv : TimeValue) : UInt64 := tv.seconds * 1000 + tv.microseconds / 1000

-- The difference in milliseconds. The loop of the source moves whole seconds into
-- the microseconds and leaves this sum as it is.
def sub (a b : TimeValue) : Int :=
  (1000000 * ((a.seconds.toNat : Int) - b.seconds.toNat) + ((a.microseconds.toNat : Int) - b.microseconds.toNat)).tdiv 1000

def ge (a b : TimeValue) : Bool :=
  if a.seconds > b.seconds then true
  else if a.seconds = b.seconds then a.microseconds ≥ b.microseconds
  else false

end TimeValue

inductive ConnectionState where
  | idle
  | synSent
  | connected
  | finished
  | closed
  deriving DecidableEq

inductive ConnectionType where
  | incoming
  | outgoing
  deriving DecidableEq

def minPacketSize : UInt32 := 150
def ccontrolTarget : UInt32 := 100
def maxTimeout : UInt32 := 30000
def connectTimeout : UInt32 := 30000
def keepAliveTimeout : Int := 30000
def delayWindowSize : UInt64 := 2 * 60 * 1000
-- 1500 - IP_AND_UDP_OVERHEAD - sizeof(utp::Header)
def fullPacketSize : UInt32 := 1500 - 28 - 20

-- The delay samples of the last two minutes, smallest difference first.
structure DelayEntry where
  timestampDifference : UInt32
  receiveTime : UInt64
  deriving DecidableEq

-- boost::circular_buffer(100) drops its first element when it is full.
def pushBack (entries : List DelayEntry) (entry : DelayEntry) : List DelayEntry :=
  if entries.length < 100 then entries ++ [entry] else entries.tail ++ [entry]

def delayUpdate (entries : List DelayEntry) (hdr : Header) (receiveTime : UInt64) : List DelayEntry × UInt32 :=
  let difference := hdr.timestampDifferenceMicroseconds
  let recent := entries.dropWhile fun e => receiveTime - e.receiveTime > delayWindowSize
  let entry : DelayEntry := ⟨difference,receiveTime⟩
  match recent.head? with
  | none => ([entry],difference)
  | some first =>
      if difference < first.timestampDifference then ([entry],difference)
      else
        let kept := pushBack (recent.takeWhile fun e => e.timestampDifference < difference) entry
        (kept,(kept.head?.map DelayEntry.timestampDifference).getD difference)

structure UnackedPacket where
  packet : PacketBuffer
  seqNr : UInt16
  sendTime : UInt64
  retransmitted : Bool

structure RemoteWindow where
  curWindow : UInt32
  maxWindow : UInt32
  wndSize : UInt32
  unackedPackets : List UnackedPacket
  lastAckNr : UInt16
  lastAckReceiveCount : UInt32

namespace RemoteWindow

def new : RemoteWindow := ⟨0,64 * 1024,0,[],0,0⟩

def availableSpace (r : RemoteWindow) : UInt32 :=
  let m := min r.wndSize r.maxWindow
  if r.curWindow > m then 0 else m - r.curWindow

def allPacketsAcked (r : RemoteWindow) : Bool := r.unackedPackets.isEmpty

def addPacket (r : RemoteWindow) (packet : PacketBuffer) (seqNr : UInt16) (sendTime : UInt64) : RemoteWindow :=
  {r with
    curWindow := r.curWindow + UInt32.ofNat packet.payloadSize
    wndSize := r.wndSize - UInt32.ofNat packet.payloadSize
    unackedPackets := r.unackedPackets ++ [⟨packet,seqNr,sendTime,false⟩]}

-- (int)max_window + d is compared with a Uint32, so a negative sum counts as a
-- large one.
def updateWindowSize (r : RemoteWindow) (d : Int) : RemoteWindow :=
  let changed := r.maxWindow + UInt32.ofInt d
  {r with maxWindow := if changed < minPacketSize then minPacketSize else changed}

def clear (r : RemoteWindow) : RemoteWindow := {r with unackedPackets := []}

end RemoteWindow

-- The packets an acknowledgement takes off the list, and those it leaves.
def ackPackets (hdr : Header) (sack : Option SelectiveAck) : List UnackedPacket → List UnackedPacket × List UnackedPacket
  | [] => ([],[])
  | p :: rest =>
      if seqNrCmpSE p.seqNr hdr.ackNr then
        let (gone,left) := ackPackets hdr sack rest
        (p :: gone,left)
      else match sack with
        | none => ([],p :: rest)
        | some mask =>
            let (gone,left) := ackPackets hdr sack rest
            if acked mask (p.seqNr - hdr.ackNr) then (p :: gone,left) else (gone,p :: left)

-- A packet is lost if 3 packets have been acked after it. The argument is one more
-- than the bit that is looked at.
def lostFrom (sack : SelectiveAck) : Nat → Nat → UInt16
  | 0,_ => 0
  | i + 1,count =>
      if acked sack (UInt16.ofNat i) then
        if count + 1 = 3 then UInt16.ofNat i else lostFrom sack i (count + 1)
      else lostFrom sack i count

def lost (sack : SelectiveAck) : UInt16 := lostFrom sack (sack.length.toNat * 8) 0

structure Stats where
  type : ConnectionType
  state : ConnectionState
  sendConnectionId : UInt16
  recvConnectionId : UInt16
  replyMicro : UInt32
  seqNr : UInt16
  eofSeqNr : Int
  timeout : UInt32
  absoluteTimeout : TimeValue
  rtt : Int
  rttVar : Int
  packetSize : UInt32
  lastWindowSizeTransmitted : UInt32
  bytesReceived : UInt64
  bytesSent : UInt64
  packetsReceived : UInt32
  packetsSent : UInt32
  readable : Bool
  writeable : Bool

structure Connection where
  stats : Stats
  localWnd : LocalWindow
  remoteWnd : RemoteWindow
  outputBuffer : CircularBuffer
  delayWindow : List DelayEntry
  finSent : Bool
  lastPacketSent : TimeValue

namespace Connection

-- The constructor. It sets no state and no sequence number for an outgoing
-- connection: these are what was in memory until startConnecting.
def new (recvConnectionId : UInt16) (type : ConnectionType) (memory : ConnectionState × UInt16)
    (outputBuffer : CircularBuffer) (created : TimeValue) : Connection where
  stats := {
    type
    state := if type = .outgoing then memory.1 else .idle
    sendConnectionId := if type = .outgoing then recvConnectionId + 1 else recvConnectionId - 1
    recvConnectionId
    replyMicro := 0
    seqNr := if type = .outgoing then memory.2 else 5
    eofSeqNr := -1
    timeout := 1000
    absoluteTimeout := created
    rtt := 100
    rttVar := 0
    packetSize := fullPacketSize
    lastWindowSizeTransmitted := 128 * 1024
    bytesReceived := 0
    bytesSent := 0
    packetsReceived := 0
    packetsSent := 0
    readable := false
    writeable := false}
  localWnd := .new (128 * 1024)
  remoteWnd := .new
  outputBuffer
  delayWindow := []
  finSent := false
  lastPacketSent := created

def extensionLength (c : Connection) : UInt32 :=
  let sackBits := c.localWnd.selectiveAckBits
  if sackBits > 0 then 2 + min (sackBits / 8) 4 else 0

def selectiveAck (c : Connection) : Option SelectiveAck :=
  if c.extensionLength > 0 then
    let length := (c.extensionLength - 2).toUInt8
    some (c.localWnd.fillSelectiveAck ⟨0,length,List.replicate length.toNat 0,List.length_replicate⟩)
  else none

-- The selective ack as it is written behind the header: the id of the next
-- extension, the number of mask bytes, the mask.
def extensionBytes (c : Connection) : List UInt8 :=
  match c.selectiveAck with
  | none => []
  | some sack => sack.extension :: sack.length :: sack.bitmask

def header (c : Connection) (type : Fin 16) (seqNr ackNr : UInt16) (now : TimeValue) : Header where
  version := 1
  type
  extension := if c.extensionLength = 0 then 0 else selectiveAckId
  connectionId := if type = stSyn then c.stats.recvConnectionId else c.stats.sendConnectionId
  timestampMicroseconds := now.timestampMicroSeconds
  timestampDifferenceMicroseconds := c.stats.replyMicro
  wndSize := c.localWnd.windowSpace
  seqNr
  ackNr

def updateRTT (c : Connection) (packetRtt : UInt32) (packetSize : UInt32) : Connection :=
  let rtt := packetRtt.toInt32.toInt
  let delta := c.stats.rtt - rtt
  let rttVar := c.stats.rttVar + (delta.natAbs - c.stats.rttVar).tdiv 4
  let smoothed := c.stats.rtt + (rtt - c.stats.rtt).tdiv 8
  {c with stats := {c.stats with
    rttVar
    rtt := smoothed
    timeout := UInt32.ofInt (max (smoothed + rttVar * 4) 500)
    bytesSent := c.stats.bytesSent + packetSize.toUInt64}}

end Connection

-- A packet the transmitter did not take, with the number the next packet of the
-- stream had at the time, and the remote window when a packet of the stream had been
-- added to it, with the window size that the other side had announced last.
structure Refusal where
  seqNr : UInt16
  datagram : List UInt8

structure Flight where
  window : RemoteWindow
  advertised : UInt32

-- A connection with what it sees of the world: the clock, which is asked again and
-- again and may say anything, and the transmitter, which may refuse a packet. gain
-- stands for the floating point product
-- qRound(500 * (off_target / 100) * max(cur_window / max_window, 1)).
-- The history is what has been transmitted and what was refused, the payloads that
-- became packets of the stream and how each of them went into flight, the bytes that
-- send took, the packets that the local window stored, the bytes that read handed
-- out, the window size that came last from the other side, and the connection as it
-- was whenever checkIfClosed closed it.
structure World where
  conn : Connection
  clock : Nat → TimeValue
  ticks : Nat
  accepts : Nat → Bool
  attempts : Nat
  gain : Int → UInt32 → UInt32 → Int
  sent : List (List UInt8)
  refused : List Refusal
  segments : List (List UInt8)
  flights : List Flight
  advertised : UInt32
  accepted : List UInt8
  arrived : List (UInt16 × List UInt8)
  delivered : List UInt8
  closings : List Connection

inductive Fault where
  | transmissionError
  | undefined
  deriving DecidableEq

abbrev Act := EStateM Fault World

def timeNow : Act TimeValue := do
  let w ← get
  set {w with ticks := w.ticks + 1}
  return w.clock w.ticks

def modifyConn (f : Connection → Connection) : Act Unit := modify fun w => {w with conn := f w.conn}

def modifyStats (f : Stats → Stats) : Act Unit := modifyConn fun c => {c with stats := f c.stats}

def modifyRemote (f : RemoteWindow → RemoteWindow) : Act Unit := modifyConn fun c => {c with remoteWnd := f c.remoteWnd}

def setState (state : ConnectionState) : Act Unit := modifyStats fun s => {s with state}

def getConn : Act Connection := do return (← get).conn

-- if (!transmitter->sendTo(...)) throw TransmissionError
def transmit (datagram : List UInt8) : Act Unit := do
  let w ← get
  if w.accepts w.attempts then set {w with attempts := w.attempts + 1,sent := w.sent ++ [datagram]}
  else
    set {w with attempts := w.attempts + 1,refused := w.refused ++ [Refusal.mk w.conn.stats.seqNr datagram]}
    throw .transmissionError

def startTimer : Act Unit := do
  let now ← timeNow
  modifyStats fun s => {s with absoluteTimeout := now.addMilliSeconds s.timeout}

-- The result of setHeader is not looked at here; there is always room.
def sendPacket (type : Fin 16) (ackNr : UInt16) : Act Unit := do
  let c ← getConn
  let tv ← timeNow
  modifyStats fun s => {s with lastWindowSizeTransmitted := c.localWnd.windowSpace}
  match PacketBuffer.new.setHeader (c.header type c.stats.seqNr ackNr tv) c.extensionLength with
  | .done packet => transmit (packet.writeExtension c.extensionBytes).data
  | _ => throw .undefined
  modifyConn fun c => {c with lastPacketSent := tv,stats := {c.stats with packetsSent := c.stats.packetsSent + 1}}
  startTimer

def sendState : Act Unit := do sendPacket stState (← getConn).localWnd.lastSeqNr
def sendFIN : Act Unit := do sendPacket stFin (← getConn).localWnd.lastSeqNr
def sendReset : Act Unit := do sendPacket stReset (← getConn).localWnd.lastSeqNr

def sendSYN : Act Unit := do
  modifyStats fun s => {s with seqNr := 1,state := .synSent,timeout := connectTimeout}
  sendPacket stSyn 0
  modifyStats fun s => {s with seqNr := s.seqNr + 1}

def startConnecting : Act Unit := do
  if (← getConn).stats.type = .outgoing then sendSYN

-- The packet comes back with the headers in it. After a failure it keeps the old
-- ones: nobody reads them before they are written again.
def sendDataPacket (packet : PacketBuffer) (seqNr : UInt16) (now : TimeValue) : Act PacketBuffer := do
  let c ← getConn
  modifyStats fun s => {s with lastWindowSizeTransmitted := c.localWnd.windowSpace}
  match packet.setHeader (c.header stData seqNr c.localWnd.lastSeqNr now) c.extensionLength with
  | .noRoom => throw .transmissionError
  | .undefined => throw .undefined
  | .done packet' =>
      let filled := packet'.writeExtension c.extensionBytes
      transmit filled.data
      modifyConn fun c => {c with lastPacketSent := now,stats := {c.stats with packetsSent := c.stats.packetsSent + 1}}
      return filled

def retransmit (packet : PacketBuffer) (seqNr : UInt16) : Act PacketBuffer := do
  let now ← timeNow
  let filled ← sendDataPacket packet seqNr now
  startTimer
  return filled

-- Chop output_buffer data in packets. Every round takes at least one byte.
def sendLoop : Nat → Act Unit
  | 0 => throw .undefined
  | fuel + 1 => do
      let c ← getConn
      if c.outputBuffer.bufSize > 0 ∧ c.remoteWnd.availableSpace > 0 then
        let toRead := min c.outputBuffer.bufSize c.remoteWnd.availableSpace.toNat
        let toRead := min toRead c.stats.packetSize.toNat
        let toRead := min toRead (maxSize - c.extensionLength.toNat - Header.size)
        if toRead = 0 then return
        let (packet,outputBuffer) := PacketBuffer.new.fillData c.outputBuffer toRead
        modifyConn fun c => {c with outputBuffer}
        let now ← timeNow
        let filled ← sendDataPacket packet c.stats.seqNr now
        modify fun w => {w with segments := w.segments ++ [filled.payloadBytes]}
        modifyConn fun c => {c with
          remoteWnd := c.remoteWnd.addPacket filled c.stats.seqNr now.toTimeStamp
          stats := {c.stats with seqNr := c.stats.seqNr + 1}}
        modify fun w => {w with flights := w.flights ++ [Flight.mk w.conn.remoteWnd w.advertised]}
        sendLoop fuel

def sendPackets : Act Unit := do
  sendLoop ((← getConn).outputBuffer.bufSize + 1)
  let c ← getConn
  if c.stats.state = .finished ∧ ¬ c.finSent ∧ c.outputBuffer.bufSize = 0 then
    sendFIN
    modifyConn fun c => {c with finSent := true}
  else startTimer

def sendStateOrData : Act Unit := do
  let c ← getConn
  if c.outputBuffer.bufSize > 0 ∧ c.remoteWnd.availableSpace > 0 then sendPackets
  else sendState

def lostCondition (now : UInt64) (p : UnackedPacket) : Act Bool := do
  return !p.retransmitted || now - p.sendTime > (← getConn).stats.timeout.toUInt64

-- try { retransmit ... } catch (TransmissionError) {}
def retransmitLost (now : UInt64) (p : UnackedPacket) : Act UnackedPacket :=
  tryCatch
    (do
      let packet ← retransmit p.packet p.seqNr
      return {p with packet,sendTime := now,retransmitted := true})
    fun
      | .transmissionError => return p
      | .undefined => throw .undefined

def lostLoop (ackNr lostIndex : UInt16) (now : UInt64) : List UnackedPacket → Act (List UnackedPacket × Bool)
  | [] => return ([],false)
  | p :: rest => do
      if p.seqNr - ackNr < lostIndex ∧ (← lostCondition now p) then
        let p' ← retransmitLost now p
        let (rest',_) ← lostLoop ackNr lostIndex now rest
        return (p' :: rest',true)
      else
        let (rest',lost) ← lostLoop ackNr lostIndex now rest
        return (p :: rest',lost)

-- first_unacked.seq_nr == hdr->ack_nr + 1 compares ints: the sum does not wrap.
def firstLost (hdr : Header) (now : UInt64) (count : UInt32) :
    List UnackedPacket → Act (List UnackedPacket × List UnackedPacket × Bool)
  | [] => return ([],[],false)
  | p :: rest => do
      if count ≥ 3 ∧ p.seqNr.toNat = hdr.ackNr.toNat + 1 then
        if ← lostCondition now p then return ([← retransmitLost now p],rest,true)
        else return ([p],rest,false)
      else return ([],p :: rest,false)

def checkLostPackets (hdr : Header) (sack : Option SelectiveAck) : Act Unit := do
  let now := (← timeNow).toTimeStamp
  let r := (← getConn).remoteWnd
  let (first,rest,lostFirst) ← firstLost hdr now r.lastAckReceiveCount r.unackedPackets
  let (rest',lostRest) ← match sack with
    | none => pure (rest,false)
    | some mask => if lost mask > 0 then lostLoop hdr.ackNr (lost mask) now rest else pure (rest,false)
  modifyRemote fun r => {r with
    unackedPackets := first ++ rest'
    maxWindow := if lostFirst || lostRest then UInt32.ofNat ((78 * r.maxWindow.toNat + 50) / 100) else r.maxWindow}

def remotePacketReceived (hdr : Header) (sack : Option SelectiveAck) : Act Unit := do
  modify fun w => {w with advertised := hdr.wndSize}
  modifyRemote fun r =>
    let r' := if hdr.ackNr = r.lastAckNr then
        if hdr.type = stState then {r with lastAckReceiveCount := r.lastAckReceiveCount + 1} else r
      else {r with lastAckNr := hdr.ackNr,lastAckReceiveCount := 1}
    {r' with wndSize := hdr.wndSize}
  let now := (← timeNow).toTimeStamp
  modifyConn fun c =>
    let (gone,left) := ackPackets hdr sack c.remoteWnd.unackedPackets
    let c' := gone.foldl (fun c p => c.updateRTT (now - p.sendTime).toUInt32 (UInt32.ofNat p.packet.payloadSize)) c
    {c' with remoteWnd := {c.remoteWnd with
      curWindow := gone.foldl (fun cur p => cur - UInt32.ofNat p.packet.payloadSize) c.remoteWnd.curWindow
      unackedPackets := left}}
  if (← getConn).remoteWnd.unackedPackets.isEmpty then return
  checkLostPackets hdr sack

-- A TransmissionError ends the loop over the packets.
def timeoutLoop (now : UInt64) : List UnackedPacket → Act (List UnackedPacket)
  | [] => return []
  | p :: rest => do
      if ← lostCondition now p then
        let sent ← tryCatch
          (do
            let packet ← retransmit p.packet p.seqNr
            return some {p with packet,sendTime := (← timeNow).toTimeStamp,retransmitted := true})
          fun
            | .transmissionError => return none
            | .undefined => throw .undefined
        match sent with
        | none => return p :: rest
        | some p' => return p' :: (← timeoutLoop now rest)
      else return p :: (← timeoutLoop now rest)

def remoteTimeout : Act Unit := do
  modifyRemote fun r => {r with maxWindow := minPacketSize}
  let now := (← timeNow).toTimeStamp
  let unackedPackets ← timeoutLoop now (← getConn).remoteWnd.unackedPackets
  modifyRemote fun r => {r with unackedPackets}

def updateDelayMeasurement (hdr : Header) : Act Unit := do
  let now ← timeNow
  let tms := now.timestampMicroSeconds
  modify fun w =>
    let c := w.conn
    let replyMicro := if tms > hdr.timestampMicroseconds then tms - hdr.timestampMicroseconds
      else hdr.timestampDifferenceMicroseconds - tms
    let updated := delayUpdate c.delayWindow hdr now.toTimeStamp
    let ourDelay := hdr.timestampDifferenceMicroseconds / 1000 - updated.2
    let offTarget := (ccontrolTarget - ourDelay).toInt32.toInt
    let remoteWnd := c.remoteWnd.updateWindowSize (w.gain offTarget c.remoteWnd.curWindow c.remoteWnd.maxWindow)
    let packetSize :=
      if remoteWnd.maxWindow ≤ minPacketSize then minPacketSize
      else if remoteWnd.maxWindow ≤ 1000 then 500
      else if remoteWnd.maxWindow ≤ 5000 then 1000
      else fullPacketSize
    {w with conn := {c with delayWindow := updated.1,remoteWnd,stats := {c.stats with replyMicro,packetSize}}}

def checkIfClosed : Act Unit := do
  let c ← getConn
  if c.stats.state = .finished ∧ c.remoteWnd.allPacketsAcked ∧ c.localWnd.isEmpty then
    modify fun w => {w with closings := w.closings ++ [c]}
    setState .closed

def checkState : Act Unit :=
  modifyConn fun c => {c with stats := {c.stats with
    readable := c.localWnd.isReadable || c.stats.state == .closed
    writeable := c.remoteWnd.availableSpace > 0 && c.stats.state == .connected}}

-- local_wnd->packetReceived, which answers whether there was space.
def localPacketReceived (hdr : Header) (packet : Buffer) (dataOff : UInt32) : Act Bool := do
  match (← getConn).localWnd.packetReceived hdr.seqNr packet dataOff with
  | none => throw .undefined
  | some (localWnd,outcome) =>
      modify fun w => {w with
        arrived := if outcome = .stored then w.arrived ++ [(hdr.seqNr,packet.data.drop dataOff.toNat)] else w.arrived
        conn := {w.conn with localWnd}}
      return outcome ≠ .noSpace

def sendResetAndClose : Act Unit := do
  sendReset
  setState .closed

def handleConnected (hdr : Header) (packet : Buffer) (dataOff : UInt32) : Act Unit := do
  if hdr.type = stData then
    if ← localPacketReceived hdr packet dataOff then sendStateOrData else sendResetAndClose
  else if hdr.type = stState then sendPackets
  else if hdr.type = stFin then
    modifyStats fun s => {s with eofSeqNr := hdr.seqNr.toNat,state := .finished}
    sendPackets
    checkIfClosed
  else sendResetAndClose

-- The answer to a data packet in the finished state.
def finishedReply : Act Unit := do
  sendStateOrData
  let c ← getConn
  if c.stats.state = .finished ∧ ¬ c.finSent ∧ c.outputBuffer.bufSize = 0 then
    sendFIN
    modifyConn fun c => {c with finSent := true}
    checkIfClosed
  else checkIfClosed

def handleFinished (hdr : Header) (packet : Buffer) (dataOff : UInt32) : Act Unit := do
  if hdr.type = stData then
    -- eof_seq_nr is an int that is passed as a Uint16
    if seqNrCmpSE hdr.seqNr (UInt16.ofInt (← getConn).stats.eofSeqNr) then
      if ← localPacketReceived hdr packet dataOff then finishedReply else sendResetAndClose
    else finishedReply
  else if hdr.type = stState then
    sendPackets
    checkIfClosed
  else if hdr.type = stFin then
    modifyStats fun s => {s with eofSeqNr := hdr.seqNr.toNat}
    sendPackets
    checkIfClosed
  else sendResetAndClose

def handleSynSent (hdr : Header) : Act Unit := do
  if hdr.type = stState then
    modifyConn fun c => {c with
      localWnd := c.localWnd.setLastSeqNr (hdr.seqNr - 1)
      stats := {c.stats with state := .connected,timeout := 1000}}
  else sendResetAndClose

def handleIdle (hdr : Header) : Act Unit := do
  if hdr.type = stSyn then
    modifyConn fun c => {c with localWnd := c.localWnd.setLastSeqNr hdr.seqNr}
    sendState
    modifyStats fun s => {s with state := .connected,timeout := 1000}
  else sendResetAndClose

def handleByState (hdr : Header) (packet : Buffer) (dataOff : UInt32) : ConnectionState → Act Unit
  | .synSent => handleSynSent hdr
  | .idle => handleIdle hdr
  | .connected => handleConnected hdr packet dataOff
  | .finished => handleFinished hdr packet dataOff
  | .closed => pure ()

def handlePacket (parser : PacketParser) (packet : Buffer) : Act ConnectionState := do
  modifyStats fun s => {s with packetsReceived := s.packetsReceived + 1}
  updateDelayMeasurement parser.header
  remotePacketReceived parser.header parser.selectiveAck
  handleByState parser.header packet (UInt32.ofNat parser.dataOffset) (← getConn).stats.state
  checkState
  startTimer
  return (← getConn).stats.state

-- -1 is none.
def send (data : List UInt8) : Act (Option Nat) := do
  if (← getConn).stats.state ≠ .connected then return none
  let (outputBuffer,ret) := (← getConn).outputBuffer.write data
  modify fun w => {w with accepted := w.accepted ++ data.take ret,conn := {w.conn with outputBuffer}}
  sendPackets
  modifyConn fun c => {c with stats := {c.stats with writeable := !c.outputBuffer.full}}
  return some ret

def recvRead (maxLen : UInt32) : Act (Option (List UInt8)) := do
  let c ← getConn
  if c.localWnd.bytesAvailable = 0 ∧ c.stats.state = .closed then return none
  match c.localWnd.read maxLen with
  | none => throw .undefined
  | some (localWnd,bytes) =>
      modify fun w => {w with delivered := w.delivered ++ bytes,conn := {w.conn with localWnd}}
      if c.stats.lastWindowSizeTransmitted < 2000 ∧ localWnd.windowSpace > 2000 then sendState
      modifyStats fun s => {s with bytesReceived := s.bytesReceived + UInt64.ofNat bytes.length}
      modifyConn fun c => {c with stats := {c.stats with readable := c.localWnd.isReadable}}
      return some bytes

def recv (maxLen : UInt32) : Act (Option (List UInt8)) := do
  if (← getConn).stats.state = .finished then
    checkIfClosed
    recvRead maxLen
  else recvRead maxLen

def close : Act Unit := do
  if (← getConn).stats.state = .connected then
    setState .finished
    sendPackets

def reset : Act Unit := do
  if (← getConn).stats.state ≠ .closed then
    sendReset
    setState .closed
    modifyRemote RemoteWindow.clear

def timeoutConnected : Act Unit := do
  remoteTimeout
  modifyStats fun s => {s with packetSize := minPacketSize,timeout := s.timeout * 2}
  if (← getConn).stats.timeout ≥ maxTimeout then
    setState .finished
    sendReset
  else
    sendPackets
    if (← timeNow).sub (← getConn).lastPacketSent > keepAliveTimeout then sendState

def timeoutByState : ConnectionState → Act Unit
  | .synSent => setState .closed
  | .finished => setState .closed
  | .connected => timeoutConnected
  | .idle => startTimer
  | .closed => pure ()

def handleTimeout : Act Unit := do
  timeoutByState (← getConn).stats.state
  checkState

def checkTimeout (now : TimeValue) : Act Unit := do
  if now.ge (← getConn).stats.absoluteTimeout then handleTimeout

-- A quiet world to look at single runs in: the clock stands still, every packet is
-- taken, and the gain is the exact product, rounded once.
def exactGain (offTarget : Int) (curWindow maxWindow : UInt32) : Int :=
  if curWindow ≤ maxWindow then 5 * offTarget
  else (10 * offTarget * curWindow.toNat + maxWindow.toNat) / (2 * maxWindow.toNat)

def World.calm (conn : Connection) : World where
  conn
  clock := fun _ => ⟨0,0⟩
  ticks := 0
  accepts := fun _ => true
  attempts := 0
  gain := exactGain
  sent := []
  refused := []
  segments := []
  flights := []
  advertised := 0
  accepted := []
  arrived := []
  delivered := []
  closings := []

def Connection.incoming (recvConnectionId : UInt16) : Connection :=
  .new recvConnectionId .incoming (.idle,0) (.new (List.replicate (64 * 1024) 0) (by rw [List.length_replicate]; decide)
    (by rw [List.length_replicate]; decide)) ⟨0,0⟩

end KtorrentStream.Utp
