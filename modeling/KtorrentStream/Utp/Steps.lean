import KtorrentStream.Utp.Connection
set_option autoImplicit true

namespace KtorrentStream.Utp
open KtorrentStream.Lib KtorrentStream.Util

-- What any of the functions of a connection can do, as a few kinds of steps. A
-- function that throws has taken some of its steps, so invariants of the steps are
-- invariants of the connection whatever the transmitter does.
structure Input where
  parser : PacketParser
  packet : Buffer

inductive Cause where
  | packet (input : Input)
  | send (data : List UInt8)
  | recv (maxLen : UInt32)
  | reset
  | other

def Input.dataOff (input : Input) : UInt32 := UInt32.ofNat input.parser.dataOffset

-- Nothing changes but the clock and what is kept for measuring.
structure Same (w w' : World) : Prop where
  recvConnectionId : w'.conn.stats.recvConnectionId = w.conn.stats.recvConnectionId
  state : w'.conn.stats.state = w.conn.stats.state
  seqNr : w'.conn.stats.seqNr = w.conn.stats.seqNr
  eofSeqNr : w'.conn.stats.eofSeqNr = w.conn.stats.eofSeqNr
  packetSize : w'.conn.stats.packetSize = w.conn.stats.packetSize ∨ w'.conn.stats.packetSize ≤ fullPacketSize
  localWnd : w'.conn.localWnd = w.conn.localWnd
  outputBuffer : w'.conn.outputBuffer = w.conn.outputBuffer
  curWindow : w'.conn.remoteWnd.curWindow = w.conn.remoteWnd.curWindow
  wndSize : w'.conn.remoteWnd.wndSize = w.conn.remoteWnd.wndSize
  unackedPackets : w'.conn.remoteWnd.unackedPackets = w.conn.remoteWnd.unackedPackets
  segments : w'.segments = w.segments
  flights : w'.flights = w.flights
  advertised : w'.advertised = w.advertised
  refused : w.refused <+: w'.refused
  accepted : w'.accepted = w.accepted
  arrived : w'.arrived = w.arrived
  delivered : w'.delivered = w.delivered
  closings : w'.closings = w.closings
  accepts : w'.accepts = w.accepts

-- The parts of a world that stay the same; the packet size and the refusals have
-- rules of their own.
def World.compared (w : World) :=
  (w.conn.stats.recvConnectionId,w.conn.stats.state,w.conn.stats.seqNr,w.conn.stats.eofSeqNr,w.conn.localWnd,w.conn.outputBuffer,
    w.conn.remoteWnd.curWindow,w.conn.remoteWnd.wndSize,w.conn.remoteWnd.unackedPackets,w.segments,w.flights,w.advertised,w.accepted,
    w.arrived,w.delivered,w.closings,w.accepts)

theorem Same.of_compared (same : w'.compared = w.compared)
    (packetSize : w'.conn.stats.packetSize = w.conn.stats.packetSize ∨ w'.conn.stats.packetSize ≤ fullPacketSize)
    (refused : w.refused <+: w'.refused) : Same w w' := by
  simp only [World.compared,Prod.mk.injEq] at same
  obtain ⟨recvConnectionId,state,seqNr,eofSeqNr,localWnd,outputBuffer,curWindow,wndSize,unackedPackets,segments,flights,advertised,
    accepted,arrived,delivered,closings,accepts⟩ := same
  exact ⟨recvConnectionId,state,seqNr,eofSeqNr,packetSize,localWnd,outputBuffer,curWindow,wndSize,unackedPackets,segments,flights,
    advertised,refused,accepted,arrived,delivered,closings,accepts⟩

theorem Same.unchanged (same : w'.compared = w.compared) (packetSize : w'.conn.stats.packetSize = w.conn.stats.packetSize)
    (refused : w'.refused = w.refused) : Same w w' :=
  .of_compared same (.inl packetSize) (refused ▸ List.prefix_refl _)

theorem Same.refl (w : World) : Same w w := .unchanged rfl rfl rfl

theorem Same.trans (ab : Same a b) (bc : Same b c) : Same a c where
  recvConnectionId := bc.recvConnectionId.trans ab.recvConnectionId
  state := bc.state.trans ab.state
  seqNr := bc.seqNr.trans ab.seqNr
  eofSeqNr := bc.eofSeqNr.trans ab.eofSeqNr
  packetSize := by
    obtain same | small := bc.packetSize
    · exact same ▸ ab.packetSize
    · exact .inr small
  localWnd := bc.localWnd.trans ab.localWnd
  outputBuffer := bc.outputBuffer.trans ab.outputBuffer
  curWindow := bc.curWindow.trans ab.curWindow
  wndSize := bc.wndSize.trans ab.wndSize
  unackedPackets := bc.unackedPackets.trans ab.unackedPackets
  segments := bc.segments.trans ab.segments
  flights := bc.flights.trans ab.flights
  advertised := bc.advertised.trans ab.advertised
  refused := ab.refused.trans bc.refused
  accepted := bc.accepted.trans ab.accepted
  arrived := bc.arrived.trans ab.arrived
  delivered := bc.delivered.trans ab.delivered
  closings := bc.closings.trans ab.closings
  accepts := bc.accepts.trans ab.accepts

-- A packet with room for headers in front of its payload.
def PacketBuffer.Roomy (p : PacketBuffer) : Prop := ∃ off, p.payload = some off ∧ 26 ≤ off

structure SamePacket (p p' : UnackedPacket) : Prop where
  seqNr : p'.seqNr = p.seqNr
  roomy : p.packet.Roomy → p'.packet.Roomy
  payloadBytes : p.packet.Roomy → p'.packet.payloadBytes = p.packet.payloadBytes
  payloadSize : p.packet.Roomy → p'.packet.payloadSize = p.packet.payloadSize

theorem SamePacket.refl (p : UnackedPacket) : SamePacket p p := ⟨rfl,id,fun _ => rfl,fun _ => rfl⟩

def Connection.datagram (c : Connection) (type : Fin 16) (seqNr ackNr : UInt16) (now : TimeValue) (payload : List UInt8) :
    List UInt8 :=
  (c.header type seqNr ackNr now).write ++ c.extensionBytes ++ payload

def ConnectionState.rank : ConnectionState → Nat
  | .idle => 0
  | .synSent => 0
  | .connected => 1
  | .finished => 2
  | .closed => 3

def RemoteWindow.withPacket (r : RemoteWindow) (p : UnackedPacket) : RemoteWindow :=
  {r with
    curWindow := r.curWindow + UInt32.ofNat p.packet.payloadSize
    wndSize := r.wndSize - UInt32.ofNat p.packet.payloadSize
    unackedPackets := r.unackedPackets ++ [p]}

def World.inFlight (w : World) (p : UnackedPacket) (outputBuffer : CircularBuffer) : World :=
  {w with
    segments := w.segments ++ [p.packet.payloadBytes]
    flights := w.flights ++ [⟨w.conn.remoteWnd.withPacket p,w.advertised⟩]
    conn := {w.conn with
      outputBuffer
      remoteWnd := w.conn.remoteWnd.withPacket p
      stats := {w.conn.stats with seqNr := w.conn.stats.seqNr + 1}}}

-- The world after the window size and the acks of a packet have been taken in.
def World.withAcks (w : World) (parser : PacketParser) : World :=
  {w with
    advertised := parser.header.wndSize
    conn := {w.conn with remoteWnd := {w.conn.remoteWnd with
      wndSize := parser.header.wndSize
      curWindow := (ackPackets parser.header parser.selectiveAck w.conn.remoteWnd.unackedPackets).1.foldl
        (fun cur p => cur - UInt32.ofNat p.packet.payloadSize) w.conn.remoteWnd.curWindow
      unackedPackets := (ackPackets parser.header parser.selectiveAck w.conn.remoteWnd.unackedPackets).2}}}

inductive Step (cause : Cause) : World → World → Prop where
  | quiet (same : Same w w') (sent : w'.sent = w.sent) : Step cause w w'
  | control (type : Fin 16) (ackNr : UInt16) (now : TimeValue) (other : type ≠ stData)
      (current : ackNr = w.conn.localWnd.lastSeqNr) (same : Same w w')
      (sent : w'.sent = w.sent ++ [w.conn.datagram type w.conn.stats.seqNr ackNr now []]) : Step cause w w'
  | resent (p : UnackedPacket) (now : TimeValue) (unacked : p ∈ w.conn.remoteWnd.unackedPackets) (same : Same w w')
      (sent : w'.sent = w.sent ++ [bytes])
      (shape : p.packet.Roomy →
        bytes = w.conn.datagram stData p.seqNr w.conn.localWnd.lastSeqNr now p.packet.payloadBytes) : Step cause w w'
  | refreshed (packets : List UnackedPacket) (alike : List.Forall₂ SamePacket w.conn.remoteWnd.unackedPackets packets)
      (maxWindow : UInt32) :
      Step cause w {w with conn := {w.conn with remoteWnd := {w.conn.remoteWnd with unackedPackets := packets,maxWindow}}}
  -- a packet of the stream: transmitted for the first time and remembered
  | fresh (p : UnackedPacket) (now : TimeValue) (count : Nat) (outputBuffer : CircularBuffer)
      (some_bytes : 0 < count) (present : count ≤ w.conn.outputBuffer.bufSize)
      (allowed : count ≤ w.conn.remoteWnd.availableSpace.toNat) (short : count ≤ w.conn.stats.packetSize.toNat)
      (payload : p.packet.payload = some (maxSize - count)) (room : count + Header.size ≤ maxSize)
      (content : p.packet.payloadBytes = w.conn.outputBuffer.contents.take count) (number : p.seqNr = w.conn.stats.seqNr)
      (rest : outputBuffer.contents = w.conn.outputBuffer.contents.drop count)
      (same : Same (w.inFlight p outputBuffer) w')
      (sent : w'.sent = w.sent ++
        [w.conn.datagram stData p.seqNr w.conn.localWnd.lastSeqNr now p.packet.payloadBytes]) : Step cause w w'
  -- the bytes of a packet that could not be transmitted are gone
  | spilled (count : Nat) (outputBuffer : CircularBuffer) (refused : w.accepts n = false)
      (rest : outputBuffer.contents = w.conn.outputBuffer.contents.drop count)
      (same : Same {w with conn := {w.conn with outputBuffer}} w') (sent : w'.sent = w.sent)
      (logged : ⟨w.conn.stats.seqNr,w.conn.datagram stData w.conn.stats.seqNr ackNr now payload⟩ ∈ w'.refused) : Step cause w w'
  | buffered (data : List UInt8) (asked : cause = .send data) (state : w.conn.stats.state = .connected) :
      Step cause w {w with
        accepted := w.accepted ++ data.take (w.conn.outputBuffer.write data).2
        conn := {w.conn with outputBuffer := (w.conn.outputBuffer.write data).1}}
  | acked (i : Input) (handled : cause = .packet i) (same : Same (w.withAcks i.parser) w') (sent : w'.sent = w.sent) : Step cause w w'
  | received (i : Input) (localWnd : LocalWindow) (outcome : Received) (handled : cause = .packet i) (data : i.parser.header.type = stData)
      (state : w.conn.stats.state = .connected ∨ w.conn.stats.state = .finished)
      (result : w.conn.localWnd.packetReceived i.parser.header.seqNr i.packet i.dataOff = some (localWnd,outcome)) :
      Step cause w {w with
        arrived := if outcome = .stored then w.arrived ++ [(i.parser.header.seqNr,i.packet.data.drop i.dataOff.toNat)]
          else w.arrived
        conn := {w.conn with localWnd}}
  | read (maxLen : UInt32) (localWnd : LocalWindow) (bytes : List UInt8) (asked : cause = .recv maxLen) (result : w.conn.localWnd.read maxLen = some (localWnd,bytes)) :
      Step cause w {w with delivered := w.delivered ++ bytes,conn := {w.conn with localWnd}}
  | handshake (nr : UInt16) (state : w.conn.stats.state = .synSent ∨ w.conn.stats.state = .idle) :
      Step cause w {w with conn := {w.conn with localWnd := w.conn.localWnd.setLastSeqNr nr}}
  | forward (state : ConnectionState) (later : w.conn.stats.state.rank ≤ state.rank) :
      Step cause w {w with conn := {w.conn with stats := {w.conn.stats with state}}}
  | fin (i : Input) (handled : cause = .packet i) (isFin : i.parser.header.type = stFin)
      (state : w.conn.stats.state = .connected ∨ w.conn.stats.state = .finished) :
      Step cause w {w with conn := {w.conn with stats := {w.conn.stats with
        eofSeqNr := i.parser.header.seqNr.toNat
        state := .finished}}}
  | drained (state : w.conn.stats.state = .finished) (acked : w.conn.remoteWnd.allPacketsAcked)
      (empty : w.conn.localWnd.isEmpty) :
      Step cause w {w with
        closings := w.closings ++ [w.conn]
        conn := {w.conn with stats := {w.conn.stats with state := .closed}}}
  | cleared (asked : cause = .reset) (state : w.conn.stats.state = .closed) :
      Step cause w {w with conn := {w.conn with remoteWnd := w.conn.remoteWnd.clear}}

def Steps (cause : Cause) : World → World → Prop := Relation.ReflTransGen (Step cause)

theorem Steps.refl (w : World) : Steps cause w w := Relation.ReflTransGen.refl

theorem Steps.trans (ab : Steps cause a b) (bc : Steps cause b c) : Steps cause a c := Relation.ReflTransGen.trans ab bc

theorem Steps.one (step : Step cause w w') : Steps cause w w' := Relation.ReflTransGen.single step

theorem Steps.quiet (same : Same w w') (sent : w'.sent = w.sent) : Steps cause w w' := .one (.quiet same sent)

theorem Steps.kept {f : World → α} (each : ∀ {w w'}, Step cause w w' → f w' = f w) (steps : Steps cause w w') : f w' = f w := by
  induction steps with
  | refl => rfl
  | tail _ step ih => exact (each step).trans ih

-- Sending leaves the state of the connection and the local window alone.
structure Sending (cause : Cause) (w w' : World) : Prop where
  steps : Steps cause w w'
  state : w'.conn.stats.state = w.conn.stats.state
  eofSeqNr : w'.conn.stats.eofSeqNr = w.conn.stats.eofSeqNr
  localWnd : w'.conn.localWnd = w.conn.localWnd
  accepted : w'.accepted = w.accepted
  delivered : w'.delivered = w.delivered
  accepts : w'.accepts = w.accepts

theorem Sending.refl (w : World) : Sending cause w w := ⟨.refl w,rfl,rfl,rfl,rfl,rfl,rfl⟩

theorem Sending.trans (ab : Sending cause a b) (bc : Sending cause b c) : Sending cause a c where
  steps := ab.steps.trans bc.steps
  state := bc.state.trans ab.state
  eofSeqNr := bc.eofSeqNr.trans ab.eofSeqNr
  localWnd := bc.localWnd.trans ab.localWnd
  accepted := bc.accepted.trans ab.accepted
  delivered := bc.delivered.trans ab.delivered
  accepts := bc.accepts.trans ab.accepts

-- Control packets and retransmissions leave everything alone.
structure Resending (cause : Cause) (w w' : World) : Prop where
  steps : Steps cause w w'
  same : Same w w'

theorem Resending.refl (w : World) : Resending cause w w := ⟨.refl w,.refl w⟩

theorem Resending.trans (ab : Resending cause a b) (bc : Resending cause b c) : Resending cause a c :=
  ⟨ab.steps.trans bc.steps,ab.same.trans bc.same⟩

theorem Resending.sending (moved : Resending cause w w') : Sending cause w w' :=
  ⟨moved.steps,moved.same.state,moved.same.eofSeqNr,moved.same.localWnd,moved.same.accepted,moved.same.delivered,
    moved.same.accepts⟩

theorem Resending.quiet (same : Same w w') (sent : w'.sent = w.sent) : Resending cause w w' := ⟨.quiet same sent,same⟩

theorem timeNow_moves (cause : Cause) : Moves (Resending cause) timeNow := by
  intro w
  exact .quiet (.unchanged rfl rfl rfl) rfl

theorem startTimer_moves (cause : Cause) : Moves (Resending cause) startTimer := by
  refine Moves.bind Resending.trans (timeNow_moves cause) ?_
  intro now w
  exact .quiet (.unchanged rfl rfl rfl) rfl

theorem transmit_spec (datagram : List UInt8) (w : World) :
    wp (transmit datagram) (fun _ w' => w' = {w with attempts := w.attempts + 1,sent := w.sent ++ [datagram]})
      (fun e w' => e = .transmissionError ∧ w.accepts w.attempts = false ∧
        w' = {w with attempts := w.attempts + 1,refused := w.refused ++ [⟨w.conn.stats.seqNr,datagram⟩]}) w := by
  simp only [transmit,wp_bind,wp_get]
  split
  · rfl
  · rename_i refused
    exact ⟨rfl,by simpa using refused,rfl⟩

theorem min_toNat (a b : UInt32) : (min a b).toNat = min a.toNat b.toNat := by
  show (if a ≤ b then a else b).toNat = _
  simp only [UInt32.le_iff_toNat_le]
  split <;> omega

theorem extensionLength_le (c : Connection) : c.extensionLength.toNat ≤ 6 := by
  rw [Connection.extensionLength]
  split
  · rw [UInt32.toNat_add]
    have values : (2 : UInt32).toNat = 2 ∧ (4 : UInt32).toNat = 4 := ⟨rfl,rfl⟩
    rw [min_toNat]
    omega
  · decide

-- The mask bytes of a selective ack: extension_length - 2 of them.
theorem maskLength (c : Connection) (some_bits : c.extensionLength > 0) :
    (c.extensionLength - 2).toUInt8.toNat + 2 = c.extensionLength.toNat := by
  have bound := extensionLength_le c
  have least : 2 ≤ c.extensionLength := by
    rw [Connection.extensionLength] at some_bits ⊢
    split at some_bits
    · rename_i bits
      rw [if_pos bits,UInt32.le_iff_toNat_le,UInt32.toNat_add]
      have values : (2 : UInt32).toNat = 2 ∧ (4 : UInt32).toNat = 4 := ⟨rfl,rfl⟩
      rw [min_toNat]
      omega
    · cases some_bits
  have two : (2 : UInt32).toNat = 2 := rfl
  have least' := UInt32.le_iff_toNat_le.mp least
  rw [UInt32.toNat_toUInt8,UInt32.toNat_sub_of_le _ _ least]
  omega

theorem selectiveAck_cases (c : Connection) :
    (c.extensionLength = 0 ∧ c.selectiveAck = none) ∨
    ∃ sack, c.selectiveAck = some sack ∧ c.extensionLength ≠ 0 ∧ sack.extension = 0 ∧
      sack.length.toNat + 2 = c.extensionLength.toNat := by
  rw [Connection.selectiveAck]
  split
  · rename_i some_bits
    refine .inr ⟨_,rfl,?_,(fillSelectiveAck_shape _ _).2,?_⟩
    · intro zero
      rw [zero] at some_bits
      cases some_bits
    · rw [(fillSelectiveAck_shape _ _).1]
      exact maskLength c some_bits
  · rename_i none
    exact .inl ⟨UInt32.le_zero_iff.mp (UInt32.not_lt.mp none),rfl⟩

theorem extensionBytes_length (c : Connection) : c.extensionBytes.length = c.extensionLength.toNat := by
  rw [Connection.extensionBytes]
  obtain ⟨zero,none⟩ | ⟨sack,some,_,_,length⟩ := selectiveAck_cases c
  · rw [none,zero]
    rfl
  · rw [some]
    simp only [List.length_cons,sack.sized]
    omega

theorem parse_datagram (c : Connection) (type : Fin 16) (seqNr ackNr : UInt16) (now : TimeValue) (payload : List UInt8) :
    parse (c.datagram type seqNr ackNr now payload) =
      .accepted ⟨c.header type seqNr ackNr now,c.selectiveAck,20 + c.extensionLength.toNat⟩ := by
  rw [Connection.datagram,Connection.extensionBytes]
  obtain ⟨zero,none⟩ | ⟨sack,some,nonzero,single,length⟩ := selectiveAck_cases c
  · rw [none,zero,List.append_nil]
    exact parse_plain _ _ (if_pos zero)
  · rw [some,List.append_assoc,← length]
    rw [show 20 + (sack.length.toNat + 2) = 22 + sack.length.toNat by omega]
    exact parse_selectiveAck _ sack payload (if_neg nonzero) single

theorem datagram_payload (c : Connection) (type : Fin 16) (seqNr ackNr : UInt16) (now : TimeValue) (payload : List UInt8) :
    (c.datagram type seqNr ackNr now payload).drop (20 + c.extensionLength.toNat) = payload := by
  rw [Connection.datagram]
  apply List.drop_left'
  rw [List.length_append,Header.write_length,extensionBytes_length]

theorem sendPacket_spec (type : Fin 16) (ackNr : UInt16) (w : World) :
    wp (sendPacket type ackNr)
      (fun _ w' => Same w w' ∧ ∃ now, w'.sent = w.sent ++ [w.conn.datagram type w.conn.stats.seqNr ackNr now []])
      (fun e w' => e = .transmissionError ∧ w.accepts w.attempts = false ∧ Same w w' ∧ w'.sent = w.sent) w := by
  obtain ⟨packet,set_up,data⟩ := PacketBuffer.new.setHeader_control
    (w.conn.header type w.conn.stats.seqNr ackNr (w.clock w.ticks)) w.conn.extensionLength w.conn.extensionBytes rfl
    (extensionLength_le _) (extensionBytes_length _)
  simp only [sendPacket,getConn,timeNow,modifyStats,modifyConn,wp_bind,wp_get,wp_set,wp_pure,wp_modify,set_up]
  refine wp_mono (transmit_spec _ _) ?_ ?_
  · rintro _ w' rfl
    simp only [startTimer,timeNow,modifyStats,modifyConn,wp_bind,wp_get,wp_set,wp_pure,wp_modify]
    refine ⟨.unchanged rfl rfl rfl,w.clock w.ticks,?_⟩
    rw [data,Connection.datagram,List.append_nil]
  · rintro e w' ⟨rfl,refused,rfl⟩
    exact ⟨rfl,refused,.of_compared rfl (.inl rfl) (List.prefix_append _ _),rfl⟩

-- A data packet with enough room is transmitted with its payload, and only the
-- transmitter can make it fail.
theorem sendDataPacket_spec (packet : PacketBuffer) (seqNr : UInt16) (now : TimeValue) (w : World)
    (payload : packet.payload = some off) (room : Header.size + w.conn.extensionLength.toNat ≤ off) :
    wp (sendDataPacket packet seqNr now)
      (fun filled w' => Same w w' ∧
        w'.sent = w.sent ++ [w.conn.datagram stData seqNr w.conn.localWnd.lastSeqNr now packet.payloadBytes] ∧
        filled.payload = some off ∧ filled.payloadBytes = packet.payloadBytes ∧ w'.conn.remoteWnd = w.conn.remoteWnd)
      (fun e w' => e = .transmissionError ∧ w.accepts w.attempts = false ∧ Same w w' ∧ w'.sent = w.sent ∧
        w'.refused = w.refused ++
          [⟨w.conn.stats.seqNr,w.conn.datagram stData seqNr w.conn.localWnd.lastSeqNr now packet.payloadBytes⟩]) w := by
  obtain ⟨packet',set_up,data,payload',bytes⟩ := packet.setHeader_data
    (w.conn.header stData seqNr w.conn.localWnd.lastSeqNr now) w.conn.extensionLength w.conn.extensionBytes payload
    (extensionLength_le _) (extensionBytes_length _) room
  simp only [sendDataPacket,getConn,modifyStats,modifyConn,wp_bind,wp_get,wp_pure,wp_modify,set_up]
  refine wp_mono (transmit_spec _ _) ?_ ?_
  · rintro _ w' rfl
    refine ⟨.unchanged rfl rfl rfl,?_,payload',bytes,rfl⟩
    rw [data,Connection.datagram]
  · rintro e w' ⟨rfl,refused,rfl⟩
    refine ⟨rfl,refused,.of_compared rfl (.inl rfl) (List.prefix_append _ _),rfl,?_⟩
    rw [data,Connection.datagram]

-- Whatever the packet, sendDataPacket transmits at most one datagram.
theorem sendDataPacket_any (packet : PacketBuffer) (seqNr : UInt16) (now : TimeValue) (w : World) :
    wp (sendDataPacket packet seqNr now) (fun _ w' => Same w w' ∧ ∃ bytes, w'.sent = w.sent ++ [bytes])
      (fun _ w' => Same w w' ∧ w'.sent = w.sent) w := by
  simp only [sendDataPacket,getConn,modifyStats,modifyConn,wp_bind,wp_get,wp_pure,wp_modify]
  split
  · exact ⟨.unchanged rfl rfl rfl,rfl⟩
  · exact ⟨.unchanged rfl rfl rfl,rfl⟩
  · simp only [wp_bind,wp_modify,wp_pure]
    refine wp_mono (transmit_spec _ _) ?_ ?_
    · rintro _ w' rfl
      exact ⟨.unchanged rfl rfl rfl,_,rfl⟩
    · rintro _ w' ⟨_,_,rfl⟩
      exact ⟨.of_compared rfl (.inl rfl) (List.prefix_append _ _),rfl⟩

theorem retransmit_spec (cause : Cause) (p : UnackedPacket) (w : World) (unacked : p ∈ w.conn.remoteWnd.unackedPackets) :
    wp (retransmit p.packet p.seqNr)
      (fun filled w' => Resending cause w w' ∧
        ∀ sendTime retransmitted, SamePacket p {p with packet := filled,sendTime,retransmitted})
      (fun _ w' => Resending cause w w') w := by
  rw [retransmit,wp_bind]
  refine wp_mono (timeNow_moves cause w) ?_ (fun _ _ moved => moved)
  intro now w₁ before
  have unacked₁ : p ∈ w₁.conn.remoteWnd.unackedPackets := before.same.unackedPackets ▸ unacked
  rw [wp_bind]
  have finish : ∀ filled w₂, Resending cause w w₂ → (∀ sendTime retransmitted, SamePacket p {p with packet := filled,sendTime,retransmitted}) →
      wp (do startTimer; return filled) (fun filled w' => Resending cause w w' ∧
        ∀ sendTime retransmitted, SamePacket p {p with packet := filled,sendTime,retransmitted})
        (fun _ w' => Resending cause w w') w₂ := by
    intro filled w₂ moved same
    rw [wp_bind]
    refine wp_mono (startTimer_moves cause w₂) ?_ (fun _ _ timed => moved.trans timed)
    exact fun _ w₃ timed => ⟨moved.trans timed,same⟩
  by_cases roomy : p.packet.Roomy
  · have ⟨off,payload,room⟩ := roomy
    have short := extensionLength_le w₁.conn
    refine wp_mono (sendDataPacket_spec p.packet p.seqNr now w₁ payload (by simp only [Header.size]; omega)) ?_ ?_
    · rintro filled w₂ ⟨same,sent,payload',bytes,_⟩
      refine finish filled w₂ (before.trans ⟨.one (.resent p now unacked₁ same sent fun _ => rfl),same⟩) ?_
      intro sendTime retransmitted
      refine ⟨rfl,fun _ => ⟨off,payload',room⟩,fun _ => bytes,fun _ => ?_⟩
      simp only [PacketBuffer.payloadSize,payload,payload']
    · rintro _ w₂ ⟨_,_,same,sent,_⟩
      exact before.trans (.quiet same sent)
  · refine wp_mono (sendDataPacket_any p.packet p.seqNr now w₁) ?_ ?_
    · rintro filled w₂ ⟨same,bytes,sent⟩
      refine finish filled w₂ (before.trans ⟨.one (.resent p now unacked₁ same sent fun yes => absurd yes roomy),same⟩) ?_
      exact fun _ _ => ⟨rfl,fun yes => absurd yes roomy,fun yes => absurd yes roomy,fun yes => absurd yes roomy⟩
    · rintro _ w₂ ⟨same,sent⟩
      exact before.trans (.quiet same sent)

theorem retransmitLost_spec (cause : Cause) (p : UnackedPacket) (w : World) (unacked : p ∈ w.conn.remoteWnd.unackedPackets) :
    wp (retransmitLost now p) (fun p' w' => Resending cause w w' ∧ SamePacket p p')
      (fun _ w' => Resending cause w w') w := by
  rw [retransmitLost,wp_tryCatch,wp_bind]
  refine wp_mono (retransmit_spec cause p w unacked) ?_ ?_
  · rintro filled w' ⟨moved,same⟩
    exact ⟨moved,same now true⟩
  · intro e w' moved
    cases e with
    | transmissionError => exact ⟨moved,.refl p⟩
    | undefined => exact moved

theorem lostCondition_spec (now : UInt64) (p : UnackedPacket) (w : World) {Q : Bool → World → Prop}
    (either : ∀ b, Q b w) : wp (lostCondition now p) Q E w := either _

theorem lostLoop_spec (packets : List UnackedPacket) (w : World)
    (unacked : ∀ p ∈ packets, p ∈ w.conn.remoteWnd.unackedPackets) :
    wp (lostLoop ackNr lostIndex now packets)
      (fun result w' => Resending cause w w' ∧ List.Forall₂ SamePacket packets result.1)
      (fun _ w' => Resending cause w w') w := by
  induction packets generalizing w with
  | nil => exact ⟨.refl w,.nil⟩
  | cons p rest ih =>
      rw [lostLoop,wp_bind]
      refine lostCondition_spec now p w ?_
      intro lost
      have others : ∀ p' w', Resending cause w w' → SamePacket p p' →
          wp (lostLoop ackNr lostIndex now rest)
            (fun result w'' => Resending cause w w'' ∧ List.Forall₂ SamePacket (p :: rest) (p' :: result.1))
            (fun _ w'' => Resending cause w w'') w' := by
        intro p' w' moved same
        refine wp_mono (ih w' ?_) ?_ ?_
        · intro q member
          rw [moved.same.unackedPackets]
          exact unacked q (List.mem_cons_of_mem _ member)
        · exact fun result w'' ⟨moved',same'⟩ => ⟨moved.trans moved',.cons same same'⟩
        · exact fun _ w'' moved' => moved.trans moved'
      split
      · rw [wp_bind]
        refine wp_mono (retransmitLost_spec cause p w (unacked p List.mem_cons_self)) ?_ (fun _ _ moved => moved)
        rintro p' w' ⟨moved,same⟩
        rw [wp_bind]
        exact wp_mono (others p' w' moved same) (fun _ _ done => done) (fun _ _ done => done)
      · rw [wp_bind]
        exact wp_mono (others p w (.refl w) (.refl p)) (fun _ _ done => done) (fun _ _ done => done)

theorem firstLost_spec (packets : List UnackedPacket) (w : World)
    (unacked : ∀ p ∈ packets, p ∈ w.conn.remoteWnd.unackedPackets) :
    wp (firstLost hdr now count packets)
      (fun result w' => Resending cause w w' ∧
        ∃ front, packets = front ++ result.2.1 ∧ List.Forall₂ SamePacket front result.1)
      (fun _ w' => Resending cause w w') w := by
  cases packets with
  | nil => exact ⟨.refl w,[],rfl,.nil⟩
  | cons p rest =>
      rw [firstLost]
      split
      · rw [wp_bind]
        refine lostCondition_spec now p w ?_
        intro lost
        split
        · rw [wp_bind]
          refine wp_mono (retransmitLost_spec cause p w (unacked p List.mem_cons_self)) ?_ (fun _ _ moved => moved)
          rintro p' w' ⟨moved,same⟩
          exact ⟨moved,[p],rfl,.cons same .nil⟩
        · exact ⟨.refl w,[p],rfl,.cons (.refl p) .nil⟩
      · exact ⟨.refl w,[],rfl,.nil⟩

theorem alike_refl (packets : List UnackedPacket) : List.Forall₂ SamePacket packets packets :=
  List.forall₂_same.mpr fun p _ => .refl p

theorem Resending.refreshed (moved : Resending cause w w')
    (alike : List.Forall₂ SamePacket w.conn.remoteWnd.unackedPackets packets) :
    Sending cause w {w' with conn := {w'.conn with remoteWnd := {w'.conn.remoteWnd with unackedPackets := packets,maxWindow}}} := by
  rw [← moved.same.unackedPackets] at alike
  exact moved.sending.trans ⟨.one (.refreshed packets alike maxWindow),rfl,rfl,rfl,rfl,rfl,rfl⟩

theorem checkLostPackets_moves : Moves (Sending cause) (checkLostPackets hdr sack) := by
  intro w
  rw [checkLostPackets,wp_bind]
  refine wp_mono (timeNow_moves cause w) ?_ (fun _ _ moved => moved.sending)
  intro now w₁ timed
  simp only [getConn,wp_bind,wp_get,wp_pure]
  have unacked : ∀ p ∈ w₁.conn.remoteWnd.unackedPackets, p ∈ w₁.conn.remoteWnd.unackedPackets := fun _ member => member
  refine wp_mono (firstLost_spec _ w₁ unacked) ?_ (fun _ _ moved => (timed.trans moved).sending)
  rintro ⟨first,rest,lostFirst⟩ w₂ ⟨moved,front,split_up,alike⟩
  have finish : ∀ rest' lostRest w₃, Resending cause w w₃ → List.Forall₂ SamePacket rest rest' →
      wp (modifyRemote fun r => {r with
        unackedPackets := first ++ rest'
        maxWindow := if lostFirst || lostRest then UInt32.ofNat ((78 * r.maxWindow.toNat + 50) / 100) else r.maxWindow})
      (fun _ w' => Sending cause w w') (fun _ w' => Sending cause w w') w₃ := by
    intro rest' lostRest w₃ moved' alike'
    refine moved'.refreshed ?_
    rw [← timed.same.unackedPackets,split_up]
    exact List.rel_append alike alike'
  have so_far := timed.trans moved
  cases sack with
  | none => exact finish rest false w₂ so_far (alike_refl rest)
  | some mask =>
      dsimp only
      split
      · rw [wp_bind]
        refine wp_mono (lostLoop_spec rest w₂ ?_) ?_ (fun _ _ moved' => (so_far.trans moved').sending)
        · intro p member
          rw [moved.same.unackedPackets,split_up]
          exact List.mem_append_right _ member
        · rintro ⟨rest',lostRest⟩ w₃ ⟨moved',alike'⟩
          exact finish rest' lostRest w₃ (so_far.trans moved') alike'
      · exact finish rest false w₂ so_far (alike_refl rest)

theorem updateRTT_foldl (times : UnackedPacket → UInt32) (gone : List UnackedPacket) (c : Connection) :
    ∃ rtt rttVar timeout bytesSent,
      gone.foldl (fun c p => c.updateRTT (times p) (UInt32.ofNat p.packet.payloadSize)) c =
        {c with stats := {c.stats with rtt,rttVar,timeout,bytesSent}} := by
  induction gone generalizing c with
  | nil => exact ⟨c.stats.rtt,c.stats.rttVar,c.stats.timeout,c.stats.bytesSent,rfl⟩
  | cons p gone ih =>
      obtain ⟨rtt,rttVar,timeout,bytesSent,folded⟩ := ih (c.updateRTT (times p) (UInt32.ofNat p.packet.payloadSize))
      refine ⟨rtt,rttVar,timeout,bytesSent,?_⟩
      rw [List.foldl_cons,folded]
      rfl

-- The counter of equal acknowledgements has nothing to do with the packets.
theorem counted_window (r : RemoteWindow) (b c : Prop) [Decidable b] [Decidable c] (ackNr : UInt16) (count : UInt32) :
    (if b then if c then {r with lastAckReceiveCount := count} else r
      else {r with lastAckNr := ackNr,lastAckReceiveCount := 1}).unackedPackets = r.unackedPackets ∧
    (if b then if c then {r with lastAckReceiveCount := count} else r
      else {r with lastAckNr := ackNr,lastAckReceiveCount := 1}).curWindow = r.curWindow := by
  split
  · split <;> exact ⟨rfl,rfl⟩
  · exact ⟨rfl,rfl⟩

theorem remotePacketReceived_moves (handled : cause = .packet i) :
    Moves (Sending cause) (remotePacketReceived i.parser.header i.parser.selectiveAck) := by
  intro w
  simp only [remotePacketReceived,modifyRemote,modifyConn,timeNow,getConn,wp_bind,wp_get,wp_set,wp_modify,wp_pure]
  -- the acknowledgement has been noted: one step, whatever the counter of equal
  -- acknowledgements says
  have noted : ∀ w', Same (w.withAcks i.parser) w' →
      w'.sent = w.sent → Sending cause w w' :=
    fun w' same sent => ⟨.one (.acked i handled same sent),same.state,same.eofSeqNr,same.localWnd,same.accepted,same.delivered,
      same.accepts⟩
  simp only [(counted_window _ _ _ _ _).1,(counted_window _ _ _ _ _).2]
  split
  · rw [wp_pure]
    obtain ⟨rtt,rttVar,timeout,bytesSent,folded⟩ := updateRTT_foldl
      (fun p => (TimeValue.toTimeStamp (w.clock w.ticks) - p.sendTime).toUInt32)
      (ackPackets i.parser.header i.parser.selectiveAck w.conn.remoteWnd.unackedPackets).1 _
    rw [folded]
    exact noted _ (.unchanged rfl rfl rfl) rfl
  · obtain ⟨rtt,rttVar,timeout,bytesSent,folded⟩ := updateRTT_foldl
      (fun p => (TimeValue.toTimeStamp (w.clock w.ticks) - p.sendTime).toUInt32)
      (ackPackets i.parser.header i.parser.selectiveAck w.conn.remoteWnd.unackedPackets).1 _
    rw [folded]
    exact checkLostPackets_moves.after Sending.trans (noted _ (.unchanged rfl rfl rfl) rfl)

theorem timeoutLoop_spec (cause : Cause) (packets : List UnackedPacket) (w : World)
    (unacked : ∀ p ∈ packets, p ∈ w.conn.remoteWnd.unackedPackets) :
    wp (timeoutLoop now packets) (fun packets' w' => Resending cause w w' ∧ List.Forall₂ SamePacket packets packets')
      (fun _ w' => Resending cause w w') w := by
  induction packets generalizing w with
  | nil => exact ⟨.refl w,.nil⟩
  | cons p rest ih =>
      have others : ∀ p' w', Resending cause w w' → SamePacket p p' →
          wp (do return p' :: (← timeoutLoop now rest))
            (fun packets' w'' => Resending cause w w'' ∧ List.Forall₂ SamePacket (p :: rest) packets')
            (fun _ w'' => Resending cause w w'') w' := by
        intro p' w' moved same
        rw [wp_bind]
        refine wp_mono (ih w' ?_) ?_ ?_
        · intro q member
          rw [moved.same.unackedPackets]
          exact unacked q (List.mem_cons_of_mem _ member)
        · exact fun result w'' ⟨moved',same'⟩ => ⟨moved.trans moved',.cons same same'⟩
        · exact fun _ w'' moved' => moved.trans moved'
      rw [timeoutLoop,wp_bind]
      refine lostCondition_spec now p w ?_
      intro lost
      split
      · rw [wp_bind,wp_tryCatch,wp_bind]
        refine wp_mono (retransmit_spec cause p w (unacked p List.mem_cons_self)) ?_ ?_
        · rintro filled w' ⟨moved,same⟩
          rw [wp_bind]
          refine wp_mono (timeNow_moves cause w') ?_ (fun e w'' timed => ?_)
          · exact fun now w'' timed => others _ w'' (moved.trans timed) (same _ _)
          · cases e with
            | transmissionError => exact ⟨moved.trans timed,alike_refl _⟩
            | undefined => exact moved.trans timed
        · intro e w' moved
          cases e with
          | transmissionError => exact ⟨moved,alike_refl _⟩
          | undefined => exact moved
      · exact others p w (.refl w) (.refl p)

theorem remoteTimeout_moves : Moves (Sending cause) remoteTimeout := by
  intro w
  simp only [remoteTimeout,modifyRemote,modifyConn,getConn,wp_bind,wp_get,wp_modify,wp_pure]
  have shrunk : Resending cause w {w with conn := {w.conn with remoteWnd := {w.conn.remoteWnd with maxWindow := minPacketSize}}} :=
    .quiet (.unchanged rfl rfl rfl) rfl
  refine wp_mono (timeNow_moves cause _) ?_ (fun _ _ timed => (shrunk.trans timed).sending)
  intro now w₁ timed
  have so_far := shrunk.trans timed
  refine wp_mono (timeoutLoop_spec cause _ w₁ fun _ member => member) ?_ (fun _ _ moved => (so_far.trans moved).sending)
  rintro packets w₂ ⟨moved,alike⟩
  rw [so_far.same.unackedPackets] at alike
  exact (so_far.trans moved).refreshed alike

theorem small_packetSize (maxWindow : UInt32) :
    (if maxWindow ≤ minPacketSize then minPacketSize
      else if maxWindow ≤ 1000 then 500
      else if maxWindow ≤ 5000 then 1000
      else fullPacketSize) ≤ fullPacketSize := by
  split
  · decide
  split
  · decide
  split
  · decide
  · exact UInt32.le_refl _

theorem measured_same (w : World) (delayWindow : List DelayEntry) (maxWindow replyMicro packetSize : UInt32)
    (small : packetSize ≤ fullPacketSize) :
    Same w {w with conn := {w.conn with
      delayWindow
      remoteWnd := {w.conn.remoteWnd with maxWindow}
      stats := {w.conn.stats with replyMicro,packetSize}}} :=
  .of_compared rfl (.inr small) (List.prefix_refl _)

theorem updateDelayMeasurement_moves : Moves (Resending cause) (updateDelayMeasurement hdr) := by
  refine Moves.bind Resending.trans (timeNow_moves cause) ?_
  intro now w
  rw [wp_modify]
  exact .quiet (measured_same w _ _ _ _ (small_packetSize _)) rfl

-- What is taken out of the output buffer leaves room for the headers.
theorem sendLoop_room (c : Connection) (count : Nat) (limit : count ≤ maxSize - c.extensionLength.toNat - Header.size) :
    Header.size + c.extensionLength.toNat ≤ maxSize - count := by
  have bound := extensionLength_le c
  simp only [maxSize,Header.size] at *
  omega

def Refused (w : World) : Prop := ∃ n, w.accepts n = false

theorem Refused.before (refused : Refused w') (same : w'.accepts = w.accepts) : Refused w := by
  obtain ⟨n,no⟩ := refused
  exact ⟨n,same ▸ no⟩

def World.addPacket (w : World) (packet : PacketBuffer) (sendTime : UInt64) : World :=
  {w with
    segments := w.segments ++ [packet.payloadBytes]
    flights := w.flights ++ [⟨w.conn.remoteWnd.addPacket packet w.conn.stats.seqNr sendTime,w.advertised⟩]
    conn := {w.conn with
      remoteWnd := w.conn.remoteWnd.addPacket packet w.conn.stats.seqNr sendTime
      stats := {w.conn.stats with seqNr := w.conn.stats.seqNr + 1}}}

theorem Same.addPacket (same : Same w w') (window : w'.conn.remoteWnd = w.conn.remoteWnd) :
    Same (w.addPacket packet sendTime) (w'.addPacket packet sendTime) where
  recvConnectionId := same.recvConnectionId
  state := same.state
  seqNr := congrArg (· + 1) same.seqNr
  eofSeqNr := same.eofSeqNr
  packetSize := same.packetSize
  localWnd := same.localWnd
  outputBuffer := same.outputBuffer
  curWindow := congrArg (· + UInt32.ofNat packet.payloadSize) same.curWindow
  wndSize := congrArg (· - UInt32.ofNat packet.payloadSize) same.wndSize
  unackedPackets := by
    show w'.conn.remoteWnd.unackedPackets ++ [⟨packet,w'.conn.stats.seqNr,sendTime,false⟩] = _
    rw [same.unackedPackets,same.seqNr]
    rfl
  segments := congrArg (· ++ [packet.payloadBytes]) same.segments
  flights := by
    show w'.flights ++ [⟨w'.conn.remoteWnd.addPacket packet w'.conn.stats.seqNr sendTime,w'.advertised⟩] = _
    rw [same.flights,window,same.seqNr,same.advertised]
    rfl
  advertised := same.advertised
  refused := same.refused
  accepted := same.accepted
  arrived := same.arrived
  delivered := same.delivered
  closings := same.closings
  accepts := same.accepts

-- The loop has fuel enough, so only the transmitter can stop it.
theorem sendLoop_spec (cause : Cause) (fuel : Nat) (w : World) (enough : w.conn.outputBuffer.bufSize < fuel) :
    wp (sendLoop fuel) (fun _ w' => Sending cause w w') (fun _ w' => Sending cause w w' ∧ Refused w) w := by
  induction fuel generalizing w with
  | zero => omega
  | succ fuel ih =>
      simp only [sendLoop,getConn,wp_bind,wp_get,wp_pure]
      split
      · rename_i go
        generalize chosen : min (min (min w.conn.outputBuffer.bufSize w.conn.remoteWnd.availableSpace.toNat) w.conn.stats.packetSize.toNat)
          (maxSize - w.conn.extensionLength.toNat - Header.size) = count
        split
        · exact .refl w
        · rename_i some_bytes
          have fits : count + Header.size ≤ maxSize := by
            have := sendLoop_room w.conn count (by omega)
            simp only [maxSize,Header.size] at *
            omega
          obtain ⟨payload,content,rest⟩ := PacketBuffer.new.fillData_payload w.conn.outputBuffer (by omega) fits
          simp only [modifyConn,timeNow,wp_bind,wp_get,wp_set,wp_modify,wp_pure]
          refine wp_mono (sendDataPacket_spec _ _ _ _ payload (sendLoop_room w.conn count (by omega))) ?_ ?_
          · rintro filled w₁ ⟨same,sent,payload',bytes,window⟩
            rw [content] at sent bytes
            have fresh : Step cause w (w₁.addPacket filled (w.clock w.ticks).toTimeStamp) :=
              .fresh ⟨filled,w.conn.stats.seqNr,(w.clock w.ticks).toTimeStamp,false⟩ (w.clock w.ticks) count _
                (by omega) (by omega) (by omega) (by omega) payload' fits bytes rfl rest
                (Same.trans (by exact .unchanged rfl rfl rfl) (same.addPacket window)) (by rw [bytes]; exact sent)
            have moved : Sending cause w _ :=
              ⟨.one fresh,same.state,same.eofSeqNr,same.localWnd,same.accepted,same.delivered,same.accepts⟩
            refine wp_mono (ih (w₁.addPacket filled (w.clock w.ticks).toTimeStamp) ?_) (fun _ _ later => moved.trans later)
              (fun _ _ later => ⟨moved.trans later.1,later.2.before same.accepts⟩)
            have length := congrArg List.length rest
            rw [CircularBuffer.contents_length,List.length_drop,CircularBuffer.contents_length] at length
            have shorter : w₁.conn.outputBuffer.bufSize = w.conn.outputBuffer.bufSize - count := by
              rw [same.outputBuffer]
              exact length
            show w₁.conn.outputBuffer.bufSize < fuel
            omega
          · rintro e w₁ ⟨_,refused,same,sent,logged⟩
            have spilled : Step cause w w₁ :=
              .spilled count _ refused rest (Same.trans (by exact .unchanged rfl rfl rfl) same) sent
                (logged ▸ List.mem_append_right _ List.mem_cons_self)
            exact ⟨⟨.one spilled,same.state,same.eofSeqNr,same.localWnd,same.accepted,same.delivered,same.accepts⟩,_,refused⟩
      · exact .refl w

theorem wp_getConn {f : Connection → Act α} : wp (getConn >>= f) Q E w ↔ wp (f w.conn) Q E w := Iff.rfl

-- x only sends, and only the transmitter can make it fail.
def Transmits (cause : Cause) (x : Act α) : Prop :=
  ∀ w, wp x (fun _ w' => Sending cause w w') (fun _ w' => Sending cause w w' ∧ Refused w) w

theorem Transmits.moves (sends : Transmits cause x) : Moves (Sending cause) x :=
  fun w => wp_mono (sends w) (fun _ _ moved => moved) (fun _ _ moved => moved.1)

theorem Transmits.after {x : Act α} {f : α → Act β}
    (first : wp x (fun _ w' => Sending cause w w') (fun _ w' => Sending cause w w' ∧ Refused w) w)
    (rest : ∀ a, Transmits cause (f a)) :
    wp (x >>= f) (fun _ w' => Sending cause w w') (fun _ w' => Sending cause w w' ∧ Refused w) w := by
  rw [wp_bind]
  refine wp_mono first (fun a w₁ moved => ?_) (fun _ _ failed => failed)
  exact wp_mono (rest a w₁) (fun _ _ later => moved.trans later)
    (fun _ _ later => ⟨moved.trans later.1,later.2.before moved.accepts⟩)

theorem Transmits.bind {x : Act α} {f : α → Act β} (first : Transmits cause x) (rest : ∀ a, Transmits cause (f a)) :
    Transmits cause (x >>= f) :=
  fun w => Transmits.after (first w) rest

theorem Transmits.getConn {f : Connection → Act α} (rest : ∀ c, Transmits cause (f c)) :
    Transmits cause (do f (← getConn)) :=
  fun w => rest w.conn w

theorem Transmits.quiet {f : World → World} (same : ∀ w, Same w (f w)) (sent : ∀ w, (f w).sent = w.sent) :
    Transmits cause (modify f) :=
  fun w => Resending.sending (.quiet (same w) (sent w))

theorem startTimer_transmits : Transmits cause startTimer := fun _ => Resending.sending (.quiet (.unchanged rfl rfl rfl) rfl)

theorem sendPacket_transmits (other : type ≠ stData) :
    Transmits cause (do sendPacket type (← getConn).localWnd.lastSeqNr) := by
  intro w
  rw [wp_getConn]
  refine wp_mono (sendPacket_spec type _ w) ?_ ?_
  · rintro _ w' ⟨same,now,sent⟩
    exact Resending.sending ⟨.one (.control type _ now other rfl same sent),same⟩
  · rintro _ w' ⟨_,refused,same,sent⟩
    exact ⟨Resending.sending (.quiet same sent),_,refused⟩

theorem sendState_transmits : Transmits cause sendState := sendPacket_transmits (by decide)

theorem sendFIN_transmits : Transmits cause sendFIN := sendPacket_transmits (by decide)

theorem sendReset_transmits : Transmits cause sendReset := sendPacket_transmits (by decide)

theorem sendPackets_transmits : Transmits cause sendPackets := by
  intro w
  rw [sendPackets,wp_getConn]
  refine Transmits.after (sendLoop_spec cause _ w (Nat.lt_succ_self _)) fun _ => ?_
  refine .getConn fun c => ?_
  split
  · exact .bind sendFIN_transmits fun _ => .quiet (fun _ => (.unchanged rfl rfl rfl)) fun _ => rfl
  · exact startTimer_transmits

theorem sendStateOrData_transmits : Transmits cause sendStateOrData := by
  refine .getConn fun c => ?_
  split
  · exact sendPackets_transmits
  · exact sendState_transmits

theorem Transmits.steps (sends : Transmits cause x) : Moves (Steps cause) x :=
  fun w => wp_mono (sends w) (fun _ _ moved => moved.steps) (fun _ _ moved => moved.1.steps)

theorem Sending.moves (moves : Moves (Sending cause) x) : Moves (Steps cause) x :=
  fun w => wp_mono (moves w) (fun _ _ moved => moved.steps) (fun _ _ moved => moved.steps)

theorem Resending.moves (moves : Moves (Resending cause) x) : Moves (Steps cause) x :=
  fun w => wp_mono (moves w) (fun _ _ moved => moved.steps) (fun _ _ moved => moved.steps)

end KtorrentStream.Utp
