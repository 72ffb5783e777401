import KtorrentStream.Utp.Receiver
import KtorrentStream.Utp.Sender
set_option autoImplicit true

namespace KtorrentStream.Utp
open KtorrentStream.Lib KtorrentStream.Util

-- What a connection needs to send its packets again: a transmitter that takes them,
-- and packets with room for the headers.
structure Willing (w : World) : Prop where
  accepts : ∀ n, w.accepts n = true
  roomy : ∀ p ∈ w.conn.remoteWnd.unackedPackets, p.packet.Roomy

theorem Willing.same (willing : Willing w) (same : Same w w') : Willing w' := by
  refine ⟨same.accepts ▸ willing.accepts,?_⟩
  rw [same.unackedPackets]
  exact willing.roomy

theorem Willing.not_refused (willing : Willing w) : ¬ Refused w := by
  rintro ⟨n,refused⟩
  rw [willing.accepts n] at refused
  cases refused

section
variable {w : World}

theorem retransmit_returns (willing : Willing w) (unacked : p ∈ w.conn.remoteWnd.unackedPackets) : Returns (retransmit p.packet p.seqNr) w := by
  obtain ⟨off,payload,room⟩ := willing.roomy p unacked
  simp only [Returns,retransmit,timeNow,wp_bind,wp_get,wp_set,wp_pure]
  have short := extensionLength_le w.conn
  have sends := sendDataPacket_spec p.packet p.seqNr (w.clock w.ticks) {w with ticks := w.ticks + 1} payload (by
    show Header.size + w.conn.extensionLength.toNat ≤ off
    simp only [Header.size]
    omega)
  refine wp_mono sends (fun _ _ _ => trivial) ?_
  rintro _ _ ⟨_,refused,_⟩
  exact willing.not_refused ⟨_,refused⟩

theorem retransmitLost_returns (willing : Willing w) (unacked : p ∈ w.conn.remoteWnd.unackedPackets) : Returns (retransmitLost now p) w := by
  rw [Returns,retransmitLost,wp_tryCatch,wp_bind]
  exact wp_mono (retransmit_returns willing unacked) (fun _ _ _ => trivial) (fun _ _ threw => threw.elim)

theorem lostLoop_returns (packets : List UnackedPacket) (w : World) (willing : Willing w)
    (unacked : ∀ p ∈ packets, p ∈ w.conn.remoteWnd.unackedPackets) : Returns (lostLoop ackNr lostIndex now packets) w := by
  induction packets generalizing w with
  | nil => trivial
  | cons p rest ih =>
      have others (w' : World) (same : Same w w') : Returns (lostLoop ackNr lostIndex now rest) w' := by
        refine ih w' (willing.same same) fun q member => ?_
        rw [same.unackedPackets]
        exact unacked q (List.mem_cons_of_mem _ member)
      have here := unacked p List.mem_cons_self
      rw [lostLoop,Returns,wp_bind]
      refine lostCondition_spec now p w fun lost => ?_
      split
      · refine Returns.bind (retransmitLost_spec .other p w here) (retransmitLost_returns willing here) fun p' w' moved => ?_
        rw [Returns,wp_bind]
        exact wp_mono (others w' moved.1.same) (fun _ _ _ => trivial) (fun _ _ threw => threw)
      · rw [wp_bind]
        exact wp_mono (others w (.refl w)) (fun _ _ _ => trivial) (fun _ _ threw => threw)

theorem firstLost_returns (willing : Willing w) (packets : List UnackedPacket)
    (unacked : ∀ p ∈ packets, p ∈ w.conn.remoteWnd.unackedPackets) : Returns (firstLost hdr now count packets) w := by
  cases packets with
  | nil => trivial
  | cons p rest =>
      rw [firstLost,Returns]
      split
      · rw [wp_bind]
        refine lostCondition_spec now p w fun lost => ?_
        split
        · rw [wp_bind]
          exact wp_mono (retransmitLost_returns willing (unacked p List.mem_cons_self)) (fun _ _ _ => trivial) (fun _ _ threw => threw)
        · trivial
      · trivial

theorem checkLostPackets_returns (willing : Willing w) : Returns (checkLostPackets hdr sack) w := by
  rw [checkLostPackets]
  refine Returns.bind (timeNow_moves .other w) trivial fun now w₁ timed => ?_
  have willing₁ := willing.same timed.same
  simp only [Returns,getConn,wp_bind,wp_get,wp_pure]
  have unacked : ∀ p ∈ w₁.conn.remoteWnd.unackedPackets, p ∈ w₁.conn.remoteWnd.unackedPackets := fun _ member => member
  refine wp_mono (wp_and (@firstLost_spec hdr _ _ .other _ w₁ unacked) (firstLost_returns willing₁ _ unacked)) ?_ (fun _ _ threw => threw.2)
  rintro ⟨first,rest,lostFirst⟩ w₂ ⟨⟨moved,front,split_up,_⟩,_⟩
  cases sack with
  | none => trivial
  | some mask =>
      dsimp only
      split
      · rw [wp_bind]
        refine wp_mono (lostLoop_returns rest w₂ (willing₁.same moved.same) fun p member => ?_) (fun _ _ _ => trivial) (fun _ _ threw => threw)
        rw [moved.same.unackedPackets,split_up]
        exact List.mem_append_right _ member
      · trivial

theorem remotePacketReceived_returns (willing : Willing w) : Returns (remotePacketReceived hdr sack) w := by
  simp only [Returns,remotePacketReceived,modifyRemote,modifyConn,timeNow,getConn,wp_bind,wp_get,wp_set,wp_modify,wp_pure]
  simp only [(counted_window _ _ _ _ _).1,(counted_window _ _ _ _ _).2]
  split
  · trivial
  · exact checkLostPackets_returns ⟨willing.accepts,fun p among => willing.roomy p ((ackPackets_left hdr sack _).subset among)⟩

theorem timeoutLoop_returns (packets : List UnackedPacket) (w : World) (willing : Willing w)
    (unacked : ∀ p ∈ packets, p ∈ w.conn.remoteWnd.unackedPackets) : Returns (timeoutLoop now packets) w := by
  induction packets generalizing w with
  | nil => trivial
  | cons p rest ih =>
      have others (p' : UnackedPacket) (w' : World) (same : Same w w') : Returns (do return p' :: (← timeoutLoop now rest)) w' := by
        rw [Returns,wp_bind]
        refine wp_mono (ih w' (willing.same same) fun q member => ?_) (fun _ _ _ => trivial) (fun _ _ threw => threw)
        rw [same.unackedPackets]
        exact unacked q (List.mem_cons_of_mem _ member)
      have here := unacked p List.mem_cons_self
      rw [timeoutLoop,Returns,wp_bind]
      refine lostCondition_spec now p w fun lost => ?_
      split
      · rw [wp_bind,wp_tryCatch,wp_bind]
        refine wp_mono (wp_and (retransmit_spec .other p w here) (retransmit_returns willing here)) ?_ (fun _ _ threw => threw.2.elim)
        rintro filled w' ⟨⟨moved,_⟩,_⟩
        exact others _ _ (moved.same.trans (.unchanged rfl rfl rfl))
      · exact others p w (.refl w)

theorem remoteTimeout_returns (willing : Willing w) : Returns remoteTimeout w := by
  simp only [Returns,remoteTimeout,modifyRemote,modifyConn,timeNow,getConn,wp_bind,wp_get,wp_set,wp_modify,wp_pure]
  exact wp_mono (timeoutLoop_returns _ _ ⟨willing.accepts,willing.roomy⟩ fun _ member => member) (fun _ _ _ => trivial) (fun _ _ threw => threw)

end

-- A connection past the handshake whose packets can be sent again and whose local
-- window knows where a packet goes.
structure Settled (cause : Cause) (w : World) : Prop where
  sender : ∃ first, Sender first w
  receiver : ∃ front r, Receiver w front r
  fits : ∀ i, cause = .packet i → i.parser.header.type = stData → i.Fits w.conn.localWnd

theorem Settled.willing (settled : Settled cause w) : Willing w := by
  obtain ⟨first,sender⟩ := settled.sender
  exact ⟨sender.accepts,fun p among => (sender.unacked p among).1⟩

theorem Settled.steps (settled : Settled cause w) (steps : Steps cause w w') : Settled cause w' := by
  induction steps with
  | refl => exact settled
  | tail _ step ih =>
      obtain ⟨⟨first,sender⟩,⟨front,r,receiver⟩,fits⟩ := ih
      obtain ⟨front',r',receiver',progress⟩ := receiver.step step fits
      refine ⟨⟨first,sender.step step⟩,⟨front',r',receiver'⟩,?_⟩
      rintro i rfl data
      exact receiver.fits_kept receiver' progress (fits i rfl data)

-- x returns in every such connection, and leaves one.
def Sure (cause : Cause) (x : Act α) : Prop := ∀ w, Settled cause w → wp x (fun _ w' => Settled cause w') (fun _ _ => False) w

theorem Settled.sure (settled : Settled cause w) (moved : wp x (fun _ w' => Steps cause w w') (fun _ w' => Steps cause w w') w)
    (returns : Returns x w) : wp x (fun _ w' => Settled cause w') (fun _ _ => False) w :=
  wp_mono (wp_and moved returns) (fun _ _ both => settled.steps both.1) (fun _ _ both => both.2)

theorem Sure.of_moves (moves : Moves (Steps cause) x) (returns : ∀ w, Willing w → Returns x w) : Sure cause x :=
  fun w settled => settled.sure (moves w) (returns w settled.willing)

theorem Sure.bind {x : Act α} {f : α → Act β} (first : Sure cause x) (rest : ∀ a, Sure cause (f a)) : Sure cause (x >>= f) := by
  intro w settled
  rw [wp_bind]
  exact wp_mono (first w settled) (fun a w' settled' => rest a w' settled') (fun _ _ threw => threw)

theorem Sure.andThen {x : Act α} {f : α → Act β} (first : wp x (fun _ w' => Settled cause w') (fun _ _ => False) w)
    (rest : ∀ a, Sure cause (f a)) : wp (x >>= f) (fun _ w' => Settled cause w') (fun _ _ => False) w := by
  rw [wp_bind]
  exact wp_mono first (fun a w' settled => rest a w' settled) (fun _ _ threw => threw)

theorem Sure.quiet {f : World → World} (same : ∀ w, Same w (f w)) (sent : ∀ w, (f w).sent = w.sent) : Sure cause (modify f) :=
  fun w settled => settled.steps (.quiet (same w) (sent w))

theorem Transmits.sure (sends : Transmits cause x) : Sure cause x := fun w settled =>
  wp_mono (sends w) (fun _ _ moved => settled.steps moved.steps) (fun _ _ failed => settled.willing.not_refused failed.2)

theorem Transmits.returns (sends : Transmits cause x) (willing : Willing w) : Returns x w :=
  Returns.intro (wp_mono (sends w) (fun _ _ moved => moved) (fun _ _ failed => willing.not_refused failed.2))

theorem setClosed_sure : Sure cause (setState .closed) := .of_moves setClosed_moves fun _ _ => trivial

theorem sendResetAndClose_sure : Sure cause sendResetAndClose := .bind sendReset_transmits.sure fun _ => setClosed_sure

theorem checkIfClosed_sure : Sure cause checkIfClosed := by
  refine .of_moves checkIfClosed_moves fun w _ => ?_
  rw [Returns,checkIfClosed,wp_getConn]
  split <;> trivial

theorem finishedReply_sure : Sure cause finishedReply := by
  refine .bind sendStateOrData_transmits.sure fun _ => ?_
  intro w settled
  rw [wp_getConn]
  split
  · refine Sure.andThen (sendFIN_transmits.sure w settled) fun _ => .bind ?_ fun _ => checkIfClosed_sure
    exact .quiet (fun _ => .unchanged rfl rfl rfl) fun _ => rfl
  · exact checkIfClosed_sure w settled

theorem localPacketReceived_sure (settled : Settled (.packet i) w) (data : i.parser.header.type = stData)
    (state : w.conn.stats.state = .connected ∨ w.conn.stats.state = .finished) :
    wp (localPacketReceived i.parser.header i.packet i.dataOff) (fun _ w' => Settled (.packet i) w') (fun _ _ => False) w := by
  refine settled.sure (localPacketReceived_steps rfl data w state) ?_
  obtain ⟨front,r,receiver⟩ := settled.receiver
  rw [Returns,localPacketReceived,wp_getConn]
  obtain ⟨result,_⟩ | ⟨result,_⟩ | ⟨_,_,result,_⟩ := packetReceived_repr receiver.window (settled.fits i rfl data)
  all_goals
    rw [result]
    trivial

theorem handleConnected_sure (settled : Settled (.packet i) w) (state : w.conn.stats.state = .connected) :
    wp (handleConnected i.parser.header i.packet i.dataOff) (fun _ w' => Settled (.packet i) w') (fun _ _ => False) w := by
  rw [handleConnected]
  split
  · rename_i data
    refine Sure.andThen (localPacketReceived_sure settled data (.inl state)) fun room => ?_
    cases room with
    | true => exact sendStateOrData_transmits.sure
    | false => exact sendResetAndClose_sure
  split
  · exact sendPackets_transmits.sure w settled
  split
  · rename_i isFin
    refine Sure.andThen (settled.sure (.one (.fin i rfl isFin (.inl state))) trivial) fun _ => ?_
    exact .bind sendPackets_transmits.sure fun _ => checkIfClosed_sure
  · exact sendResetAndClose_sure w settled

theorem handleFinished_sure (settled : Settled (.packet i) w) (state : w.conn.stats.state = .finished) :
    wp (handleFinished i.parser.header i.packet i.dataOff) (fun _ w' => Settled (.packet i) w') (fun _ _ => False) w := by
  have sendAndCheck : Sure (.packet i) (do sendPackets; checkIfClosed) := .bind sendPackets_transmits.sure fun _ => checkIfClosed_sure
  rw [handleFinished]
  split
  · rename_i data
    rw [wp_getConn]
    split
    · refine Sure.andThen (localPacketReceived_sure settled data (.inr state)) fun room => ?_
      cases room with
      | true => exact finishedReply_sure
      | false => exact sendResetAndClose_sure
    · exact finishedReply_sure w settled
  split
  · exact sendAndCheck w settled
  split
  · rename_i isFin
    refine Sure.andThen (settled.sure (Steps.trans (.one (.fin i rfl isFin (.inr state))) (.quiet ?_ rfl)) trivial) fun _ => sendAndCheck
    exact .unchanged (by simp only [World.compared,state]) rfl rfl
  · exact sendResetAndClose_sure w settled

theorem handlePacket_returns (settled : Settled (.packet ⟨parser,packet⟩) w) : Returns (handlePacket parser packet) w := by
  have finish : Sure (.packet ⟨parser,packet⟩) (do checkState; startTimer; return (← getConn).stats.state) :=
    .bind (.of_moves checkState_moves fun _ _ => trivial) fun _ => .bind startTimer_transmits.sure fun _ _ settled => settled
  rw [handlePacket]
  refine Returns.intro (Sure.bind ?_ (fun _ => ?_) w settled)
  · exact .quiet (fun _ => .unchanged rfl rfl rfl) fun _ => rfl
  refine .bind (.of_moves (Resending.moves updateDelayMeasurement_moves) fun _ _ => trivial) fun _ => ?_
  refine .bind (.of_moves (Sending.moves (remotePacketReceived_moves (i := ⟨parser,packet⟩) rfl)) fun _ => remotePacketReceived_returns) fun _ => ?_
  intro w settled
  rw [wp_getConn]
  refine Sure.andThen ?_ fun _ => finish
  obtain ⟨front,r,receiver⟩ := settled.receiver
  have past := receiver.state
  cases state : w.conn.stats.state with
  | synSent | idle =>
      rw [state] at past
      cases past
  | connected => exact handleConnected_sure (i := ⟨parser,packet⟩) settled state
  | finished => exact handleFinished_sure (i := ⟨parser,packet⟩) settled state
  | closed => exact settled

theorem timeoutConnected_returns (settled : Settled cause w) : Returns timeoutConnected w := by
  rw [timeoutConnected]
  have moves : Moves (Sending cause) remoteTimeout := remoteTimeout_moves
  refine Returns.bind (moves w) (remoteTimeout_returns settled.willing) fun _ w₁ moved => ?_
  have settled₁ : Settled cause w₁ := settled.steps moved.steps
  have settled₂ := settled₁.steps (.quiet (retimed_same w₁ minPacketSize (w₁.conn.stats.timeout * 2) (by decide)) rfl)
  rw [Returns,wp_bind,modifyStats,modifyConn,wp_modify,wp_getConn]
  split
  · rw [wp_bind,setState,modifyStats,modifyConn,wp_modify]
    have sends : Transmits cause sendReset := sendReset_transmits
    exact sends.returns ⟨settled₂.willing.accepts,settled₂.willing.roomy⟩
  · refine Returns.intro (Sure.andThen (sendPackets_transmits.sure _ settled₂) fun _ => ?_)
    refine .bind (.of_moves (Resending.moves (timeNow_moves cause)) fun _ _ => trivial) fun _ => ?_
    intro w settled
    rw [wp_getConn]
    split
    · exact sendState_transmits.sure w settled
    · exact settled

theorem handleTimeout_returns (settled : Settled cause w) : Returns handleTimeout w := by
  rw [handleTimeout,Returns,wp_getConn]
  have checks (w' : World) : Returns checkState w' := trivial
  have answers : Returns (timeoutByState w.conn.stats.state) w := by
    cases state : w.conn.stats.state with
    | synSent | finished | idle | closed => trivial
    | connected => exact timeoutConnected_returns settled
  exact Returns.bind answers answers fun _ w' _ => checks w'

theorem send_returns (willing : Willing w) : Returns (send data) w :=
  Returns.intro (wp_mono (send_spec data w) (fun _ _ done => done) (fun _ _ failed => willing.not_refused failed.2))

theorem close_returns (settled : Settled cause w) : Returns close w := by
  rw [close,Returns,wp_getConn]
  split
  · rename_i connected
    have finished : Settled cause {w with conn := {w.conn with stats := {w.conn.stats with state := .finished}}} :=
      settled.steps (.one (.forward .finished (by rw [connected]; decide)))
    exact Returns.intro (sendPackets_transmits.sure _ finished)
  · trivial

theorem reset_returns (settled : Settled cause w) : Returns reset w := by
  rw [reset,Returns,wp_getConn]
  split
  · have sends : Transmits cause sendReset := sendReset_transmits
    exact Returns.bind (sends w) (sends.returns settled.willing) fun _ _ _ => trivial
  · trivial

-- What recv can be asked of: a window that has a slot, or a connection that answers
-- that it is closed.
def World.Readable (w : World) : Prop :=
  w.conn.localWnd.incomingPackets ≠ [] ∨ w.conn.localWnd.bytesAvailable = 0 ∧
    (w.conn.stats.state = .closed ∨ w.conn.stats.state = .finished ∧ w.conn.remoteWnd.allPacketsAcked)

theorem recvRead_returns (settled : Settled cause w)
    (readable : w.conn.localWnd.incomingPackets ≠ [] ∨ w.conn.localWnd.bytesAvailable = 0 ∧ w.conn.stats.state = .closed) :
    Returns (recvRead maxLen) w := by
  rw [recvRead,Returns,wp_getConn]
  split
  · trivial
  · rename_i open_
    obtain ⟨front,r,receiver⟩ := settled.receiver
    obtain ⟨localWnd,_,_,bytes,result,_⟩ := read_repr receiver.window (readable.resolve_right open_) maxLen
    rw [result,wp_bind,wp_modify]
    split
    · rw [wp_bind]
      have sends : Transmits cause sendState := sendState_transmits
      exact wp_mono (sends.returns ⟨settled.willing.accepts,settled.willing.roomy⟩) (fun _ _ _ => trivial) (fun _ _ threw => threw)
    · trivial

theorem recv_returns (settled : Settled cause w) (readable : w.Readable) : Returns (recv maxLen) w := by
  rw [recv,Returns,wp_getConn]
  split
  · rename_i finished
    rw [wp_bind,checkIfClosed,wp_getConn]
    split
    · rename_i done
      refine recvRead_returns (settled.steps (.one (.drained done.1 done.2.1 done.2.2))) (readable.imp_right fun none => ⟨none.1,rfl⟩)
    · rename_i waits
      refine recvRead_returns settled (.inl ?_)
      rintro empty
      obtain some_ | ⟨_,closed | acked⟩ := readable
      · exact some_ empty
      · cases closed.symm.trans finished
      · exact waits ⟨finished,acked.2,by rw [LocalWindow.isEmpty,empty]; rfl⟩
  · rename_i other
    refine recvRead_returns settled (readable.imp_right fun none => ⟨none.1,none.2.resolve_right fun both => other both.1⟩)

-- Two connections and what the users of the first have sent and those of the
-- second received. `first` is the count of the first packet of the stream;
-- last_seq_nr of the receiver is counted along the run.
structure Link where
  sender : World
  receiver : World
  first : Nat
  reached : Nat
  accepted : List UInt8
  returned : List UInt8

inductive LinkEvent where
  | sender (event : Event)
  | receiver (event : Event)

-- The bytes that send answers for, and those that recv returns.
def taken (w : World) : Event → List UInt8
  | .send data =>
      match send data w with
      | .ok (some n) _ => data.take n
      | _ => []
  | _ => []

def given (w : World) : Event → List UInt8
  | .recv maxLen =>
      match recv maxLen w with
      | .ok (some bytes) _ => bytes
      | _ => []
  | _ => []

def Link.lastSeqNr (l : Link) : UInt16 := l.receiver.conn.localWnd.lastSeqNr

def Link.step (l : Link) : LinkEvent → Link
  | .sender event => {l with
      sender := perform l.sender event
      accepted := l.accepted ++ taken l.sender event}
  | .receiver event => {l with
      receiver := perform l.receiver event
      reached := l.reached + ((perform l.receiver event).conn.localWnd.lastSeqNr - l.lastSeqNr).toNat
      returned := l.returned ++ given l.receiver event}

-- The count of the oldest slot of incoming_packets.
def Link.frontCount (l : Link) : Nat :=
  l.reached + 1 - (l.lastSeqNr + 1 - l.receiver.conn.localWnd.frontSeqNr).toNat

-- The network may bring a data packet that was sent at any time, again and again
-- and in any order, as long as it is a copy of one of the last 32768 packets and
-- does not make incoming_packets span more than 32768 counts.
structure Link.Arrives (l : Link) (parser : PacketParser) (packet : Buffer) : Prop where
  sent : packet.data ∈ l.sender.sent
  parsed : parse packet.data = .accepted parser
  recent : ∃ k, IsSegment l.first l.sender.segments k parser.header.seqNr (packet.data.drop parser.dataOffset) ∧
    l.sender.segments.length ≤ k + 32768 ∧
    (l.reached < l.first + k →
      ¬ l.receiver.conn.localWnd.windowSpace < packet.size - UInt32.ofNat parser.dataOffset →
      l.first + k < l.frontCount + 32768)

-- Packets without data may be anything. What the receiver sends is not followed here:
-- its data packets fit into the sender's window. recv is only asked of a connection
-- that can be read.
def Link.Allowed (l : Link) : LinkEvent → Prop
  | .receiver (.handlePacket parser packet) => parser.header.type = stData → l.Arrives parser packet
  | .sender (.handlePacket parser packet) => parser.header.type = stData → Input.Fits ⟨parser,packet⟩ l.sender.conn.localWnd
  | .receiver (.recv _) => l.receiver.Readable
  | .sender (.recv _) => l.sender.Readable
  | _ => True

def World.Answers (w : World) : Event → Prop
  | .handlePacket parser packet => Returns (handlePacket parser packet) w
  | .send data => Returns (send data) w
  | .recv maxLen => Returns (recv maxLen) w
  | .close => Returns close w
  | .reset => Returns reset w
  | .checkTimeout now => Returns (checkTimeout now) w
  | .handleTimeout => Returns handleTimeout w

def Link.Answers (l : Link) : LinkEvent → Prop
  | .sender event => l.sender.Answers event
  | .receiver event => l.receiver.Answers event

inductive Link.Reached (start : Link) : Link → Prop where
  | start : Link.Reached start start
  | step (event : LinkEvent) (prior : Link.Reached start l) (allowed : l.Allowed event) : Link.Reached start (l.step event)

-- A connection after the handshake, before anything is sent or received.
structure Established (w : World) : Prop where
  state : w.conn.stats.state = .connected
  packetSize : w.conn.stats.packetSize ≤ fullPacketSize
  window : w.conn.localWnd = .fresh (128 * 1024) w.conn.localWnd.lastSeqNr
  outputBuffer : w.conn.outputBuffer.contents = []
  unackedPackets : w.conn.remoteWnd.unackedPackets = []
  curWindow : w.conn.remoteWnd.curWindow = 0
  history : w.sent = [] ∧ w.segments = [] ∧ w.accepted = [] ∧ w.arrived = [] ∧ w.delivered = [] ∧ w.closings = []
  accepts : ∀ n, w.accepts n = true

structure Link.Starts (l : Link) : Prop where
  sender : Established l.sender
  receiver : Established l.receiver
  numbers : l.lastSeqNr = l.sender.conn.stats.seqNr - 1
  reached : l.reached = l.lastSeqNr.toNat
  first : l.first = l.reached + 1
  history : l.accepted = [] ∧ l.returned = []

structure Link.Sound (l : Link) (front : Nat) (r : Reassembly UInt8) : Prop where
  sender : Sender l.first l.sender
  receiver : Receiver l.receiver front r
  base : r.base + 1 = l.first
  reached : r.last = l.reached
  agrees : r.Agrees l.sender.segments
  accepts : ∀ n, l.receiver.accepts n = true
  accepted : l.accepted = l.sender.accepted
  returned : l.returned = l.receiver.delivered
  own : ∃ front r, Receiver l.sender front r
  replies : ∃ first, Sender first l.receiver

theorem Step.accepted_of (step : Step cause w w') (other : ∀ data, cause ≠ .send data) : w'.accepted = w.accepted := by
  cases step with
  | quiet same => exact same.accepted
  | control _ _ _ _ _ same => exact same.accepted
  | resent _ _ _ same => exact same.accepted
  | fresh _ _ _ _ _ _ _ _ _ _ _ _ _ same => exact same.accepted
  | spilled _ _ _ _ same => exact same.accepted
  | acked _ _ same => exact same.accepted
  | buffered data asked => exact absurd asked (other data)
  | refreshed | received | read | handshake | forward | fin | drained | cleared => rfl

theorem Step.delivered_of (step : Step cause w w') (other : ∀ maxLen, cause ≠ .recv maxLen) : w'.delivered = w.delivered := by
  cases step with
  | quiet same => exact same.delivered
  | control _ _ _ _ _ same => exact same.delivered
  | resent _ _ _ same => exact same.delivered
  | fresh _ _ _ _ _ _ _ _ _ _ _ _ _ same => exact same.delivered
  | spilled _ _ _ _ same => exact same.delivered
  | acked _ _ same => exact same.delivered
  | read maxLen _ _ asked => exact absurd asked (other maxLen)
  | refreshed | buffered | received | handshake | forward | fin | drained | cleared => rfl

theorem perform_accepted (w : World) (event : Event) (accepts : ∀ n, w.accepts n = true) :
    (perform w event).accepted = w.accepted ++ taken w event := by
  have kept : (∀ data, event.cause ≠ .send data) → (perform w event).accepted = w.accepted :=
    fun other => (perform_steps w event).kept fun step => step.accepted_of other
  cases event with
  | send data =>
      have spec := send_spec data w
      simp only [perform,after,taken]
      cases result : send data w with
      | ok ret w' =>
          rw [(wp_ok spec result).2.1]
          cases ret with
          | none => simp
          | some n => rfl
      | error e w' =>
          obtain ⟨n,refused⟩ := (wp_error spec result).2
          rw [accepts n] at refused
          cases refused
  | handlePacket | recv | close | reset | checkTimeout | handleTimeout =>
      exact (kept (by rintro data ⟨⟩)).trans (List.append_nil _).symm

theorem perform_delivered (w : World) (event : Event) (accepts : ∀ n, w.accepts n = true) :
    (perform w event).delivered = w.delivered ++ given w event := by
  have kept : (∀ maxLen, event.cause ≠ .recv maxLen) → (perform w event).delivered = w.delivered :=
    fun other => (perform_steps w event).kept fun step => step.delivered_of other
  cases event with
  | recv maxLen =>
      have spec := recv_spec maxLen w
      simp only [perform,after,given]
      cases result : recv maxLen w with
      | ok ret w' =>
          rw [(wp_ok spec result).2.1]
          cases ret <;> rfl
      | error e w' =>
          obtain ⟨_,same⟩ | ⟨n,refused⟩ := (wp_error spec result).2
          · rw [same,List.append_nil]
          · rw [accepts n] at refused
            cases refused
  | handlePacket | send | close | reset | checkTimeout | handleTimeout =>
      exact (kept (by rintro maxLen ⟨⟩)).trans (List.append_nil _).symm

section
variable {l : Link} {front : Nat} {r : Reassembly UInt8}

theorem Link.Sound.frontCount (sound : l.Sound front r) : l.frontCount = front := by
  have rep := sound.receiver.window
  have behind := rep.behind
  have ready := rep.valid.ready
  have bound := rep.last_le rep.valid
  rw [Link.frontCount,rep.frontSeqNr,Link.lastSeqNr,rep.lastSeqNr,seqOf_succ,seqOf_sub_toNat (by omega) (by omega),← sound.reached]
  omega

-- A packet that the code takes as new has the count the sender gave it.
theorem count_of_recent {w : LocalWindow} (rep : Repr w front r) (number : seqNr = seqOf (first + k))
    (newest : r.last < first + length) (recent : length ≤ k + 32768) (late : seqNrCmpSE seqNr w.lastSeqNr = false)
    (span : r.last < first + k → first + k < front + 32768) :
    w.nearFront seqNr ∧ countOf r.last w seqNr = first + k := by
  have behind := rep.behind
  have ready := rep.valid.ready
  have bound := rep.last_le rep.valid
  have ahead : r.last < first + k := by
    by_contra old
    rw [number,rep.lastSeqNr,seqNrCmpSE_seqOf (by omega) (by omega)] at late
    exact absurd late (by simp; omega)
  have close := span ahead
  refine ⟨?_,?_⟩
  · rw [LocalWindow.nearFront,rep.frontSeqNr,number,decide_eq_true_iff,UInt16.lt_iff_toNat_lt,
      seqOf_sub_toNat (by omega) (by omega)]
    show first + k - front < 32768
    omega
  · rw [countOf,number,rep.lastSeqNr,seqOf_sub_toNat (by omega) (by omega)]
    omega

theorem Step.segments_of (step : Step cause w w') : w.segments <+: w'.segments := by
  cases step with
  | quiet same => rw [same.segments]
  | control _ _ _ _ _ same => rw [same.segments]
  | resent _ _ _ same => rw [same.segments]
  | fresh _ _ _ _ _ _ _ _ _ _ _ _ _ same =>
      rw [same.segments]
      exact List.prefix_append _ _
  | spilled _ _ _ _ same => rw [same.segments]
  | acked _ _ same =>
      rw [same.segments]
      exact List.prefix_refl _
  | refreshed | buffered | received | read | handshake | forward | fin | drained | cleared => exact List.prefix_refl _

theorem Steps.segments_of (steps : Steps cause w w') : w.segments <+: w'.segments := by
  induction steps with
  | refl => exact List.prefix_refl _
  | tail _ step ih => exact ih.trans step.segments_of

theorem agrees_of_prefix {segments : List (List UInt8)} (agrees : r.Agrees segments) (more : segments <+: segments') :
    r.Agrees segments' := by
  obtain ⟨rest,rfl⟩ := more
  intro k segment present
  have here := agrees k segment present
  rw [List.getElem?_append_left (List.getElem?_eq_some_iff.mp here).choose]
  exact here

theorem Settled.answers {event : Event} (settled : Settled event.cause w) (readable : ∀ maxLen, event = .recv maxLen → w.Readable) :
    w.Answers event := by
  cases event with
  | handlePacket parser packet => exact handlePacket_returns settled
  | send data => exact send_returns settled.willing
  | recv maxLen => exact recv_returns settled (readable maxLen rfl)
  | close => exact close_returns settled
  | reset => exact reset_returns settled
  | checkTimeout now =>
      rw [World.Answers,checkTimeout,Returns,wp_getConn]
      split
      · exact handleTimeout_returns settled
      · trivial
  | handleTimeout => exact handleTimeout_returns settled

theorem Link.Sound.settled_sender (sound : l.Sound front r) (allowed : l.Allowed (.sender event)) : Settled event.cause l.sender := by
  refine ⟨⟨_,sound.sender⟩,sound.own,fun i handled data => ?_⟩
  cases event with
  | handlePacket parser packet =>
      cases handled
      exact allowed data
  | send | recv | close | reset | checkTimeout | handleTimeout => cases handled

theorem Link.Sound.sender_step (sound : l.Sound front r) (allowed : l.Allowed (.sender event)) : (l.step (.sender event)).Sound front r where
  sender := sound.sender.steps (perform_steps l.sender event)
  receiver := sound.receiver
  base := sound.base
  reached := sound.reached
  agrees := agrees_of_prefix sound.agrees (perform_steps l.sender event).segments_of
  accepts := sound.accepts
  accepted := by
    show l.accepted ++ _ = (perform l.sender event).accepted
    rw [perform_accepted _ _ sound.sender.accepts,sound.accepted]
  returned := sound.returned
  own := ((sound.settled_sender allowed).steps (perform_steps l.sender event)).receiver
  replies := sound.replies

-- The receiver's state during one call, seen from the state before it.
structure Within (l : Link) (cause : Cause) (front₀ : Nat) (r₀ : Reassembly UInt8) (w : World) (front : Nat) (r : Reassembly UInt8) :
    Prop where
  base : r.base = r₀.base
  agrees : r.Agrees l.sender.segments
  later : r₀.last ≤ r.last
  near : r.last ≤ r₀.last + 32768
  front : ∀ i, cause = .packet i → front = front₀
  space : ∀ i, cause = .packet i → w.conn.localWnd.windowSpace.toNat ≤ l.receiver.conn.localWnd.windowSpace.toNat

theorem Link.Sound.within (sound : l.Sound front r) : Within l cause front r l.receiver front r where
  base := rfl
  agrees := sound.agrees
  later := Nat.le_refl _
  near := Nat.le_add_right _ _
  front := fun _ _ => rfl
  space := fun _ _ => Nat.le_refl _

theorem Link.Arrives.payload (arrives : l.Arrives parser packet) (sound : l.Sound front r)
    (data : parser.header.type = stData) :
    (Input.mk parser packet).dataOff ≤ packet.size ∧
    (Input.mk parser packet).payload = packet.data.drop parser.dataOffset := by
  have inside := (sound.sender.sent _ arrives.sent parser arrives.parsed data).1
  have bound := packet.size_lt
  have offset : (Input.mk parser packet).dataOff.toNat = parser.dataOffset := by
    rw [Input.dataOff,UInt32.toNat_ofNat']
    exact Nat.mod_eq_of_lt (Nat.lt_of_le_of_lt inside bound)
  refine ⟨?_,by rw [Input.payload,offset]⟩
  rw [UInt32.le_iff_toNat_le,offset,packet.size_toNat]
  exact inside

-- During the call a data packet is still one that the code takes for what it is.
theorem Link.Arrives.count (arrives : l.Arrives parser packet) (sound : l.Sound front₀ r₀)
    (receiver : Receiver w front r) (within : Within l (.packet ⟨parser,packet⟩) front₀ r₀ w front r)
    (late : seqNrCmpSE parser.header.seqNr w.conn.localWnd.lastSeqNr = false)
    (room : ¬ w.conn.localWnd.windowSpace < packet.size - (Input.mk parser packet).dataOff) :
    w.conn.localWnd.nearFront parser.header.seqNr ∧
    ∃ k, countOf r.last w.conn.localWnd parser.header.seqNr = r.base + 1 + k ∧
      l.sender.segments[k]? = some (packet.data.drop parser.dataOffset) := by
  obtain ⟨k,⟨segment,number⟩,recent,span⟩ := arrives.recent
  have ⟨base,agrees,later,_,same,space⟩ := within
  have front_eq := same _ rfl
  have less := space _ rfl
  have base₀ := sound.base
  have reached := sound.reached
  have newest := Reassembly.last_le_of_agrees receiver.window.valid agrees
  have spread : r.last < l.first + k → l.first + k < front + 32768 := by
    intro ahead
    have close := span (by omega) (by
      rw [UInt32.lt_iff_toNat_lt] at room ⊢
      exact fun full => room (Nat.lt_of_le_of_lt less full))
    rw [sound.frontCount] at close
    omega
  obtain ⟨near,count⟩ := count_of_recent receiver.window number (by omega) recent late spread
  exact ⟨near,k,by omega,segment⟩

theorem Within.step (sound : l.Sound front₀ r₀) (allowed : l.Allowed (.receiver event)) (receiver : Receiver w front r)
    (receiver' : Receiver w' front' r') (progress : Progress event.cause w w' front r front' r')
    (within : Within l event.cause front₀ r₀ w front r) : Within l event.cause front₀ r₀ w' front' r' := by
  have ⟨base,agrees,later,near,same,space⟩ := within
  cases progress with
  | idle window => exact ⟨base,agrees,later,near,same,window ▸ space⟩
  | read asked reads =>
      refine ⟨reads.base.trans base,?_,by rw [reads.last]; exact later,by rw [reads.last]; exact near,?_,?_⟩
      · rw [Reassembly.Agrees,reads.base,reads.got]
        exact agrees
      · intro i handled
        cases asked.symm.trans handled
      · intro i handled
        cases asked.symm.trans handled
  | @stored i upTo handled data late inside nearby missing more room arrived =>
      cases event with
      | handlePacket parser packet =>
          cases handled
          have size : (packet.size - (Input.mk parser packet).dataOff).toNat = (Input.mk parser packet).payload.length := by
            rw [UInt32.toNat_sub_of_le _ _ inside,Input.payload,List.length_drop,packet.size_toNat]
          obtain ⟨_,k,count,segment⟩ := (allowed data).count sound receiver within late (by
            rw [UInt32.lt_iff_toNat_lt,size]
            omega)
          have bound := receiver'.window.last_le receiver'.window.valid
          have behind := sound.receiver.window.behind
          have ready := sound.receiver.window.valid.ready
          have front_eq := same _ rfl
          refine ⟨base,?_,Nat.le_trans later more,?_,same,?_⟩
          · intro k' found present
            by_cases here : r.base + 1 + k' = countOf r.last w.conn.localWnd parser.header.seqNr
            · have content : (r.store (countOf r.last w.conn.localWnd parser.header.seqNr) (Input.mk parser packet).payload upTo).got
                  (r.base + 1 + k') = some (Input.mk parser packet).payload := by
                rw [here]
                exact Function.update_self _ _ _
              have same_k : k' = k := by omega
              rw [same_k,segment,← ((allowed data).payload sound data).2]
              exact content.symm.trans present
            · refine agrees k' found ?_
              exact (Function.update_of_ne here _ _).symm.trans present
          · show upTo ≤ r₀.last + 32768
            have last : upTo + 1 ≤ front + 32768 := bound
            omega
          · intro i handled
            have less := space i handled
            omega
      | send | recv | close | reset | checkTimeout | handleTimeout => cases handled

theorem Link.Sound.settled_receiver (sound : l.Sound front r) (allowed : l.Allowed (.receiver event)) : Settled event.cause l.receiver := by
  refine ⟨sound.replies,⟨_,_,sound.receiver⟩,fun i handled data late room => ?_⟩
  cases event with
  | handlePacket parser packet =>
      cases handled
      exact ⟨((allowed data).payload sound data).1,((allowed data).count sound sound.receiver sound.within late room).1⟩
  | send | recv | close | reset | checkTimeout | handleTimeout => cases handled

theorem Link.Sound.receiver_step (sound : l.Sound front r) (allowed : l.Allowed (.receiver event)) :
    ∃ front' r', (l.step (.receiver event)).Sound front' r' := by
  have settled := sound.settled_receiver allowed
  obtain ⟨front',r',receiver,within⟩ := sound.receiver.steps (P := Within l event.cause front r) sound.within settled.fits
    (fun old new progress within => within.step sound allowed old new progress) (perform_steps l.receiver event)
  have later := within.later
  have near := within.near
  refine ⟨front',r',sound.sender,receiver,within.base ▸ sound.base,?_,within.agrees,?_,sound.accepted,?_,sound.own,
    (settled.steps (perform_steps l.receiver event)).sender⟩
  · show r'.last = l.reached + ((perform l.receiver event).conn.localWnd.lastSeqNr - l.receiver.conn.localWnd.lastSeqNr).toNat
    rw [receiver.window.lastSeqNr,sound.receiver.window.lastSeqNr,seqOf_sub_toNat later (by omega),← sound.reached]
    omega
  · intro n
    show (perform l.receiver event).accepts n = true
    rw [(perform_steps l.receiver event).forward_of.accepts]
    exact sound.accepts n
  · show l.returned ++ _ = (perform l.receiver event).delivered
    rw [perform_delivered _ _ sound.accepts,sound.returned]

theorem Link.Sound.answers (sound : l.Sound front r) (event : LinkEvent) (allowed : l.Allowed event) : l.Answers event := by
  cases event with
  | sender event =>
      refine (sound.settled_sender allowed).answers ?_
      rintro maxLen rfl
      exact allowed
  | receiver event =>
      refine (sound.settled_receiver allowed).answers ?_
      rintro maxLen rfl
      exact allowed

-- Any connection after the handshake can send, and its window is empty.
theorem Established.sender (established : Established w) (number : w.conn.stats.seqNr = seqOf first) : Sender first w := by
  obtain ⟨sent,segments,accepted,_⟩ := established.history
  refine ⟨established.accepts,?_,?_,established.packetSize,?_,?_⟩
  · rw [accepted,segments,established.outputBuffer]
    rfl
  · rw [segments,number]
    rfl
  · rw [established.unackedPackets]
    intro p none
    cases none
  · rw [sent]
    intro bytes none
    cases none

theorem Established.receiver (established : Established w) (number : seqOf last = w.conn.localWnd.lastSeqNr) :
    Receiver w (last + 1) (.start last) := by
  obtain ⟨_,_,_,_,delivered,_⟩ := established.history
  refine ⟨?_,?_,?_⟩
  · rw [established.state]
  · rw [established.window]
    exact fresh_repr _ _ _ number
  · rw [delivered,Reassembly.start_delivered]

theorem Link.Starts.sound (starts : l.Starts) : l.Sound l.first (.start l.reached) := by
  obtain ⟨sender,receiver,numbers,reached,first,history⟩ := starts
  have number : seqOf l.reached = l.lastSeqNr := by rw [reached,seqOf_of_toNat]
  have next : l.sender.conn.stats.seqNr = seqOf l.first := by
    rw [first,← seqOf_succ,number,numbers]
    exact (UInt16.sub_add_cancel _ _).symm
  refine ⟨sender.sender next,first ▸ receiver.receiver number,first.symm,rfl,?_,receiver.accepts,?_,?_,
    ⟨_,_,sender.receiver (seqOf_of_toNat _)⟩,⟨_,receiver.sender (seqOf_of_toNat _).symm⟩⟩
  · intro k segment present
    cases present
  · rw [history.1,sender.history.2.2.1]
  · rw [history.2,receiver.history.2.2.2.2.1]

theorem Link.Reached.sound {origin : Link} (starts : origin.Starts) (reached : Link.Reached origin l) : ∃ front r, l.Sound front r := by
  induction reached with
  | start => exact ⟨_,_,starts.sound⟩
  | step event _ allowed ih =>
      obtain ⟨front,r,sound⟩ := ih
      cases event with
      | sender event => exact ⟨front,r,sound.sender_step allowed⟩
      | receiver event => exact sound.receiver_step allowed

end

-- In every run that only reads what can be read, what recv has returned is a prefix of
-- what send has accepted, every data packet in the network is a copy of a packet of the
-- stream, and every call returns.
theorem stream_integrity (origin l : Link) (starts : origin.Starts) (reached : Link.Reached origin l) :
    l.returned <+: l.accepted ∧ (∀ bytes ∈ l.sender.sent, Genuine l.first l.sender.segments bytes) ∧
      ∀ event, l.Allowed event → l.Answers event := by
  obtain ⟨front,r,sound⟩ := Link.Reached.sound starts reached
  refine ⟨?_,sound.sender.sent,sound.answers⟩
  rw [sound.returned,sound.accepted,sound.receiver.delivered,sound.sender.accepted]
  exact (Reassembly.delivered_prefix sound.receiver.window.valid sound.agrees).trans (List.prefix_append _ _)

-- Two connections in a quiet world: the first calls, the second answers.
def roomForFour : CircularBuffer := .new [0,0,0,0] (by decide) (by decide)

def World.hears (w : World) (bytes : List UInt8) : World :=
  match parse bytes with
  | .accepted parser => if inside : bytes.length < 2 ^ 32 then perform w (.handlePacket parser ⟨bytes,inside⟩) else w
  | _ => w

def World.forget (w : World) : World :=
  {w with sent := [],segments := [],accepted := [],arrived := [],delivered := [],closings := []}

def dialing : World := after startConnecting (.calm (.new 7 .outgoing (.idle,0) roomForFour ⟨0,0⟩))
def answering : World := (World.calm (.new 8 .incoming (.idle,0) roomForFour ⟨0,0⟩)).hears (dialing.sent.headD [])

def shakenHands : Link where
  sender := (dialing.hears (answering.sent.headD [])).forget
  receiver := answering.forget
  first := 2
  reached := 1
  accepted := []
  returned := []

theorem shakenHands_starts : shakenHands.Starts where
  sender := ⟨by decide,by decide,by decide,by decide,rfl,by decide,⟨rfl,rfl,rfl,rfl,rfl,rfl⟩,fun _ => rfl⟩
  receiver := ⟨by decide,by decide,by decide,by decide,rfl,by decide,⟨rfl,rfl,rfl,rfl,rfl,rfl⟩,fun _ => rfl⟩
  numbers := by decide
  reached := by decide
  first := rfl
  history := ⟨rfl,rfl⟩

-- Three bytes, their packet twice, and a read.
def spoken : Link := shakenHands.step (.sender (.send [1,2,3]))

def threeBytes : Buffer := ⟨spoken.sender.sent.headD [],by decide +kernel⟩

def threeBytesParser : PacketParser := ⟨Header.read threeBytes.data,none,20⟩

def heardTwice : Link :=
  (spoken.step (.receiver (.handlePacket threeBytesParser threeBytes))).step (.receiver (.handlePacket threeBytesParser threeBytes))

theorem heardTwice_reached : Link.Reached shakenHands heardTwice := by
  have genuine : threeBytes.data ∈ spoken.sender.sent ∧ parse threeBytes.data = .accepted threeBytesParser ∧
      spoken.sender.segments[0]? = some (threeBytes.data.drop threeBytesParser.dataOffset) ∧
      threeBytesParser.header.seqNr = seqOf (spoken.first + 0) ∧ spoken.sender.segments.length ≤ 0 + 32768 := by
    decide +kernel
  have spans : spoken.first + 0 < spoken.frontCount + 32768 ∧
      spoken.first + 0 < (spoken.step (.receiver (.handlePacket threeBytesParser threeBytes))).frontCount + 32768 := by
    decide +kernel
  obtain ⟨sent,parsed,segment,number,recent⟩ := genuine
  refine .step _ (.step _ (.step (.sender (.send [1,2,3])) .start trivial) ?_) ?_
  · exact fun _ => ⟨sent,parsed,0,⟨segment,number⟩,recent,fun _ _ => spans.1⟩
  · exact fun _ => ⟨sent,parsed,0,⟨segment,number⟩,recent,fun _ _ => spans.2⟩

def heardAndRead : Link := heardTwice.step (.receiver (.recv 10))

theorem stream_integrity_spoken :
    heardAndRead.returned = [1,2,3] ∧ heardAndRead.returned <+: heardAndRead.accepted ∧
      (∀ bytes ∈ heardAndRead.sender.sent, Genuine heardAndRead.first heardAndRead.sender.segments bytes) ∧
      ∀ event, heardAndRead.Allowed event → heardAndRead.Answers event :=
  ⟨by decide +kernel,stream_integrity shakenHands heardAndRead shakenHands_starts
    (.step (.receiver (.recv 10)) heardTwice_reached (.inl (by decide +kernel)))⟩

-- Before the first data packet the window has no slot, and read asks for the front of a
-- vector without elements.
theorem recv_before_data :
    (∃ w, recv 10 shakenHands.receiver = .error .undefined w) ∧
      ¬ ∀ (origin : Link) (maxLen : UInt32), origin.Starts → origin.Answers (.receiver (.recv maxLen)) := by
  have undefined : ∃ w, recv 10 shakenHands.receiver = .error .undefined w := ⟨_,rfl⟩
  refine ⟨undefined,fun claimed => ?_⟩
  obtain ⟨w,result⟩ := undefined
  have returned : wp (recv 10) (fun _ _ => True) (fun _ _ => False) shakenHands.receiver := claimed shakenHands 10 shakenHands_starts
  exact wp_error returned result

end KtorrentStream.Utp
