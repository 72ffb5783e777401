import KtorrentStream.Utp.Protocol
set_option autoImplicit true

namespace KtorrentStream.Utp

-- A slot of the local window. A slot without a packet is either a gap, for a
-- packet that has not arrived, or one that has been read and not yet erased.
structure WindowPacket where
  seqNr : UInt16
  packet : Option Buffer
  bytesRead : UInt32
  deriving DecidableEq

def WindowPacket.gap (seqNr : UInt16) : WindowPacket := ⟨seqNr,none,0⟩

def WindowPacket.holds (pkt : WindowPacket) : Bool := pkt.packet.isSome

-- The two functions follow the packet pointer of the slot, `packet` here. The
-- read copies memory behind the packet when bytes_read is past its size.
def WindowPacket.read (pkt : WindowPacket) (packet : Buffer) (maxLen : Nat) : Option (WindowPacket × List UInt8) :=
  let toRead := min (packet.size - pkt.bytesRead).toNat maxLen
  if packet.size < pkt.bytesRead then none
  else some ({pkt with bytesRead := pkt.bytesRead + UInt32.ofNat toRead},(packet.data.drop pkt.bytesRead.toNat).take toRead)

def WindowPacket.fullyRead (pkt : WindowPacket) (packet : Buffer) : Bool := pkt.bytesRead == packet.size

structure LocalWindow where
  lastSeqNr : UInt16
  firstSeqNr : UInt16
  capacity : UInt32
  incomingPackets : List WindowPacket
  windowSpace : UInt32
  bytesAvailable : UInt32
  deriving DecidableEq

def LocalWindow.new (cap : UInt32) : LocalWindow := ⟨0,0,cap,[],cap,0⟩

def LocalWindow.setLastSeqNr (w : LocalWindow) (lsn : UInt16) : LocalWindow :=
  {w with lastSeqNr := lsn,firstSeqNr := lsn}

def LocalWindow.isEmpty (w : LocalWindow) : Bool := w.incomingPackets.isEmpty

def LocalWindow.isReadable (w : LocalWindow) : Bool := w.bytesAvailable > 0


-- The loop of read. A round that goes on has cleared a packet, so there are no
-- more rounds than slots.
def LocalWindow.readLoop (maxLen : UInt32) : Nat → LocalWindow → UInt16 → List UInt8 → Option (LocalWindow × List UInt8)
  | 0,_,_,_ => none
  | fuel + 1,w,off,written =>
      match w.incomingPackets[off.toNat]? with
      | none => some (w,written)
      | some pkt =>
          match pkt.packet with
          | none => some (w,written)
          | some packet =>
              if seqNrCmpSE pkt.seqNr w.lastSeqNr ∧ written.length < maxLen.toNat then
                match pkt.read packet (maxLen.toNat - written.length) with
                | none => none
                | some (pkt',bytes) =>
                    let w' := {w with
                      windowSpace := w.windowSpace + UInt32.ofNat bytes.length
                      bytesAvailable := w.bytesAvailable - UInt32.ofNat bytes.length}
                    if pkt'.fullyRead packet then
                      readLoop maxLen fuel
                        {w' with
                          incomingPackets := w.incomingPackets.set off.toNat {pkt' with packet := none}
                          firstSeqNr := w.firstSeqNr + 1}
                        (off + 1) (written ++ bytes)
                    else some ({w' with incomingPackets := w.incomingPackets.set off.toNat pkt'},written ++ bytes)
              else some (w,written)

-- Slots that have been read are erased more than 20 at a time.
def LocalWindow.eraseRead (w : LocalWindow) : Option LocalWindow :=
  match w.incomingPackets.head? with
  | none => none
  | some front =>
      let off := seqNrDiff front.seqNr w.firstSeqNr
      if off > 20 then
        if off.toNat ≤ w.incomingPackets.length then
          some {w with incomingPackets := w.incomingPackets.drop off.toNat}
        else none
      else some w

-- front() is asked of a vector that may be empty; then nothing is said about
-- what happens.
def LocalWindow.read (w : LocalWindow) (maxLen : UInt32) : Option (LocalWindow × List UInt8) :=
  match w.incomingPackets.head? with
  | none => none
  | some front =>
      match w.readLoop maxLen (w.incomingPackets.length + 1) (seqNrDiff front.seqNr w.firstSeqNr) [] with
      | none => none
      | some (w',written) =>
          match w'.eraseRead with
          | none => none
          | some w'' => some (w'',written)

def gapLoop (upTo : UInt16) : Nat → UInt16 → List WindowPacket
  | 0,_ => []
  | fuel + 1,i => if seqNrCmpS i upTo then .gap i :: gapLoop upTo fuel (i + 1) else []

-- The loop has come to upTo, where the comparison fails, after this many rounds.
def gaps (i upTo : UInt16) : List WindowPacket := gapLoop upTo (upTo - i).toNat i

-- Where packetReceived puts a packet that is ahead of last_seq_nr and for which
-- there is space.
inductive Place where
  | undefined
  | alreadyGot
  | placed (w : LocalWindow)

def LocalWindow.place (w : LocalWindow) (seqNr : UInt16) (packet : Buffer) (dataOff : UInt32) : Place :=
  match w.incomingPackets.head?,w.incomingPackets.getLast? with
  | some front,some back =>
      if seqNrCmpS back.seqNr seqNr then
        .placed {w with incomingPackets :=
          w.incomingPackets ++ gaps (back.seqNr + 1) seqNr ++ [⟨seqNr,some packet,dataOff⟩]}
      else
        let off := (seqNrDiff front.seqNr seqNr).toNat
        match w.incomingPackets[off]? with
        | none => .undefined
        | some slot =>
            if slot.holds then .alreadyGot
            else .placed {w with incomingPackets :=
              w.incomingPackets.set off {slot with packet := some packet,bytesRead := dataOff}}
  | _,_ =>
      .placed {w with
        firstSeqNr := w.lastSeqNr + 1
        incomingPackets := gaps (w.lastSeqNr + 1) seqNr ++ [⟨seqNr,some packet,dataOff⟩]}

-- The loop that moves last_seq_nr over the packets that follow. off is a Uint16,
-- so with 65536 slots or more, all of them held, the loop does not end.
def LocalWindow.advanceLoop : Nat → LocalWindow → UInt16 → UInt16 → Option LocalWindow
  | 0,_,_,_ => none
  | fuel + 1,w,off,nextSeqNr =>
      match w.incomingPackets[off.toNat]? with
      | none => some w
      | some pkt =>
          match pkt.packet with
          | none => some w
          | some packet =>
              advanceLoop fuel
                {w with
                  bytesAvailable := w.bytesAvailable + (packet.size - pkt.bytesRead)
                  lastSeqNr := nextSeqNr}
                (off + 1) (nextSeqNr + 1)

def LocalWindow.advance (w : LocalWindow) (seqNr : UInt16) (dataSize : UInt32) : Option LocalWindow :=
  match w.incomingPackets.head? with
  | none => none
  | some front =>
      if seqNr = w.lastSeqNr + 1 then
        let w' := {w with bytesAvailable := w.bytesAvailable + dataSize,lastSeqNr := seqNr}
        w'.advanceLoop (w.incomingPackets.length + 1) (seqNrDiff front.seqNr (seqNr + 1)) (seqNr + 1)
      else some w

-- packetReceived returns true for a duplicate and for a stored packet. The
-- outcome keeps the two apart.
inductive Received where
  | duplicate
  | noSpace
  | stored
  deriving DecidableEq

def LocalWindow.packetReceived (w : LocalWindow) (seqNr : UInt16) (packet : Buffer) (dataOff : UInt32) :
    Option (LocalWindow × Received) :=
  if seqNrCmpSE seqNr w.lastSeqNr then some (w,.duplicate)
  else
    let dataSize := packet.size - dataOff
    if w.windowSpace < dataSize then some (w,.noSpace)
    else match w.place seqNr packet dataOff with
      | .undefined => none
      | .alreadyGot => some (w,.duplicate)
      | .placed w' =>
          match w'.advance seqNr dataSize with
          | none => none
          | some w'' => some ({w'' with windowSpace := w''.windowSpace - dataSize},.stored)

def LocalWindow.selectiveAckBits (w : LocalWindow) : UInt32 :=
  match w.incomingPackets.getLast? with
  | none => 0
  | some back =>
      if seqNrCmpS w.lastSeqNr back.seqNr then (seqNrDiff w.lastSeqNr back.seqNr).toUInt32 - 1
      else 0

-- std::upper_bound on slots in the order of their numbers: the first slot that
-- the number comes before. The mask has been cleared by then.
def LocalWindow.fillSelectiveAck (w : LocalWindow) (sack : SelectiveAck) : SelectiveAck :=
  let cleared := {sack with
    bitmask := List.replicate sack.length.toNat 0
    sized := List.length_replicate}
  (w.incomingPackets.dropWhile fun pkt => !seqNrCmpS (w.lastSeqNr + 1) pkt.seqNr).foldl
    (fun sack pkt => if pkt.holds then ack sack (seqNrDiff w.lastSeqNr pkt.seqNr) else sack) cleared

theorem fillSelectiveAck_shape (w : LocalWindow) (sack : SelectiveAck) :
    (w.fillSelectiveAck sack).length = sack.length ∧ (w.fillSelectiveAck sack).extension = sack.extension := by
  have folded : ∀ (slots : List WindowPacket) (start : SelectiveAck),
      (slots.foldl (fun sack pkt => if pkt.holds then ack sack (seqNrDiff w.lastSeqNr pkt.seqNr) else sack) start).length =
        start.length ∧
      (slots.foldl (fun sack pkt => if pkt.holds then ack sack (seqNrDiff w.lastSeqNr pkt.seqNr) else sack) start).extension =
        start.extension := by
    intro slots
    induction slots with
    | nil => exact fun _ => ⟨rfl,rfl⟩
    | cons pkt rest ih =>
        intro start
        rw [List.foldl_cons]
        split
        · exact ⟨(ih _).1.trans (ack_length _ _),(ih _).2.trans (ack_extension _ _)⟩
        · exact ih start
  exact folded _ _

end KtorrentStream.Utp
