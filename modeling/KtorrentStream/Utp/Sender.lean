import KtorrentStream.Utp.Lifecycle
set_option autoImplicit true

namespace KtorrentStream.Utp
open KtorrentStream.Lib KtorrentStream.Util

-- Packet k of a stream whose first packet has the count `first`.
def IsSegment (first : Nat) (segments : List (List UInt8)) (k : Nat) (seqNr : UInt16) (payload : List UInt8) : Prop :=
  segments[k]? = some payload ∧ seqNr = seqOf (first + k)

theorem IsSegment.append (segment : IsSegment first segments k seqNr payload) (more : List (List UInt8)) :
    IsSegment first (segments ++ more) k seqNr payload := by
  refine ⟨?_,segment.2⟩
  rw [List.getElem?_append_left (List.getElem?_eq_some_iff.mp segment.1).choose]
  exact segment.1

theorem IsSegment.newest (first : Nat) (segments : List (List UInt8)) (payload : List UInt8) :
    IsSegment first (segments ++ [payload]) segments.length (seqOf (first + segments.length)) payload :=
  ⟨List.getElem?_concat_length,rfl⟩

-- A datagram that carries data is a copy of a packet of the stream.
def Genuine (first : Nat) (segments : List (List UInt8)) (bytes : List UInt8) : Prop :=
  ∀ parser, parse bytes = .accepted parser → parser.header.type = stData → parser.dataOffset ≤ bytes.length ∧
    ∃ k, IsSegment first segments k parser.header.seqNr (bytes.drop parser.dataOffset)

theorem Genuine.append (genuine : Genuine first segments bytes) (more : List (List UInt8)) :
    Genuine first (segments ++ more) bytes := by
  intro parser parsed data
  obtain ⟨inside,k,segment⟩ := genuine parser parsed data
  exact ⟨inside,k,segment.append more⟩

theorem genuine_control (c : Connection) (other : type ≠ stData) :
    Genuine first segments (c.datagram type seqNr ackNr now payload) := by
  intro parser parsed data
  rw [parse_datagram] at parsed
  cases parsed
  exact absurd data other

theorem genuine_data (c : Connection) (segment : IsSegment first segments k seqNr payload) :
    Genuine first segments (c.datagram type seqNr ackNr now payload) := by
  intro parser parsed data
  rw [parse_datagram] at parsed
  cases parsed
  refine ⟨?_,k,?_⟩
  · simp [Connection.datagram,extensionBytes_length]
  · rw [datagram_payload]
    exact segment

-- A packet that was refused before it could go into flight: it was to carry the next
-- bytes of the stream.
def Refusal.FirstTransmission (refusal : Refusal) : Prop :=
  ∃ parser, parse refusal.datagram = .accepted parser ∧ parser.header.type = stData ∧ parser.header.seqNr = refusal.seqNr

-- What has been accepted is in the packets of the stream or still in the output
-- buffer, and all that is kept for retransmission or has been transmitted are
-- copies of packets of the stream.
structure Carrier (first : Nat) (w : World) : Prop where
  accepted : w.accepted = w.segments.flatten ++ w.conn.outputBuffer.contents
  seqNr : w.conn.stats.seqNr = seqOf (first + w.segments.length)
  packetSize : w.conn.stats.packetSize ≤ fullPacketSize
  unacked : ∀ p ∈ w.conn.remoteWnd.unackedPackets, p.packet.Roomy ∧
    ∃ k, IsSegment first w.segments k p.seqNr p.packet.payloadBytes
  sent : ∀ bytes ∈ w.sent, Genuine first w.segments bytes

structure Sender (first : Nat) (w : World) : Prop where
  accepts : ∀ n, w.accepts n = true
  accepted : w.accepted = w.segments.flatten ++ w.conn.outputBuffer.contents
  seqNr : w.conn.stats.seqNr = seqOf (first + w.segments.length)
  packetSize : w.conn.stats.packetSize ≤ fullPacketSize
  unacked : ∀ p ∈ w.conn.remoteWnd.unackedPackets, p.packet.Roomy ∧
    ∃ k, IsSegment first w.segments k p.seqNr p.packet.payloadBytes
  sent : ∀ bytes ∈ w.sent, Genuine first w.segments bytes

theorem firstTransmission_datagram (c : Connection) (seqNr ackNr : UInt16) (now : TimeValue) (payload : List UInt8) :
    Refusal.FirstTransmission ⟨seqNr,c.datagram stData seqNr ackNr now payload⟩ :=
  ⟨_,parse_datagram c stData seqNr ackNr now payload,rfl,rfl⟩

theorem ackPackets_left (hdr : Header) (sack : Option SelectiveAck) (packets : List UnackedPacket) :
    (ackPackets hdr sack packets).2.Sublist packets := by
  induction packets with
  | nil => exact .slnil
  | cons p rest ih =>
      simp only [ackPackets]
      split
      · exact .cons p ih
      · split
        · exact .refl _
        · split
          · exact .cons p ih
          · exact .cons_cons p ih

theorem related_mem {R : α → β → Prop} (related : List.Forall₂ R l l') (among : b ∈ l') : ∃ a ∈ l, R a b := by
  induction related with
  | nil => cases among
  | cons here _ ih =>
      obtain rfl | later := List.mem_cons.mp among
      · exact ⟨_,List.mem_cons_self,here⟩
      · obtain ⟨a,old,there⟩ := ih later
        exact ⟨a,List.mem_cons_of_mem _ old,there⟩

section
variable {w w' : World} {first : Nat}

theorem Carrier.same (carrier : Carrier first w) (same : Same w w') (sent : ∀ bytes ∈ w'.sent, Genuine first w.segments bytes) :
    Carrier first w' where
  accepted := by rw [same.accepted,same.segments,same.outputBuffer,carrier.accepted]
  seqNr := by rw [same.seqNr,same.segments,carrier.seqNr]
  packetSize := by
    obtain equal | small := same.packetSize
    · exact equal ▸ carrier.packetSize
    · exact small
  unacked := by
    rw [same.unackedPackets,same.segments]
    exact carrier.unacked
  sent := by
    rw [same.segments]
    exact sent

theorem mem_append_one {P : α → Prop} (all : ∀ x ∈ l, P x) (last : P a) : ∀ x ∈ l ++ [a], P x := by
  intro x among
  obtain old | new := List.mem_append.mp among
  · exact all x old
  · exact List.mem_singleton.mp new ▸ last

-- A packet of the stream that is refused takes its bytes with it. Every other step
-- keeps them.
theorem Carrier.step (carrier : Carrier first w) (step : Step cause w w')
    (kept : Refused w → ¬ ∃ refusal ∈ w'.refused, refusal.FirstTransmission) : Carrier first w' := by
  have ⟨accepted,seqNr,packetSize,unacked,sent⟩ := carrier
  cases step with
  | quiet same silent => exact carrier.same same (silent ▸ sent)
  | control type ackNr now other _ same sent' =>
      exact carrier.same same (sent' ▸ mem_append_one sent (genuine_control _ other))
  | resent p now among same sent' shape =>
      obtain ⟨roomy,k,segment⟩ := unacked p among
      refine carrier.same same (sent' ▸ mem_append_one sent ?_)
      rw [shape roomy]
      exact genuine_data _ segment
  | refreshed packets alike maxWindow =>
      refine ⟨accepted,seqNr,packetSize,?_,sent⟩
      intro p' among
      obtain ⟨p,among,same⟩ := related_mem alike among
      obtain ⟨roomy,k,segment⟩ := unacked p among
      refine ⟨same.roomy roomy,k,?_⟩
      rw [same.seqNr,same.payloadBytes roomy]
      exact segment
  | fresh p now count outputBuffer some_bytes present allowed short payload room content number rest same sent' =>
      have size : fullPacketSize.toNat = 1452 := rfl
      have small := UInt32.le_iff_toNat_le.mp packetSize
      have max : maxSize = 1500 := rfl
      have segment : IsSegment first (w.segments ++ [p.packet.payloadBytes]) w.segments.length p.seqNr p.packet.payloadBytes := by
        rw [number,seqNr]
        exact .newest first w.segments _
      have flying : Carrier first (w.inFlight p outputBuffer) := by
        refine ⟨?_,?_,packetSize,mem_append_one ?_ ⟨⟨_,payload,by omega⟩,_,segment⟩,fun bytes among => (sent bytes among).append _⟩
        · show w.accepted = (w.segments ++ [p.packet.payloadBytes]).flatten ++ outputBuffer.contents
          rw [accepted,List.flatten_append,rest,content]
          simp
        · show w.conn.stats.seqNr + 1 = seqOf (first + (w.segments ++ [_]).length)
          rw [List.length_append,List.length_singleton,← Nat.add_assoc,← seqOf_succ,seqNr]
        · intro q among
          obtain ⟨roomy,k,old⟩ := unacked q among
          exact ⟨roomy,k,old.append _⟩
      exact flying.same same (sent' ▸ mem_append_one flying.sent (genuine_data _ segment))
  | spilled _ _ refused _ _ _ logged =>
      exact absurd ⟨_,logged,firstTransmission_datagram _ _ _ _ _⟩ (kept ⟨_,refused⟩)
  | buffered data connected =>
      refine ⟨?_,seqNr,packetSize,unacked,sent⟩
      rw [accepted,(w.conn.outputBuffer.write_contents data).1,List.append_assoc]
  | acked i _ same silent =>
      have left : Carrier first (w.withAcks i.parser) :=
        ⟨accepted,seqNr,packetSize,fun p among => unacked p ((ackPackets_left _ _ _).subset among),sent⟩
      exact left.same same (silent ▸ sent)
  | received | read | handshake | forward | fin | drained => exact ⟨accepted,seqNr,packetSize,unacked,sent⟩
  | cleared =>
      refine ⟨accepted,seqNr,packetSize,?_,sent⟩
      intro p among
      cases among

theorem Sender.step (sender : Sender first w) (step : Step cause w w') : Sender first w' := by
  have carrier : Carrier first w := ⟨sender.accepted,sender.seqNr,sender.packetSize,sender.unacked,sender.sent⟩
  have willing : ¬ Refused w := by
    rintro ⟨n,refused⟩
    rw [sender.accepts n] at refused
    cases refused
  obtain ⟨accepted,seqNr,packetSize,unacked,sent⟩ := carrier.step step fun refused => absurd refused willing
  exact ⟨step.forward_of.accepts ▸ sender.accepts,accepted,seqNr,packetSize,unacked,sent⟩

theorem Sender.steps (sender : Sender first w) (steps : Steps cause w w') : Sender first w' := by
  induction steps with
  | refl => exact sender
  | tail _ step ih => exact ih.step step

end
end KtorrentStream.Utp
