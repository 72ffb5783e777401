import KtorrentStream.Utp.Stream
set_option autoImplicit true

namespace KtorrentStream.Utp
open KtorrentStream.Lib KtorrentStream.Util

-- What an acknowledgement says about a number: it is not after ack_nr, or its bit is
-- set in the selective ack.
def PacketParser.Acknowledges (parser : PacketParser) (seqNr : UInt16) : Prop :=
  seqNrCmpSE seqNr parser.header.ackNr ∨ ∃ mask, parser.selectiveAck = some mask ∧ acked mask (seqNr - parser.header.ackNr)

def Cause.Acknowledges (first : Nat) (cause : Cause) (k : Nat) : Prop :=
  ∃ i, cause = .packet i ∧ i.parser.Acknowledges (seqOf (first + k))

-- Packet k of the stream has been sent and acknowledged in the course of the run.
def Acknowledged (first : Nat) (w : World) (events : List Event) (k : Nat) : Prop :=
  ∃ earlier event later, events = earlier ++ event :: later ∧ event.cause.Acknowledges first k ∧
    k < (performAll w (earlier ++ [event])).segments.length

-- The accepted bytes are the packets of the stream, one after the other, and the
-- output buffer. `flying` are the packets that are kept for retransmission, in their
-- order; every other one has been acknowledged.
structure Ledger (first : Nat) (acknowledged : Nat → Prop) (w : World) (flying : List Nat) : Prop extends Carrier first w where
  kept : List.Forall₂ (fun k p => IsSegment first w.segments k p.seqNr p.packet.payloadBytes) flying
    w.conn.remoteWnd.unackedPackets
  ordered : flying.Pairwise (· < ·)
  settled : ∀ k < w.segments.length, k ∈ flying ∨ acknowledged k

-- A connection on which nothing has been sent yet. The next packet is the one with
-- the count `first`.
structure Opened (first : Nat) (w : World) : Prop where
  seqNr : w.conn.stats.seqNr = seqOf first
  packetSize : w.conn.stats.packetSize ≤ fullPacketSize
  outputBuffer : w.conn.outputBuffer.contents = []
  unackedPackets : w.conn.remoteWnd.unackedPackets = []
  history : w.accepted = [] ∧ w.segments = [] ∧ w.sent = []

theorem Opened.ledger (opened : Opened first w) : Ledger first acknowledged w [] := by
  obtain ⟨seqNr,packetSize,outputBuffer,unackedPackets,accepted,segments,sent⟩ := opened
  refine ⟨⟨?_,?_,packetSize,?_,?_⟩,?_,.nil,?_⟩
  · rw [accepted,segments,outputBuffer]
    rfl
  · rw [segments]
    exact seqNr
  · rw [unackedPackets]
    intro p none
    cases none
  · rw [sent]
    intro bytes none
    cases none
  · rw [unackedPackets]
    exact .nil
  · rw [segments]
    intro k none
    cases none

theorem ackPackets_kept {R : Nat → UnackedPacket → Prop} (parser : PacketParser) (kept : List.Forall₂ R flying packets) :
    ∃ flying', flying'.Sublist flying ∧
      List.Forall₂ R flying' (ackPackets parser.header parser.selectiveAck packets).2 ∧
      ∀ k ∈ flying, k ∈ flying' ∨ ∃ p, R k p ∧ parser.Acknowledges p.seqNr := by
  induction kept with
  | nil => exact ⟨[],.slnil,.nil,fun k none => absurd none List.not_mem_nil⟩
  | @cons k p flying packets same later ih =>
      obtain ⟨flying',fewer,left,settled⟩ := ih
      have removed : parser.Acknowledges p.seqNr →
          ∀ j ∈ k :: flying, j ∈ flying' ∨ ∃ q, R j q ∧ parser.Acknowledges q.seqNr := by
        intro acknowledges j among
        obtain rfl | among := List.mem_cons.mp among
        · exact .inr ⟨p,same,acknowledges⟩
        · exact settled j among
      simp only [ackPackets]
      split
      · rename_i before
        exact ⟨flying',.cons k fewer,left,removed (.inl before)⟩
      · split
        · exact ⟨k :: flying,.refl _,.cons same later,fun j among => .inl among⟩
        · rename_i mask marked
          split
          · rename_i bit
            exact ⟨flying',.cons k fewer,left,removed (.inr ⟨mask,marked,bit⟩)⟩
          · refine ⟨k :: flying',.cons_cons k fewer,.cons same left,?_⟩
            intro j among
            obtain rfl | among := List.mem_cons.mp among
            · exact .inl List.mem_cons_self
            · exact (settled j among).imp_left (List.mem_cons_of_mem _)

theorem kept_alike (alike : List.Forall₂ SamePacket packets packets')
    (kept : List.Forall₂ (fun k p => IsSegment first segments k p.seqNr p.packet.payloadBytes) flying packets)
    (roomy : ∀ p ∈ packets, p.packet.Roomy) :
    List.Forall₂ (fun k p => IsSegment first segments k p.seqNr p.packet.payloadBytes) flying packets' := by
  induction alike generalizing flying with
  | nil =>
      cases kept
      exact .nil
  | cons same _ ih =>
      cases kept with
      | cons segment kept =>
          refine .cons ?_ (ih kept fun p among => roomy p (List.mem_cons_of_mem _ among))
          rw [same.seqNr,same.payloadBytes (roomy _ List.mem_cons_self)]
          exact segment

theorem Step.refused_of (step : Step cause w w') : w.refused <+: w'.refused := by
  cases step with
  | quiet same => exact same.refused
  | control _ _ _ _ _ same => exact same.refused
  | resent _ _ _ same => exact same.refused
  | fresh _ _ _ _ _ _ _ _ _ _ _ _ _ same => exact same.refused
  | spilled _ _ _ _ same => exact same.refused
  | acked _ _ same => exact same.refused
  | refreshed | buffered | received | read | handshake | forward | fin | drained | cleared => exact List.prefix_refl _

theorem Steps.refused_of (steps : Steps cause w w') : w.refused <+: w'.refused := by
  induction steps with
  | refl => exact List.prefix_refl _
  | tail _ step ih => exact ih.trans step.refused_of

section
variable {w w' : World} {first : Nat} {acknowledged : Nat → Prop} {flying : List Nat}

theorem Ledger.same (ledger : Ledger first acknowledged w flying) (same : Same w w') (carrier : Carrier first w') :
    Ledger first acknowledged w' flying where
  toCarrier := carrier
  kept := by
    rw [same.segments,same.unackedPackets]
    exact ledger.kept
  ordered := ledger.ordered
  settled := by
    rw [same.segments]
    exact ledger.settled

theorem Ledger.appended {p : UnackedPacket} (ledger : Ledger first acknowledged w flying) (number : p.seqNr = w.conn.stats.seqNr)
    (outputBuffer : CircularBuffer) (same : Same (w.inFlight p outputBuffer) w') (carrier : Carrier first w') :
    Ledger first acknowledged w' (flying ++ [w.segments.length]) where
  toCarrier := carrier
  kept := by
    rw [same.segments,same.unackedPackets]
    refine List.rel_append (ledger.kept.imp fun k p segment => segment.append _) (.cons ?_ .nil)
    rw [number,ledger.seqNr]
    exact .newest first w.segments _
  ordered := by
    refine List.pairwise_append.mpr ⟨ledger.ordered,List.pairwise_singleton _ _,?_⟩
    intro k old newest new
    obtain rfl := List.mem_singleton.mp new
    obtain ⟨p,_,segment⟩ := related_mem ledger.kept.flip old
    exact (List.getElem?_eq_some_iff.mp segment.1).choose
  settled := by
    rw [same.segments]
    intro k sent
    rw [World.inFlight,List.length_append,List.length_singleton] at sent
    obtain old | rfl := Nat.lt_succ_iff_lt_or_eq.mp sent
    · exact (ledger.settled k old).imp_left (List.mem_append_left _)
    · exact .inl (List.mem_append_right _ List.mem_cons_self)

theorem Ledger.step (ledger : Ledger first acknowledged w flying) (step : Step cause w w') (uncleared : cause ≠ .reset)
    (kept : ¬ ∃ refusal ∈ w'.refused, refusal.FirstTransmission)
    (recorded : ∀ k < w'.segments.length, cause.Acknowledges first k → acknowledged k) :
    ∃ flying', Ledger first acknowledged w' flying' := by
  have carrier := ledger.toCarrier.step step fun _ => kept
  cases step with
  | quiet same => exact ⟨flying,ledger.same same carrier⟩
  | control _ _ _ _ _ same => exact ⟨flying,ledger.same same carrier⟩
  | resent _ _ _ same => exact ⟨flying,ledger.same same carrier⟩
  | refreshed packets alike =>
      exact ⟨flying,carrier,kept_alike alike ledger.kept fun p among => (ledger.unacked p among).1,ledger.ordered,ledger.settled⟩
  | fresh p _ _ outputBuffer _ _ _ _ _ _ _ number _ same => exact ⟨_,ledger.appended number outputBuffer same carrier⟩
  | spilled _ _ _ _ _ _ logged => exact absurd ⟨_,logged,firstTransmission_datagram _ _ _ _ _⟩ kept
  | acked i handled same =>
      obtain ⟨flying',fewer,left,gone⟩ := ackPackets_kept i.parser ledger.kept
      refine ⟨flying',carrier,?_,ledger.ordered.sublist fewer,?_⟩
      · rw [same.segments,same.unackedPackets]
        exact left
      · intro k sent
        have sent' := sent
        rw [same.segments] at sent'
        obtain there | already := ledger.settled k sent'
        · refine (gone k there).imp_right ?_
          rintro ⟨p,segment,acknowledges⟩
          rw [segment.2] at acknowledges
          exact recorded k sent ⟨i,handled,acknowledges⟩
        · exact .inr already
  | cleared asked => exact absurd asked uncleared
  | buffered | received | read | handshake | forward | fin | drained =>
      exact ⟨flying,carrier,ledger.kept,ledger.ordered,ledger.settled⟩

-- Within one call nothing is taken out of the history, so what holds of the history
-- at its end holds all the time.
theorem Ledger.steps (ledger : Ledger first acknowledged w flying) (steps : Steps cause w w') (uncleared : cause ≠ .reset)
    (kept : ¬ ∃ refusal ∈ w'.refused, refusal.FirstTransmission)
    (recorded : ∀ k < w'.segments.length, cause.Acknowledges first k → acknowledged k) :
    ∃ flying', Ledger first acknowledged w' flying' := by
  induction steps with
  | refl => exact ⟨flying,ledger⟩
  | tail _ step ih =>
      obtain ⟨flying,ledger⟩ := ih
        (fun ⟨refusal,logged,new⟩ => kept ⟨refusal,step.refused_of.subset logged,new⟩)
        (fun k sent => recorded k (Nat.lt_of_lt_of_le sent step.segments_of.length_le))
      exact ledger.step step uncleared kept recorded

theorem Ledger.imp {acknowledged' : Nat → Prop} (ledger : Ledger first acknowledged w flying)
    (more : ∀ k, acknowledged k → acknowledged' k) : Ledger first acknowledged' w flying :=
  ⟨ledger.toCarrier,ledger.kept,ledger.ordered,fun k sent => (ledger.settled k sent).imp_right (more k)⟩

end

theorem performAll_concat (w : World) (events : List Event) (event : Event) :
    performAll w (events ++ [event]) = perform (performAll w events) event := by
  rw [performAll,List.foldl_append]
  rfl

theorem Acknowledged.more (done : Acknowledged first w events k) (event : Event) : Acknowledged first w (events ++ [event]) k := by
  obtain ⟨earlier,acknowledging,later,rfl,acknowledges,sent⟩ := done
  exact ⟨earlier,acknowledging,later ++ [event],by rw [List.append_assoc,List.cons_append],acknowledges,sent⟩

theorem Acknowledged.now (event : Event) (acknowledges : event.cause.Acknowledges first k)
    (sent : k < (performAll w (events ++ [event])).segments.length) : Acknowledged first w (events ++ [event]) k :=
  ⟨events,event,[],rfl,acknowledges,sent⟩

-- Whatever the transmitter refuses otherwise: acknowledgements, the FIN,
-- retransmissions. The bytes of a packet that is refused when it is sent for the
-- first time have left the output buffer and are nowhere else.
theorem nothing_lost (w : World) (first : Nat) (opened : Opened first w) (events : List Event)
    (uncleared : ∀ event ∈ events, event ≠ .reset)
    (kept : ¬ ∃ refusal ∈ (performAll w events).refused, refusal.FirstTransmission) :
    ∃ flying, Ledger first (Acknowledged first w events) (performAll w events) flying := by
  induction events using List.reverseRecOn with
  | nil => exact ⟨[],opened.ledger⟩
  | append_singleton events event ih =>
      have steps := perform_steps (performAll w events) event
      rw [← performAll_concat] at steps
      have willing : event.cause ≠ .reset := by
        have other := uncleared event (List.mem_append_right _ List.mem_cons_self)
        cases event with
        | reset => exact absurd rfl other
        | _ => rintro ⟨⟩
      obtain ⟨flying,ledger⟩ := ih (fun event among => uncleared event (List.mem_append_left _ among))
        (fun ⟨refusal,logged,new⟩ => kept ⟨refusal,steps.refused_of.subset logged,new⟩)
      exact (ledger.imp fun k done => done.more event).steps steps willing kept fun k sent acknowledges => .now event acknowledges sent

-- The other side announces how much it has room for.
def announcing (wndSize : UInt32) : Event :=
  .handlePacket ⟨⟨1,stState,0,8,0,0,wndSize,1,1⟩,none,20⟩ ⟨(Header.mk 1 stState 0 8 0 0 wndSize 1 1).write,by rw [Header.write_length]; decide⟩

-- send takes three bytes while the other side has no room. When it has, the packet
-- that is made of them is refused.
def stalled : World := performAll {shakenHands.sender with accepts := fun _ => false} [announcing 0]

theorem accepted_bytes_vanish :
    taken stalled (.send [1,2,3]) = [1,2,3] ∧ (perform stalled (.send [1,2,3])).conn.outputBuffer.contents = [1,2,3] ∧
    (performAll stalled [.send [1,2,3],announcing 1000]).conn.outputBuffer.contents = [] ∧
    (performAll stalled [.send [1,2,3],announcing 1000]).conn.remoteWnd.unackedPackets.length = 0 ∧
    ¬ ∃ flying, Ledger 2 (Acknowledged 2 stalled [.send [1,2,3],announcing 1000])
      (performAll stalled [.send [1,2,3],announcing 1000]) flying := by
  have gone : (performAll stalled [.send [1,2,3],announcing 1000]).accepted = [1,2,3] ∧
      (performAll stalled [.send [1,2,3],announcing 1000]).segments = [] ∧
      (performAll stalled [.send [1,2,3],announcing 1000]).conn.outputBuffer.contents = [] := by decide +kernel
  refine ⟨by decide +kernel,by decide +kernel,gone.2.2,by decide +kernel,?_⟩
  rintro ⟨flying,ledger⟩
  have accounted := ledger.accepted
  rw [gone.1,gone.2.1,gone.2.2] at accounted
  cases accounted

-- The datagram has not the number that comes next.
def Refusal.older (refusal : Refusal) : Bool :=
  match parse refusal.datagram with
  | .accepted parser => parser.header.seqNr != refusal.seqNr
  | _ => true

theorem Refusal.older_not_first {refusal : Refusal} (older : refusal.older = true) : ¬ refusal.FirstTransmission := by
  rintro ⟨parser,parsed,_,next⟩
  unfold Refusal.older at older
  rw [parsed] at older
  exact bne_iff_ne.mp older next

-- The transmitter takes the three bytes, and refuses to send them again after a timeout.
def wavering : World := {shakenHands.sender with accepts := fun n => n ≤ shakenHands.sender.attempts}

theorem nothing_lost_refused : (performAll wavering [.send [1,2,3],.handleTimeout]).refused.length = 1 ∧
    ∃ flying, Ledger 2 (Acknowledged 2 wavering [.send [1,2,3],.handleTimeout]) (performAll wavering [.send [1,2,3],.handleTimeout]) flying := by
  refine ⟨by decide +kernel,nothing_lost _ 2 ⟨by decide,by decide,by decide,rfl,rfl,rfl,rfl⟩ _ ?_ ?_⟩
  · intro event among
    rcases List.mem_cons.mp among with rfl | among
    · rintro ⟨⟩
    · obtain rfl := List.mem_singleton.mp among
      rintro ⟨⟩
  · have older : ∀ refusal ∈ (performAll wavering [.send [1,2,3],.handleTimeout]).refused, refusal.older = true := by decide +kernel
    rintro ⟨refusal,logged,first⟩
    exact Refusal.older_not_first (older refusal logged) first

end KtorrentStream.Utp
