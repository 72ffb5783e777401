import KtorrentStream.Utp.Stream
set_option autoImplicit true

namespace KtorrentStream.Utp
open KtorrentStream.Lib KtorrentStream.Util

def payloadSum (packets : List UnackedPacket) : Nat := (packets.map fun p => p.packet.payloadSize).sum

-- The window right after a packet of the stream went into flight: the packet is the
-- newest one, and all that is unacknowledged fits both limits.
structure Flight.Allowed (f : Flight) (payload : List UInt8) : Prop where
  newest : ∃ older p, f.window.unackedPackets = older ++ [p] ∧ p.packet.payloadBytes = payload
  advertised : payloadSum f.window.unackedPackets ≤ f.advertised.toNat
  maxWindow : payloadSum f.window.unackedPackets ≤ f.window.maxWindow.toNat

-- cur_window is the sum of what is in flight, and wnd_size is what is left of the
-- announced size after the packets that were sent since.
structure Controlled (w : World) : Prop where
  inFlight : w.conn.remoteWnd.curWindow.toNat = payloadSum w.conn.remoteWnd.unackedPackets
  wndSize : ∃ since, since <:+ w.segments ∧ w.conn.remoteWnd.wndSize.toNat + since.flatten.length = w.advertised.toNat
  flights : List.Forall₂ Flight.Allowed w.flights w.segments

structure Flowing (w : World) : Prop extends Controlled w where
  roomy : ∀ p ∈ w.conn.remoteWnd.unackedPackets, p.packet.Roomy
  packetSize : w.conn.stats.packetSize ≤ fullPacketSize

-- A connection on which nothing has been sent.
structure Unsent (w : World) : Prop where
  packetSize : w.conn.stats.packetSize ≤ fullPacketSize
  unackedPackets : w.conn.remoteWnd.unackedPackets = []
  curWindow : w.conn.remoteWnd.curWindow = 0
  wndSize : w.conn.remoteWnd.wndSize = w.advertised
  history : w.segments = [] ∧ w.flights = []

theorem payloadSum_append (l l' : List UnackedPacket) : payloadSum (l ++ l') = payloadSum l + payloadSum l' := by
  simp [payloadSum]

theorem payloadSum_alike (alike : List.Forall₂ SamePacket packets packets') (roomy : ∀ p ∈ packets, p.packet.Roomy) :
    payloadSum packets' = payloadSum packets := by
  induction alike with
  | nil => rfl
  | cons same _ ih =>
      have size := same.payloadSize (roomy _ List.mem_cons_self)
      have rest := ih fun p among => roomy p (List.mem_cons_of_mem _ among)
      simp only [payloadSum,List.map_cons,List.sum_cons] at rest ⊢
      rw [size,rest]

theorem roomy_alike (alike : List.Forall₂ SamePacket packets packets') (roomy : ∀ p ∈ packets, p.packet.Roomy) :
    ∀ p ∈ packets', p.packet.Roomy := by
  intro p' among
  obtain ⟨p,old,same⟩ := related_mem alike among
  exact same.roomy (roomy p old)

-- An acknowledgement divides the packets into those it takes off and those it leaves.
theorem ackPackets_sum (hdr : Header) (sack : Option SelectiveAck) (packets : List UnackedPacket) :
    payloadSum (ackPackets hdr sack packets).1 + payloadSum (ackPackets hdr sack packets).2 = payloadSum packets := by
  induction packets with
  | nil => rfl
  | cons p rest ih =>
      simp only [payloadSum] at ih
      simp only [ackPackets,payloadSum,List.map_cons,List.sum_cons]
      split
      · simp only [List.map_cons,List.sum_cons]
        omega
      · split
        · simp
        · split
          · simp only [List.map_cons,List.sum_cons]
            omega
          · simp only [List.map_cons,List.sum_cons]
            omega

theorem foldl_curWindow (gone : List UnackedPacket) (cur : UInt32) (enough : payloadSum gone ≤ cur.toNat) :
    (gone.foldl (fun cur p => cur - UInt32.ofNat p.packet.payloadSize) cur).toNat = cur.toNat - payloadSum gone := by
  induction gone generalizing cur with
  | nil => simp [payloadSum]
  | cons p gone ih =>
      have limit := cur.toNat_lt
      simp only [payloadSum,List.map_cons,List.sum_cons] at enough
      have size : (UInt32.ofNat p.packet.payloadSize).toNat = p.packet.payloadSize := by
        rw [UInt32.toNat_ofNat']
        omega
      have less : (cur - UInt32.ofNat p.packet.payloadSize).toNat = cur.toNat - p.packet.payloadSize := by
        rw [UInt32.toNat_sub_of_le _ _ (UInt32.le_iff_toNat_le.mpr (by omega)),size]
      rw [List.foldl_cons,ih _ (by rw [less,payloadSum]; omega),less]
      simp only [payloadSum,List.map_cons,List.sum_cons]
      omega

theorem availableSpace_le (r : RemoteWindow) (count : Nat) (some_bytes : 0 < count) (allowed : count ≤ r.availableSpace.toNat) :
    r.curWindow.toNat + count ≤ r.wndSize.toNat ∧ r.curWindow.toNat + count ≤ r.maxWindow.toNat := by
  rw [RemoteWindow.availableSpace] at allowed
  have least := min_toNat r.wndSize r.maxWindow
  split at allowed
  · exact absurd (Nat.lt_of_lt_of_le some_bytes allowed) (Nat.lt_irrefl 0)
  · rename_i within
    have within' := UInt32.not_lt.mp within
    rw [UInt32.toNat_sub_of_le _ _ within'] at allowed
    have bound := UInt32.le_iff_toNat_le.mp within'
    omega

section
variable {w w' : World}

theorem Flowing.same (flowing : Flowing w) (same : Same w w') : Flowing w' where
  inFlight := by rw [same.curWindow,same.unackedPackets,flowing.inFlight]
  wndSize := by
    rw [same.segments,same.wndSize,same.advertised]
    exact flowing.wndSize
  flights := by
    rw [same.flights,same.segments]
    exact flowing.flights
  roomy := by
    rw [same.unackedPackets]
    exact flowing.roomy
  packetSize := by
    obtain equal | small := same.packetSize
    · exact equal ▸ flowing.packetSize
    · exact small

theorem Flowing.refreshed (flowing : Flowing w) (alike : List.Forall₂ SamePacket w.conn.remoteWnd.unackedPackets packets) :
    Flowing {w with conn := {w.conn with remoteWnd := {w.conn.remoteWnd with unackedPackets := packets,maxWindow}}} where
  inFlight := flowing.inFlight.trans (payloadSum_alike alike flowing.roomy).symm
  wndSize := flowing.wndSize
  flights := flowing.flights
  roomy := roomy_alike alike flowing.roomy
  packetSize := flowing.packetSize

theorem Flowing.acked (flowing : Flowing w) (parser : PacketParser) : Flowing (w.withAcks parser) where
  inFlight := by
    have divided := ackPackets_sum parser.header parser.selectiveAck w.conn.remoteWnd.unackedPackets
    have before := flowing.inFlight
    show (List.foldl _ _ _ : UInt32).toNat = _
    rw [foldl_curWindow _ _ (by omega)]
    show _ = payloadSum (ackPackets parser.header parser.selectiveAck w.conn.remoteWnd.unackedPackets).2
    omega
  wndSize := ⟨[],List.nil_suffix,rfl⟩
  flights := flowing.flights
  roomy := fun p among => flowing.roomy p ((ackPackets_left _ _ _).subset among)
  packetSize := flowing.packetSize

theorem Flowing.fresh {p : UnackedPacket} (flowing : Flowing w) (some_bytes : 0 < count) (present : count ≤ w.conn.outputBuffer.bufSize)
    (allowed : count ≤ w.conn.remoteWnd.availableSpace.toNat) (short : count ≤ w.conn.stats.packetSize.toNat)
    (payload : p.packet.payload = some (maxSize - count)) (room : count + Header.size ≤ maxSize)
    (content : p.packet.payloadBytes = w.conn.outputBuffer.contents.take count) (outputBuffer : CircularBuffer) :
    Flowing (w.inFlight p outputBuffer) := by
  have size : p.packet.payloadSize = count := by
    rw [PacketBuffer.payloadSize,payload]
    show maxSize - (maxSize - count) = count
    omega
  obtain ⟨window,most⟩ := availableSpace_le _ _ some_bytes allowed
  obtain ⟨since,suffix,left⟩ := flowing.wndSize
  have limit := w.conn.remoteWnd.wndSize.toNat_lt
  have before := flowing.inFlight
  have length : p.packet.payloadBytes.length = count := by
    rw [content,List.length_take,CircularBuffer.contents_length]
    omega
  have total : payloadSum (w.conn.remoteWnd.unackedPackets ++ [p]) = w.conn.remoteWnd.curWindow.toNat + count := by
    rw [payloadSum_append,← before,payloadSum,List.map_singleton,List.sum_singleton,size]
  have small : (UInt32.ofNat p.packet.payloadSize).toNat = count := by
    rw [size,UInt32.toNat_ofNat']
    omega
  refine ⟨⟨?_,⟨since ++ [p.packet.payloadBytes],?_,?_⟩,?_⟩,mem_append_one flowing.roomy ⟨_,payload,?_⟩,flowing.packetSize⟩
  · show (w.conn.remoteWnd.curWindow + UInt32.ofNat p.packet.payloadSize).toNat = payloadSum (w.conn.remoteWnd.unackedPackets ++ [p])
    rw [total,UInt32.toNat_add,small]
    omega
  · obtain ⟨older,same⟩ := suffix
    exact ⟨older,by rw [← List.append_assoc,same]; rfl⟩
  · show (w.conn.remoteWnd.wndSize - UInt32.ofNat p.packet.payloadSize).toNat + _ = w.advertised.toNat
    rw [UInt32.toNat_sub_of_le _ _ (UInt32.le_iff_toNat_le.mpr (by omega)),small,List.flatten_append,List.length_append,
      List.flatten_singleton,length]
    omega
  · refine List.rel_append flowing.flights (.cons ⟨⟨_,p,rfl,rfl⟩,?_,?_⟩ .nil)
    · show payloadSum (w.conn.remoteWnd.unackedPackets ++ [p]) ≤ w.advertised.toNat
      omega
    · show payloadSum (w.conn.remoteWnd.unackedPackets ++ [p]) ≤ w.conn.remoteWnd.maxWindow.toNat
      omega
  · have full : fullPacketSize.toNat = 1452 := rfl
    have small := UInt32.le_iff_toNat_le.mp flowing.packetSize
    have max : maxSize = 1500 := rfl
    omega

theorem Flowing.step (flowing : Flowing w) (step : Step cause w w') (uncleared : cause ≠ .reset) : Flowing w' := by
  cases step with
  | quiet same => exact flowing.same same
  | control _ _ _ _ _ same => exact flowing.same same
  | resent _ _ _ same => exact flowing.same same
  | refreshed _ alike => exact flowing.refreshed alike
  | fresh p now count outputBuffer some_bytes present allowed short payload room content number rest same =>
      exact (flowing.fresh some_bytes present allowed short payload room content outputBuffer).same same
  | spilled count outputBuffer _ _ same =>
      have same_window : Flowing {w with conn := {w.conn with outputBuffer}} := ⟨⟨flowing.inFlight,flowing.wndSize,flowing.flights⟩,flowing.roomy,flowing.packetSize⟩
      exact same_window.same same
  | acked i _ same => exact (flowing.acked i.parser).same same
  | cleared asked => exact absurd asked uncleared
  | buffered | received | read | handshake | forward | fin | drained =>
      exact ⟨⟨flowing.inFlight,flowing.wndSize,flowing.flights⟩,flowing.roomy,flowing.packetSize⟩

theorem Flowing.steps (flowing : Flowing w) (steps : Steps cause w w') (uncleared : cause ≠ .reset) : Flowing w' := by
  induction steps with
  | refl => exact flowing
  | tail _ step ih => exact ih.step step uncleared

theorem Unsent.flowing (unsent : Unsent w) : Flowing w := by
  obtain ⟨packetSize,unackedPackets,curWindow,wndSize,segments,flights⟩ := unsent
  refine ⟨⟨?_,⟨[],List.nil_suffix,?_⟩,?_⟩,?_,packetSize⟩
  · rw [unackedPackets,curWindow]
    rfl
  · rw [wndSize]
    rfl
  · rw [segments,flights]
    exact .nil
  · rw [unackedPackets]
    intro p none
    cases none

theorem Flowing.performAll (flowing : Flowing w) (events : List Event) (uncleared : ∀ event ∈ events, event ≠ .reset) :
    Flowing (performAll w events) := by
  induction events generalizing w with
  | nil => exact flowing
  | cons event rest ih =>
      have kept : event.cause ≠ .reset := by
        cases event with
        | reset => exact absurd rfl (uncleared .reset List.mem_cons_self)
        | _ => rintro ⟨⟩
      exact ih (flowing.steps (perform_steps w event) kept) fun event among => uncleared event (List.mem_cons_of_mem _ among)

end

-- Whatever is sent, received and acknowledged and whenever the timer runs out, as
-- long as nobody resets the connection.
theorem flow_control (w : World) (unsent : Unsent w) (events : List Event) (uncleared : ∀ event ∈ events, event ≠ .reset) :
    Controlled (performAll w events) :=
  (unsent.flowing.performAll events uncleared).toControlled

-- Three bytes after the handshake: one packet of three bytes is in flight.
theorem flow_control_spoken :
    (performAll shakenHands.sender [.send [1,2,3]]).conn.remoteWnd.curWindow = 3 ∧
    Controlled (performAll shakenHands.sender [.send [1,2,3]]) := by
  have unsent : Unsent shakenHands.sender := ⟨by decide,rfl,by decide,by decide,rfl,rfl⟩
  refine ⟨by decide +kernel,flow_control _ unsent _ ?_⟩
  intro event among
  obtain rfl := List.mem_singleton.mp among
  rintro ⟨⟩

end KtorrentStream.Utp
