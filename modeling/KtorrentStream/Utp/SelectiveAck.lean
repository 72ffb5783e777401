import KtorrentStream.Lib.Bits
import KtorrentStream.Utp.Acknowledgement
import KtorrentStream.Utp.Handlers
set_option autoImplicit true

namespace KtorrentStream.Utp
open KtorrentStream.Lib

theorem acked_iff (sack : SelectiveAck) (bit : UInt16) :
    acked sack bit = true ↔ 2 ≤ bit.toNat ∧ bit.toNat ≤ 8 * sack.length.toNat + 1 ∧
      (sack.bitmask.getD ((bit.toNat - 2) / 8) 0).toNat.testBit ((bit.toNat - 2) % 8) = true := by
  rw [acked]
  split
  · simp only [Bool.false_eq_true,false_iff]
    omega
  · simp only [byte_bit _ (Nat.mod_lt _ (by decide : 8 > 0))]
    constructor
    · intro set
      exact ⟨by omega,by omega,set⟩
    · exact fun set => set.2.2

theorem acked_ack (sack : SelectiveAck) (on bit : UInt16) :
    acked (ack sack on) bit = true ↔
      acked sack bit = true ∨ bit = on ∧ 2 ≤ on.toNat ∧ on.toNat ≤ 8 * sack.length.toNat + 1 := by
  rw [acked_iff,acked_iff,ack_length,ack]
  split
  · constructor
    · exact .inl
    · rintro (old | new)
      · exact old
      · omega
  · rename_i inRange
    have sized := sack.sized
    by_cases same : (bit.toNat - 2) / 8 = (on.toNat - 2) / 8
    · rw [same]
      have inside : (on.toNat - 2) / 8 < sack.bitmask.length := by omega
      have value : (sack.bitmask.set ((on.toNat - 2) / 8)
          (sack.bitmask.getD ((on.toNat - 2) / 8) 0 ||| (1 <<< UInt8.ofNat ((on.toNat - 2) % 8)))).getD ((on.toNat - 2) / 8) 0 =
          sack.bitmask.getD ((on.toNat - 2) / 8) 0 ||| (1 <<< UInt8.ofNat ((on.toNat - 2) % 8)) := by
        simp [List.getD_eq_getElem?_getD,inside]
      simp only [value,UInt8.toNat_or,shifted_bit (Nat.mod_lt _ (by decide : 8 > 0)),Nat.testBit_or,Nat.testBit_two_pow,
        Bool.or_eq_true,decide_eq_true_eq]
      rw [← UInt16.toNat_inj]
      constructor
      · rintro ⟨low,high,old | new⟩
        · exact .inl ⟨low,high,old⟩
        · exact .inr ⟨by omega,by omega,by omega⟩
      · rintro (⟨low,high,old⟩ | ⟨equal,low,high⟩)
        · exact ⟨low,high,.inl old⟩
        · exact ⟨by omega,by omega,.inr (by rw [equal])⟩
    · have value : ∀ byte, (sack.bitmask.set ((on.toNat - 2) / 8) byte).getD ((bit.toNat - 2) / 8) 0 =
          sack.bitmask.getD ((bit.toNat - 2) / 8) 0 := by
        intro byte
        rw [List.getD_eq_getElem?_getD,List.getElem?_set_ne (Ne.symm same),List.getD_eq_getElem?_getD]
      simp only [value]
      constructor
      · exact .inl
      · rintro (old | ⟨rfl,_⟩)
        · exact old
        · exact absurd rfl same

theorem acked_fold (nr : UInt16) (bit : UInt16) (slots : List WindowPacket) (sack : SelectiveAck) :
    acked (slots.foldl (fun sack pkt => if pkt.holds then ack sack (seqNrDiff nr pkt.seqNr) else sack) sack) bit = true ↔
      acked sack bit = true ∨ (2 ≤ bit.toNat ∧ bit.toNat ≤ 8 * sack.length.toNat + 1) ∧
        ∃ pkt ∈ slots, pkt.holds = true ∧ seqNrDiff nr pkt.seqNr = bit := by
  induction slots generalizing sack with
  | nil => simp
  | cons pkt rest ih =>
      rw [List.foldl_cons,ih]
      split
      · rename_i held
        rw [acked_ack,ack_length]
        constructor
        · rintro ((old | ⟨rfl,range⟩) | ⟨range,slot,among,found⟩)
          · exact .inl old
          · exact .inr ⟨range,pkt,List.mem_cons_self,held,rfl⟩
          · exact .inr ⟨range,slot,List.mem_cons_of_mem _ among,found⟩
        · rintro (old | ⟨range,slot,among,found⟩)
          · exact .inl (.inl old)
          · obtain rfl | later := List.mem_cons.mp among
            · exact .inl (.inr ⟨found.2.symm,found.2 ▸ range⟩)
            · exact .inr ⟨range,slot,later,found⟩
      · rename_i missing
        constructor
        · rintro (old | ⟨range,slot,among,found⟩)
          · exact .inl old
          · exact .inr ⟨range,slot,List.mem_cons_of_mem _ among,found⟩
        · rintro (old | ⟨range,slot,among,found⟩)
          · exact .inl old
          · obtain rfl | later := List.mem_cons.mp among
            · exact absurd found.1 missing
            · exact .inr ⟨range,slot,later,found⟩

theorem acked_cleared (sack : SelectiveAck) (zero : sack.bitmask = List.replicate sack.length.toNat 0) (bit : UInt16) :
    acked sack bit = false := by
  rw [← Bool.not_eq_true,acked_iff,zero]
  rintro ⟨low,high,set⟩
  have inside : (bit.toNat - 2) / 8 < sack.length.toNat := by omega
  simp [List.getD_eq_getElem?_getD,inside] at set

theorem dropWhile_drop {p : α → Bool} {l : List α} (before : ∀ j x, j < k → l[j]? = some x → p x = true)
    (stop : ∀ x, l[k]? = some x → p x = false) : l.dropWhile p = l.drop k := by
  induction l generalizing k with
  | nil => simp
  | cons a l ih =>
      cases k with
      | zero =>
          rw [List.dropWhile_cons_of_neg (by simp [stop a rfl])]
          rfl
      | succ k =>
          rw [List.dropWhile_cons_of_pos (before 0 a (Nat.succ_pos k) rfl),List.drop_succ_cons]
          exact ih (fun j x short inside => before (j + 1) x (by omega) inside) stop

-- A packet that is held at a distance from last_seq_nr.
def Held (w : LocalWindow) (d : Nat) : Prop :=
  ∃ pkt ∈ w.incomingPackets, pkt.seqNr = w.lastSeqNr + UInt16.ofNat d ∧ pkt.holds = true

def LocalWindow.newestDistance (w : LocalWindow) : Nat :=
  match w.incomingPackets.getLast? with
  | none => 0
  | some back => if seqNrCmpS w.lastSeqNr back.seqNr then (back.seqNr - w.lastSeqNr).toNat else 0

section Window
variable {w : LocalWindow} {front : Nat} {r : Reassembly UInt8}

theorem Repr.held_iff (rep : Repr w front r) (low : 1 ≤ d) (high : d ≤ 32768) : Held w d ↔ r.got (r.last + d) ≠ none := by
  have bound := rep.last_lt rep.valid
  have span := rep.span
  have behind := rep.behind
  have ready := rep.valid.ready
  have number : w.lastSeqNr + UInt16.ofNat d = seqOf (r.last + d) := by
    rw [rep.lastSeqNr,seqOf,seqOf,UInt16.ofNat_add]
  constructor
  · rintro ⟨pkt,among,same,holds⟩
    obtain ⟨j,inside,at_j⟩ := List.getElem_of_mem among
    have slot := rep.slot j pkt (List.getElem?_eq_some_iff.mpr ⟨inside,at_j⟩)
    have count : front + j = r.last + d := by
      apply seqOf_inj (by omega) (by omega)
      rw [← slot.number,same,number]
    obtain ⟨packet,present⟩ := Option.isSome_iff_exists.mp holds
    obtain ⟨_,_,segment,got,_⟩ := slot.held packet present
    rw [← count,got]
    exact Option.some_ne_none _
  · intro present
    have inside := rep.length_pos present
    obtain ⟨j,count⟩ : ∃ j, front + j = r.last + d := ⟨r.last + d - front,by omega⟩
    have at_j : w.incomingPackets[j]? = some w.incomingPackets[j] := List.getElem?_eq_getElem (by omega)
    have slot := rep.slot j _ at_j
    refine ⟨_,List.mem_of_getElem? at_j,?_,?_⟩
    · rw [slot.number,count,number]
    · rw [WindowPacket.holds,Option.isSome_iff_ne_none]
      intro missing
      obtain early | absent := slot.missing missing
      · omega
      · exact present (count ▸ absent)

theorem Repr.newestDistance (rep : Repr w front r) (short : w.incomingPackets.length < 32768) :
    w.newestDistance = front + w.incomingPackets.length - 1 - r.last ∧
    w.selectiveAckBits.toNat = w.newestDistance - 1 := by
  have bound := rep.last_lt rep.valid
  have behind := rep.behind
  have ready := rep.valid.ready
  rw [LocalWindow.newestDistance,LocalWindow.selectiveAckBits]
  cases found : w.incomingPackets.getLast? with
  | none =>
      have empty := List.getLast?_eq_none_iff.mp found
      rw [empty,rep.empty empty]
      simp
  | some back =>
      have some_slots : w.incomingPackets.length ≠ 0 := by
        intro zero
        rw [List.length_eq_zero_iff.mp zero] at found
        cases found
      simp only
      rw [rep.back_seqNr found,rep.lastSeqNr,seqNrCmpS_seqOf (by omega) (by omega)]
      by_cases ahead : r.last < front + w.incomingPackets.length - 1
      · have one : (1 : UInt32).toNat = 1 := rfl
        have diff := seqNrDiff_seqOf (Nat.le_of_lt ahead) (by omega)
        have wide : ∀ nr : UInt16, nr.toUInt32.toNat = nr.toNat := fun nr => UInt16.toNat_toUInt32 nr
        rw [if_pos (decide_eq_true ahead),if_pos (decide_eq_true ahead),seqOf_sub_toNat (by omega) (by omega),
          UInt32.toNat_sub_of_le _ _ (by rw [UInt32.le_iff_toNat_le,wide]; omega),wide]
        omega
      · rw [if_neg (by simpa using ahead),if_neg (by simpa using ahead)]
        exact ⟨by omega,rfl⟩

theorem Repr.newest_held (rep : Repr w front r) (short : w.incomingPackets.length < 32768) (ahead : w.newestDistance ≠ 0) :
    Held w w.newestDistance ∧ 2 ≤ w.newestDistance ∧ ∀ d, 1 ≤ d → d ≤ 32768 → Held w d → d ≤ w.newestDistance := by
  have distance := (rep.newestDistance short).1
  have behind := rep.behind
  have ready := rep.valid.ready
  have some_slots : w.incomingPackets ≠ [] := by
    intro none
    rw [none,rep.empty none,List.length_nil] at distance
    omega
  have present := rep.newest some_slots
  rw [show front + w.incomingPackets.length - 1 = r.last + w.newestDistance by omega] at present
  refine ⟨(rep.held_iff (by omega) (by omega)).mpr present,?_,?_⟩
  · by_contra one
    rw [show w.newestDistance = 1 by omega] at present
    exact present rep.valid.gap
  · intro d low high held
    have inside := rep.length_pos ((rep.held_iff low high).mp held)
    omega

theorem Repr.none_held (rep : Repr w front r) (short : w.incomingPackets.length < 32768) (none : w.newestDistance = 0)
    (low : 1 ≤ d) (high : d ≤ 32768) : ¬ Held w d := by
  intro held
  have inside := rep.length_pos ((rep.held_iff low high).mp held)
  have distance := (rep.newestDistance short).1
  omega

theorem Repr.fillSelectiveAck (rep : Repr w front r) (short : w.incomingPackets.length < 32768)
    (ahead : w.newestDistance ≠ 0) (sack : SelectiveAck) (low : 2 ≤ d) (high : d ≤ 33) :
    acked (w.fillSelectiveAck sack) (UInt16.ofNat d) = true ↔ Held w d ∧ d ≤ 8 * sack.length.toNat + 1 := by
  have distance := (rep.newestDistance short).1
  have behind := rep.behind
  have ready := rep.valid.ready
  have small : (UInt16.ofNat d).toNat = d := by
    rw [UInt16.toNat_ofNat']
    omega
  have searched : w.incomingPackets.dropWhile (fun pkt => !seqNrCmpS (w.lastSeqNr + 1) pkt.seqNr) =
      w.incomingPackets.drop (r.last + 2 - front) := by
    apply dropWhile_drop
    · intro j pkt before inside
      rw [(rep.slot j pkt inside).number,rep.lastSeqNr,seqOf_succ,seqNrCmpS_seqOf (by omega) (by omega)]
      simp
      omega
    · intro pkt inside
      have bound := (List.getElem?_eq_some_iff.mp inside).choose
      rw [(rep.slot _ pkt inside).number,rep.lastSeqNr,seqOf_succ,seqNrCmpS_seqOf (by omega) (by omega)]
      simp
      omega
  rw [LocalWindow.fillSelectiveAck,searched,acked_fold,acked_cleared _ rfl,small]
  simp only [Bool.false_eq_true,false_or]
  rw [rep.held_iff (by omega) (by omega)]
  constructor
  · rintro ⟨range,pkt,among,holds,number⟩
    obtain ⟨j,inside,at_j⟩ := List.getElem_of_mem among
    have at_slot : w.incomingPackets[r.last + 2 - front + j]? = some pkt := by
      rw [← List.getElem?_drop]
      exact List.getElem?_eq_some_iff.mpr ⟨inside,at_j⟩
    have slot := rep.slot _ pkt at_slot
    have bound := (List.getElem?_eq_some_iff.mp at_slot).choose
    have diff := congrArg UInt16.toNat number
    rw [slot.number,rep.lastSeqNr,seqNrDiff_seqOf (by omega) (by omega),small] at diff
    obtain ⟨packet,present⟩ := Option.isSome_iff_exists.mp holds
    obtain ⟨_,_,segment,got,_⟩ := slot.held packet present
    rw [show r.last + d = front + (r.last + 2 - front + j) by omega,got]
    exact ⟨Option.some_ne_none _,range.2⟩
  · rintro ⟨present,covered⟩
    have inside := rep.length_pos present
    obtain ⟨j,count⟩ : ∃ j, front + (r.last + 2 - front + j) = r.last + d := ⟨d - 2,by omega⟩
    have at_slot : w.incomingPackets[r.last + 2 - front + j]? = some w.incomingPackets[r.last + 2 - front + j] :=
      List.getElem?_eq_getElem (by omega)
    have slot := rep.slot _ _ at_slot
    refine ⟨⟨low,covered⟩,_,List.mem_of_getElem? (by rw [List.getElem?_drop,at_slot]),?_,?_⟩
    · rw [WindowPacket.holds,Option.isSome_iff_ne_none]
      intro missing
      obtain early | absent := slot.missing missing
      · omega
      · exact present (count ▸ absent)
    · apply UInt16.toNat_inj.mp
      rw [slot.number,rep.lastSeqNr,count,seqNrDiff_seqOf (by omega) (by omega),small]
      omega

end Window

-- The distances the mask has room for.
def covered (w : LocalWindow) : Nat := 8 * min ((w.newestDistance - 1) / 8) 4 + 1

def Sacked (parser : PacketParser) (d : Nat) : Prop :=
  ∃ sack, parser.selectiveAck = some sack ∧ acked sack (UInt16.ofNat d) = true

theorem Repr.extensionLength {c : Connection} (rep : Repr c.localWnd front r)
    (short : c.localWnd.incomingPackets.length < 32768) :
    c.extensionLength.toNat = if c.localWnd.newestDistance = 0 then 0
      else 2 + min ((c.localWnd.newestDistance - 1) / 8) 4 := by
  have bits := (rep.newestDistance short).2
  rw [Connection.extensionLength]
  have values : (2 : UInt32).toNat = 2 ∧ (4 : UInt32).toNat = 4 ∧ (8 : UInt32).toNat = 8 ∧ (0 : UInt32).toNat = 0 :=
    ⟨rfl,rfl,rfl,rfl⟩
  by_cases none : c.localWnd.newestDistance = 0
  · rw [if_pos none,if_neg]
    · rfl
    · rw [gt_iff_lt,UInt32.lt_iff_toNat_lt]
      omega
  · have two := (rep.newest_held short none).2.1
    rw [if_neg none,if_pos (by rw [gt_iff_lt,UInt32.lt_iff_toNat_lt]; omega),UInt32.toNat_add,min_toNat,UInt32.toNat_div,
      values.1,values.2.1,values.2.2.1]
    omega

theorem Repr.sacked_iff {c : Connection} (rep : Repr c.localWnd front r)
    (short : c.localWnd.incomingPackets.length < 32768) (type : Fin 16) (seqNr ackNr : UInt16) (now : TimeValue)
    (payload : List UInt8) :
    ∃ parser, parse (c.datagram type seqNr ackNr now payload) = .accepted parser ∧
      ∀ d, 2 ≤ d → d ≤ 33 → (Sacked parser d ↔ Held c.localWnd d ∧ d ≤ covered c.localWnd) := by
  have length := rep.extensionLength short
  refine ⟨_,parse_datagram c type seqNr ackNr now payload,?_⟩
  intro d low high
  by_cases nothing : c.localWnd.newestDistance = 0
  · rw [if_pos nothing] at length
    have unheld := rep.none_held short nothing (by omega : 1 ≤ d) (by omega)
    obtain ⟨_,absent⟩ | ⟨sack,_,_,_,mask⟩ := selectiveAck_cases c
    · constructor
      · rintro ⟨sack,found,_⟩
        rw [absent] at found
        cases found
      · exact fun held => absurd held.1 unheld
    · omega
  · rw [if_neg nothing] at length
    have some_bytes : c.extensionLength > 0 := by
      rw [gt_iff_lt,UInt32.lt_iff_toNat_lt,length]
      exact Nat.lt_of_lt_of_le (by decide : 0 < 2) (Nat.le_add_right _ _)
    have mask := maskLength c some_bytes
    have filled := rep.fillSelectiveAck short nothing
      ⟨0,(c.extensionLength - 2).toUInt8,List.replicate (c.extensionLength - 2).toUInt8.toNat 0,List.length_replicate⟩ low high
    have capacity : 8 * (c.extensionLength - 2).toUInt8.toNat + 1 = covered c.localWnd := by
      rw [covered]
      omega
    rw [← capacity,← filled,Sacked,Connection.selectiveAck,if_pos some_bytes]
    constructor
    · rintro ⟨sack,found,set⟩
      cases found
      exact set
    · exact fun set => ⟨_,rfl,set⟩

-- The mask has room for the newest packet, or for as many packets as a mask can
-- have. extensionLength rounds the number of bits down to whole bytes.
def WholeBytes (w : LocalWindow) : Prop := w.newestDistance = 0 ∨ w.newestDistance % 8 = 1 ∨ 33 ≤ w.newestDistance

def AckAgrees (parser : PacketParser) (w : LocalWindow) : Prop := ∀ d, 2 ≤ d → d ≤ 33 → (Sacked parser d ↔ Held w d)

theorem Repr.agrees_iff {w : LocalWindow} (rep : Repr w front r) (short : w.incomingPackets.length < 32768)
    (sacked : ∀ d, 2 ≤ d → d ≤ 33 → (Sacked parser d ↔ Held w d ∧ d ≤ covered w)) :
    AckAgrees parser w ↔ WholeBytes w := by
  constructor
  · intro agrees
    by_contra rounded
    obtain ⟨some_ahead,others⟩ := not_or.mp rounded
    obtain ⟨held,two,_⟩ := rep.newest_held short some_ahead
    have room := ((sacked _ two (by omega)).mp ((agrees _ two (by omega)).mpr held)).2
    rw [covered] at room
    omega
  · intro whole d low high
    rw [sacked d low high]
    constructor
    · exact And.left
    · intro held
      refine ⟨held,?_⟩
      by_cases none : w.newestDistance = 0
      · exact absurd held (rep.none_held short none (by omega) (by omega))
      · have newest := (rep.newest_held short none).2.2 d (by omega) (by omega) held
        obtain zero | whole | full := whole
        · exact absurd zero none
        · rw [covered]
          omega
        · rw [covered]
          omega

-- A datagram that sendPacket or sendDataPacket gives to the transmitter.
inductive Sends (w : World) (bytes : List UInt8) : Prop where
  | control (type : Fin 16) (ackNr : UInt16) (result : sendPacket type ackNr w = .ok () w')
      (sent : w'.sent = w.sent ++ [bytes])
  | data (packet : PacketBuffer) (seqNr : UInt16) (now : TimeValue) (payload : packet.payload = some off)
      (result : sendDataPacket packet seqNr now w = .ok filled w') (sent : w'.sent = w.sent ++ [bytes])

theorem setHeader_room {p : PacketBuffer} (payload : p.payload = some off)
    (result : p.setHeader hdr extensionLength = .done p') : Header.size + extensionLength.toNat ≤ off := by
  rw [PacketBuffer.setHeader] at result
  split at result
  · cases result
  · simp only [payload] at result
    by_contra little
    rw [if_pos (Nat.lt_of_not_le little)] at result
    cases result

theorem sendDataPacket_layout (packet : PacketBuffer) (seqNr : UInt16) (now : TimeValue) (w : World) :
    wp (sendDataPacket packet seqNr now)
      (fun _ _ => ∃ packet', packet.setHeader (w.conn.header stData seqNr w.conn.localWnd.lastSeqNr now) w.conn.extensionLength =
        .done packet') (fun _ _ => True) w := by
  rw [sendDataPacket,wp_getConn,wp_bind,modifyStats,modifyConn,wp_modify]
  split
  · trivial
  · trivial
  · rename_i packet' layout
    simp only [wp_bind,wp_pure]
    exact wp_mono (transmit_spec _ _) (fun _ _ _ => ⟨packet',layout⟩) (fun _ _ _ => trivial)

theorem Sends.datagram (sends : Sends w bytes) :
    ∃ type seqNr ackNr now payload, bytes = w.conn.datagram type seqNr ackNr now payload := by
  cases sends with
  | control type ackNr result sent =>
      obtain ⟨_,now,sent'⟩ := wp_ok (sendPacket_spec type ackNr w) result
      rw [sent] at sent'
      exact ⟨type,_,ackNr,now,[],(List.cons.inj (List.append_cancel_left sent')).1⟩
  | data packet seqNr now payload result sent =>
      obtain ⟨packet',layout⟩ := wp_ok (sendDataPacket_layout packet seqNr now w) result
      obtain ⟨_,sent',_⟩ := wp_ok (sendDataPacket_spec packet seqNr now w payload (setHeader_room payload layout)) result
      rw [sent] at sent'
      exact ⟨stData,seqNr,_,now,_,(List.cons.inj (List.append_cancel_left sent')).1⟩

def FewSlots (h : History) : Prop := h.window.incomingPackets.length < 32768

instance (h : History) : Decidable (FewSlots h) := inferInstanceAs (Decidable (_ < _))

theorem Everywhere.start (all : Everywhere P h calls) : P h := by
  cases calls with
  | nil => exact all
  | cons c rest => exact all.1

theorem fits_of_few (counted : Counted lsn h front r) (few : FewSlots h) (called : h.call c = some h') (few' : FewSlots h') :
    Fits h.window c := by
  cases c with
  | packetReceived seqNr packet dataOff inside =>
      refine counted.repr.near_of_span few ?_
      intro w' outcome result
      have next : w' = h'.window := by
        cases outcome <;> simp only [History.call,result,Option.some.injEq] at called <;> rw [← called]
      rw [next]
      exact few'
  | read maxLen =>
      intro none
      simp [History.call,LocalWindow.read,none] at called

-- In every state of a run the selective ack that goes out says what is held, if
-- and only if the bits fill whole bytes.
theorem selective_ack_agreement (lsn : UInt16) (calls : List Call) (few : Everywhere FewSlots (.start lsn) calls) :
    Everywhere (fun h => ∀ w bytes, w.conn.localWnd = h.window → Sends w bytes →
      ∃ parser, parse bytes = .accepted parser ∧ (AckAgrees parser h.window ↔ WholeBytes h.window)) (.start lsn) calls := by
  have here : ∀ h front r, Counted lsn h front r → FewSlots h → ∀ w bytes, w.conn.localWnd = h.window → Sends w bytes →
      ∃ parser, parse bytes = .accepted parser ∧ (AckAgrees parser h.window ↔ WholeBytes h.window) := by
    intro h front r counted few w bytes window sends
    have rep := counted.repr
    rw [FewSlots] at few
    rw [← window] at rep few ⊢
    obtain ⟨type,seqNr,ackNr,now,payload,rfl⟩ := sends.datagram
    obtain ⟨parser,parsed,sacked⟩ := rep.sacked_iff few type seqNr ackNr now payload
    exact ⟨parser,parsed,rep.agrees_iff few sacked⟩
  have along : ∀ calls h front r, Counted lsn h front r → Everywhere FewSlots h calls →
      Everywhere (fun h => ∀ w bytes, w.conn.localWnd = h.window → Sends w bytes →
        ∃ parser, parse bytes = .accepted parser ∧ (AckAgrees parser h.window ↔ WholeBytes h.window)) h calls := by
    intro calls
    induction calls with
    | nil =>
        intro h front r counted few
        exact here h front r counted few
    | cons c rest ih =>
        rintro h front r counted ⟨few,h',called,all⟩
        obtain ⟨h'',front',r',called',counted'⟩ := call_counted counted (fits_of_few counted few called all.start)
        cases Option.some.inj (called.symm.trans called')
        exact ⟨here h front r counted few,h',called,ih h' front' r' counted' all⟩
  exact along calls _ _ _ (start_counted lsn) few

theorem selective_ack_agreement_wrapping :
    Everywhere FewSlots (.start 65535) [inOrder 8,inOrder 1,inOrder 0,.read 1] ∧
    Everywhere (fun h => ∀ w bytes, w.conn.localWnd = h.window → Sends w bytes →
      ∃ parser, parse bytes = .accepted parser ∧ (AckAgrees parser h.window ↔ WholeBytes h.window)) (.start 65535)
      [inOrder 8,inOrder 1,inOrder 0,.read 1] := by
  have few : Everywhere FewSlots (.start 65535) [inOrder 8,inOrder 1,inOrder 0,.read 1] := by
    refine ⟨?_,_,rfl,?_,_,rfl,?_,_,rfl,?_,_,rfl,?_⟩
    all_goals show FewSlots _; decide
  exact ⟨few,selective_ack_agreement 65535 _ few⟩

-- Packet 2 has come before packet 1. One bit would do, and no byte is sent.
theorem one_packet_ahead_is_not_acknowledged :
    ∃ h w bytes parser, (History.start 0).run [inOrder 2] = some h ∧ w.conn.localWnd = h.window ∧ Sends w bytes ∧
      parse bytes = .accepted parser ∧ Held h.window 2 ∧ ¬ AckAgrees parser h.window := by
  have called : ∃ h, (History.start 0).call (inOrder 2) = some h ∧ h.window.newestDistance = 2 ∧
      h.window.incomingPackets.length = 2 := ⟨_,rfl,by decide,by decide⟩
  obtain ⟨h,called,newest,length⟩ := called
  have fits : Fits (History.start 0).window (inOrder 2) := fun _ _ => by decide
  obtain ⟨h',front,r,called',counted⟩ := call_counted (start_counted 0) fits
  cases Option.some.inj (called.symm.trans called')
  have rep := counted.repr
  have short : h.window.incomingPackets.length < 32768 := by omega
  let w : World := .calm {Connection.incoming 1 with localWnd := h.window}
  have sends : ∃ now, Sends w (w.conn.datagram stState w.conn.stats.seqNr 0 now []) := by
    cases result : sendPacket stState 0 w with
    | ok _ w' =>
        obtain ⟨_,now,sent⟩ := wp_ok (sendPacket_spec stState 0 w) result
        exact ⟨now,.control stState 0 result sent⟩
    | error e w' =>
        obtain ⟨_,refused,_⟩ := wp_error (sendPacket_spec stState 0 w) result
        cases refused
  obtain ⟨now,sends⟩ := sends
  obtain ⟨parser,parsed,sacked⟩ := Repr.sacked_iff (c := w.conn) rep short stState w.conn.stats.seqNr 0 now []
  have held : Held h.window 2 := by
    have some_ahead : h.window.newestDistance ≠ 0 := by omega
    exact newest ▸ (rep.newest_held short some_ahead).1
  refine ⟨h,w,_,parser,?_,rfl,sends,parsed,held,?_⟩
  · simp only [History.run,called]
  · intro agrees
    have whole := (rep.agrees_iff short sacked).mp agrees
    rw [WholeBytes] at whole
    omega

end KtorrentStream.Utp
