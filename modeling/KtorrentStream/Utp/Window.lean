import KtorrentStream.Lib.Reassembly
import KtorrentStream.Utp.LocalWindow
set_option autoImplicit true

namespace KtorrentStream.Utp
open KtorrentStream.Lib

-- The local window as a reassembly of counted packets. Counts have no bound:
-- slot j of incoming_packets stands for the count front + j, and the slots span
-- at most 32768 counts.
structure SlotOf (r : Reassembly UInt8) (n : Nat) (pkt : WindowPacket) : Prop where
  number : pkt.seqNr = seqOf n
  missing : pkt.packet = none → n < r.first ∨ r.got n = none
  held : ∀ packet, pkt.packet = some packet → r.first ≤ n ∧ pkt.bytesRead ≤ packet.size ∧
    ∃ stretch, r.got n = some stretch ∧ packet.data.drop pkt.bytesRead.toNat = r.unread n stretch

structure Slots (slots : List WindowPacket) (front : Nat) (r : Reassembly UInt8) : Prop where
  started : r.base < front
  behind : front ≤ r.first
  slot : ∀ j pkt, slots[j]? = some pkt → SlotOf r (front + j) pkt
  beyond : ∀ n, front + slots.length ≤ n → r.got n = none
  newest : slots ≠ [] → r.got (front + slots.length - 1) ≠ none
  span : slots.length ≤ 32768

def WindowPacket.left (pkt : WindowPacket) : Nat :=
  match pkt.packet with
  | none => 0
  | some packet => packet.data.length - pkt.bytesRead.toNat

def heldBytes (slots : List WindowPacket) : Nat := (slots.map WindowPacket.left).sum

structure Repr (w : LocalWindow) (front : Nat) (r : Reassembly UInt8) : Prop
    extends Slots w.incomingPackets front r where
  valid : r.Valid
  lastSeqNr : w.lastSeqNr = seqOf r.last
  firstSeqNr : w.incomingPackets ≠ [] → w.firstSeqNr = seqOf r.first
  empty : w.incomingPackets = [] → front = r.last + 1
  space : w.windowSpace.toNat + heldBytes w.incomingPackets = w.capacity.toNat

theorem Slots.length_pos (slots : Slots l front r) (present : r.got n ≠ none) : n < front + l.length := by
  by_contra far
  exact present (slots.beyond n (by omega))

theorem Slots.last_lt (slots : Slots l front r) (valid : r.Valid) : r.last < front + l.length := by
  by_cases any : r.base < r.last
  · exact slots.length_pos (valid.received r.last any (Nat.le_refl _))
  · have started := slots.started
    omega

theorem Slots.last_le (slots : Slots l front r) (valid : r.Valid) : r.last + 1 ≤ front + 32768 := by
  have bound := slots.last_lt valid
  have span := slots.span
  omega

theorem Slots.getElem_seqNr (slots : Slots l front r) (inside : l[j]? = some pkt) : pkt.seqNr = seqOf (front + j) :=
  (slots.slot j pkt inside).number

theorem Slots.head_seqNr (slots : Slots l front r) (head : l.head? = some pkt) : pkt.seqNr = seqOf front :=
  slots.getElem_seqNr (j := 0) (by rw [← List.head?_eq_getElem?,head])

theorem Slots.back_seqNr (slots : Slots l front r) (back : l.getLast? = some pkt) :
    pkt.seqNr = seqOf (front + l.length - 1) := by
  rw [List.getLast?_eq_getElem?] at back
  have inside : l.length - 1 < l.length := (List.getElem?_eq_some_iff.mp back).choose
  rw [slots.getElem_seqNr back]
  congr 1
  omega

-- One call of WindowPacket::read, in terms of what was left of the packet.
theorem WindowPacket.read_left (pkt : WindowPacket) (packet : Buffer) (maxLen : Nat) (inside : pkt.bytesRead ≤ packet.size) :
    ∃ pkt' bytes, pkt.read packet maxLen = some (pkt',bytes) ∧ pkt'.seqNr = pkt.seqNr ∧ pkt'.packet = pkt.packet ∧
      bytes = (packet.data.drop pkt.bytesRead.toNat).take maxLen ∧
      pkt'.bytesRead.toNat = pkt.bytesRead.toNat + bytes.length ∧
      pkt.bytesRead.toNat + bytes.length ≤ packet.data.length := by
  have size := packet.size_toNat
  have bound := packet.size_lt
  have le : pkt.bytesRead.toNat ≤ packet.data.length := by
    rw [← size]
    exact UInt32.le_iff_toNat_le.mp inside
  have left : (packet.size - pkt.bytesRead).toNat = packet.data.length - pkt.bytesRead.toNat := by
    rw [UInt32.toNat_sub_of_le _ _ inside,size]
  have cut : (packet.data.drop pkt.bytesRead.toNat).take (min (packet.data.length - pkt.bytesRead.toNat) maxLen) =
      (packet.data.drop pkt.bytesRead.toNat).take maxLen := by
    rw [List.take_eq_take_iff,List.length_drop]
    omega
  rw [WindowPacket.read]
  simp only [left,cut]
  rw [if_neg (UInt32.not_lt.mpr inside)]
  refine ⟨_,_,rfl,rfl,rfl,rfl,?_,?_⟩
  · simp
    omega
  · simp
    omega

theorem Slots.set (slots : Slots l front r) (base : r'.base = r.base) (behind : front ≤ r'.first)
    (beyond : ∀ n, front + l.length ≤ n → r'.got n = none)
    (newest : l ≠ [] → r'.got (front + l.length - 1) ≠ none) (here : SlotOf r' (front + j) cell)
    (others : ∀ k pkt, k ≠ j → SlotOf r (front + k) pkt → SlotOf r' (front + k) pkt) :
    Slots (l.set j cell) front r' where
  started := base ▸ slots.started
  behind := behind
  slot := by
    intro k pkt inside
    rw [List.getElem?_set] at inside
    split at inside
    · rename_i same
      split at inside <;> cases inside
      exact same ▸ here
    · exact others k pkt (by omega) (slots.slot k pkt inside)
  beyond := by
    intro n far
    rw [List.length_set] at far
    exact beyond n far
  newest := by
    intro any
    rw [List.length_set]
    exact newest (by simpa using any)
  span := by
    rw [List.length_set]
    exact slots.span

theorem Slots.takeRest {cell : WindowPacket} (slots : Slots l front r) (current : front + j = r.first) (number : cell.seqNr = seqOf (front + j))
    (cleared : cell.packet = none) : Slots (l.set j cell) front r.takeRest := by
  have behind := slots.behind
  refine slots.set rfl (Nat.le_succ_of_le behind) slots.beyond slots.newest ?_ ?_
  · refine ⟨number,fun _ => .inl ?_,?_⟩
    · show front + j < r.first + 1
      omega
    · intro packet present
      simp [cleared] at present
  · intro k pkt other old
    refine ⟨old.number,?_,?_⟩
    · intro none
      exact (old.missing none).imp Nat.lt_succ_of_lt id
    · intro packet present
      obtain ⟨after,inside,stretch,stored,rest⟩ := old.held packet present
      refine ⟨by show r.first + 1 ≤ _; omega,inside,stretch,stored,?_⟩
      rw [rest,Reassembly.unread_of_ne _ (by omega),Reassembly.unread_takeRest]

theorem Slots.takePart {cell : WindowPacket} {packet : Buffer} (slots : Slots l front r) (current : front + j = r.first)
    (number : cell.seqNr = seqOf (front + j)) (present : cell.packet = some packet)
    (stored : r.got r.first = some stretch) (inside : cell.bytesRead ≤ packet.size)
    (rest : packet.data.drop cell.bytesRead.toNat = stretch.drop (r.part + count)) :
    Slots (l.set j cell) front (r.takePart count) := by
  refine slots.set rfl slots.behind slots.beyond slots.newest ?_ ?_
  · refine ⟨number,?_,?_⟩
    · intro none
      simp [present] at none
    · intro packet' same
      obtain rfl : packet = packet' := Option.some.inj (present.symm.trans same)
      refine ⟨by show r.first ≤ _; omega,inside,stretch,current ▸ stored,?_⟩
      rw [rest,Reassembly.unread_takePart stretch current]
  · intro k pkt other old
    refine ⟨old.number,old.missing,?_⟩
    intro packet' present'
    obtain ⟨after,inside',stretch',stored',rest'⟩ := old.held packet' present'
    refine ⟨after,inside',stretch',stored',?_⟩
    have away : front + k ≠ r.first := by omega
    rw [rest',Reassembly.unread_of_ne _ away,Reassembly.unread_takePart_of_ne _ away]

theorem heldBytes_set (cell : WindowPacket) (inside : l[j]? = some pkt) :
    heldBytes (l.set j cell) + pkt.left = heldBytes l + cell.left := by
  have at_j : j < l.length := (List.getElem?_eq_some_iff.mp inside).choose
  have split : l = l.take j ++ pkt :: l.drop (j + 1) := by
    rw [← (List.getElem?_eq_some_iff.mp inside).choose_spec]
    simp
  have split' : l.set j cell = l.take j ++ cell :: l.drop (j + 1) := by
    rw [List.set_eq_take_append_cons_drop,if_pos at_j]
  rw [split',heldBytes]
  conv_rhs => rw [split]
  simp only [heldBytes,List.map_append,List.map_cons,List.sum_append,List.sum_cons]
  omega

structure Reads (r r' : Reassembly UInt8) (bytes : List UInt8) : Prop where
  base : r'.base = r.base
  last : r'.last = r.last
  got : r'.got = r.got
  forward : r.first ≤ r'.first
  delivered : r'.delivered = r.delivered ++ bytes

theorem Reads.refl (r : Reassembly UInt8) : Reads r r [] :=
  ⟨rfl,rfl,rfl,Nat.le_refl _,(List.append_nil _).symm⟩

theorem Reads.trans (ab : Reads a b xs) (bc : Reads b c ys) : Reads a c (xs ++ ys) :=
  ⟨bc.base.trans ab.base,bc.last.trans ab.last,bc.got.trans ab.got,Nat.le_trans ab.forward bc.forward,
   by rw [bc.delivered,ab.delivered,List.append_assoc]⟩

theorem Repr.space_after (rep : Repr w front r) (inside : w.incomingPackets[j]? = some pkt)
    (left : cell.left + count = pkt.left) :
    (w.windowSpace + UInt32.ofNat count).toNat = w.windowSpace.toNat + count ∧
    (w.windowSpace + UInt32.ofNat count).toNat + heldBytes (w.incomingPackets.set j cell) = w.capacity.toNat := by
  have space := rep.space
  have bound := w.capacity.toNat_lt
  have held := heldBytes_set cell inside
  rw [UInt32.toNat_add,UInt32.toNat_ofNat']
  omega

-- The slot at first_seq_nr after a read that took `bytes` of it: a packet that
-- has been read up to its end gives way to the next one.
section ReadSlot
variable {w : LocalWindow} {r : Reassembly UInt8} {pkt cell : WindowPacket} {packet : Buffer} {bytes : List UInt8}
variable (rep : Repr w front r) (current : front + j = r.first) (inside : w.incomingPackets[j]? = some pkt)
  (present : pkt.packet = some packet) (number : cell.seqNr = pkt.seqNr)
  (taken : bytes = (packet.data.drop pkt.bytesRead.toNat).take maxLen)
  (moved : cell.bytesRead.toNat = pkt.bytesRead.toNat + bytes.length)
  (within : pkt.bytesRead.toNat + bytes.length ≤ packet.data.length)
include rep current inside present

theorem Repr.currentSlot : ∃ stretch, r.got r.first = some stretch ∧ w.incomingPackets ≠ [] ∧
    packet.data.drop pkt.bytesRead.toNat = stretch.drop r.part := by
  obtain ⟨_,_,stretch,stored,rest⟩ := (rep.slot j pkt inside).held packet present
  rw [current] at stored rest
  refine ⟨stretch,stored,?_,rest.trans (if_pos rfl)⟩
  intro none
  simp [none] at inside

include number taken moved within

omit within in
theorem Repr.readSlot_full (full : cell.fullyRead packet) :
    Repr {w with
      windowSpace := w.windowSpace + UInt32.ofNat bytes.length
      bytesAvailable := w.bytesAvailable - UInt32.ofNat bytes.length
      incomingPackets := w.incomingPackets.set j {cell with packet := none}
      firstSeqNr := w.firstSeqNr + 1} front r.takeRest ∧
    Reads r r.takeRest bytes ∧ (w.windowSpace + UInt32.ofNat bytes.length).toNat = w.windowSpace.toNat + bytes.length := by
  obtain ⟨stretch,stored,any,rest⟩ := rep.currentSlot current inside present
  have left : pkt.left = packet.data.length - pkt.bytesRead.toNat := by
    rw [WindowPacket.left,present]
  have end_of : cell.bytesRead.toNat = packet.data.length := by
    rw [← packet.size_toNat,(beq_iff_eq.mp full : cell.bytesRead = packet.size)]
  have all : bytes = stretch.drop r.part := by
    have long := congrArg List.length taken
    rw [List.length_take,List.length_drop] at long
    rw [← rest,taken,List.take_eq_self_iff,List.length_drop]
    omega
  have gone : ({cell with packet := none} : WindowPacket).left + bytes.length = pkt.left := by
    show 0 + bytes.length = _
    omega
  have space := rep.space_after inside gone
  refine ⟨⟨rep.toSlots.takeRest current (number.trans (rep.slot j pkt inside).number) rfl,
    Reassembly.takeRest_valid rep.valid stored,rep.lastSeqNr,?_,?_,space.2⟩,?_,space.1⟩
  · intro _
    show w.firstSeqNr + 1 = seqOf (r.first + 1)
    rw [rep.firstSeqNr any,seqOf_succ]
  · intro none
    simp [any] at none
  · exact ⟨rfl,rfl,rfl,Nat.le_succ _,by rw [Reassembly.delivered_takeRest rep.valid stored,all]⟩

theorem Repr.readSlot_part (same : cell.packet = pkt.packet) :
    Repr {w with
      windowSpace := w.windowSpace + UInt32.ofNat bytes.length
      bytesAvailable := w.bytesAvailable - UInt32.ofNat bytes.length
      incomingPackets := w.incomingPackets.set j cell} front (r.takePart bytes.length) ∧
    Reads r (r.takePart bytes.length) bytes ∧
    (w.windowSpace + UInt32.ofNat bytes.length).toNat = w.windowSpace.toNat + bytes.length := by
  obtain ⟨stretch,stored,any,rest⟩ := rep.currentSlot current inside present
  have left : pkt.left = packet.data.length - pkt.bytesRead.toNat := by
    rw [WindowPacket.left,present]
  have left' : cell.left = packet.data.length - cell.bytesRead.toNat := by
    rw [WindowPacket.left,same,present]
  have left : cell.left + bytes.length = pkt.left := by omega
  have space := rep.space_after inside left
  refine ⟨⟨rep.toSlots.takePart current (number.trans (rep.slot j pkt inside).number) (same.trans present) stored ?_ ?_,
    Reassembly.takePart_valid rep.valid stored,rep.lastSeqNr,fun _ => rep.firstSeqNr any,?_,space.2⟩,?_,space.1⟩
  · rw [UInt32.le_iff_toNat_le,packet.size_toNat]
    omega
  · rw [moved,← List.drop_drop,rest,List.drop_drop]
  · intro none
    simp [any] at none
  · refine ⟨rfl,rfl,rfl,Nat.le_refl _,?_⟩
    rw [Reassembly.delivered_takePart stored,taken,← rest]
    simp

end ReadSlot

-- The reader never stops at the end of a packet with something in it.
def Unfinished (r : Reassembly UInt8) : Prop := ∀ stretch, r.got r.first = some stretch → stretch ≠ [] → r.part < stretch.length

-- What a read that had `written` already took of the window: as many bytes as it
-- was asked for, unless it came to the end of the run of packets.
structure Amount (maxLen : UInt32) (written bytes : List UInt8) (w w' : LocalWindow) (r r' : Reassembly UInt8) : Prop where
  available : w'.bytesAvailable + UInt32.ofNat bytes.length = w.bytesAvailable
  space : w'.windowSpace.toNat = w.windowSpace.toNat + bytes.length
  most : written.length ≤ maxLen.toNat → written.length + bytes.length ≤ maxLen.toNat
  least : written.length + bytes.length < maxLen.toNat → r'.first = r'.last + 1
  unfinished : Unfinished r → Unfinished r'

theorem Amount.none (finished : written.length < maxLen.toNat → r.first = r.last + 1) : Amount maxLen written [] w w r r where
  available := by simp
  space := rfl
  most := id
  least := finished
  unfinished := id

theorem off_succ (off : UInt16) (short : off.toNat < 32768) : (off + 1).toNat = off.toNat + 1 := by
  rw [UInt16.toNat_add]
  have one : (1 : UInt16).toNat = 1 := rfl
  omega

-- The reader is at the end of the run when there is no packet for it to read.
theorem Repr.finished_of_missing (rep : Repr w front r) (missing : r.got r.first = none) : r.first = r.last + 1 := by
  have started := rep.valid.started
  have ready := rep.valid.ready
  by_contra before
  exact rep.valid.received r.first started (by omega) missing

theorem Repr.finished_of_outside (rep : Repr w front r) (current : front + off = r.first)
    (outside : w.incomingPackets[off]? = none) : r.first = r.last + 1 := by
  have short := List.getElem?_eq_none_iff.mp outside
  exact rep.finished_of_missing (rep.beyond _ (by omega))

theorem Repr.finished_of_gap (rep : Repr w front r) (current : front + off = r.first)
    (inside : w.incomingPackets[off]? = some pkt) (gap : pkt.packet = none) : r.first = r.last + 1 := by
  have missing := (rep.slot off pkt inside).missing gap
  rw [current] at missing
  exact rep.finished_of_missing (missing.resolve_left (Nat.lt_irrefl _))

theorem Repr.finished_of_ahead (rep : Repr w front r) (current : front + off = r.first)
    (inside : w.incomingPackets[off]? = some pkt) (ahead : ¬ seqNrCmpSE pkt.seqNr w.lastSeqNr) : r.first = r.last + 1 := by
  have ready := rep.valid.ready
  have behind := rep.behind
  have bound := rep.last_le rep.valid
  rw [rep.getElem_seqNr inside,current,rep.lastSeqNr,seqNrCmpSE_seqOf (by omega) (by omega),decide_eq_true_iff] at ahead
  omega

theorem readLoop_repr (maxLen : UInt32) (fuel : Nat) (off : UInt16) (written : List UInt8) (rep : Repr w front r)
    (current : front + off.toNat = r.first)
    (fueled : front + w.incomingPackets.length < r.first + fuel) :
    ∃ w' r' bytes, w.readLoop maxLen fuel off written = some (w',written ++ bytes) ∧ Repr w' front r' ∧
      Reads r r' bytes ∧ w'.incomingPackets.length = w.incomingPackets.length ∧ w'.capacity = w.capacity ∧
      Amount maxLen written bytes w w' r r' := by
  induction fuel generalizing w r off written with
  | zero =>
      -- first_seq_nr never runs past the slots
      have ready := rep.valid.ready
      have bound := rep.last_lt rep.valid
      omega
  | succ fuel ih =>
      rw [LocalWindow.readLoop]
      have stop : (written.length < maxLen.toNat → r.first = r.last + 1) →
          ∃ w' r' bytes, some (w,written) = some (w',written ++ bytes) ∧ Repr w' front r' ∧
          Reads r r' bytes ∧ w'.incomingPackets.length = w.incomingPackets.length ∧ w'.capacity = w.capacity ∧
          Amount maxLen written bytes w w' r r' :=
        fun finished => ⟨w,r,[],by rw [List.append_nil],rep,Reads.refl r,rfl,rfl,.none finished⟩
      split
      · rename_i outside
        exact stop fun _ => rep.finished_of_outside current outside
      · rename_i pkt inside
        split
        · rename_i gap
          exact stop fun _ => rep.finished_of_gap current inside gap
        · rename_i packet present
          split
          · rename_i wanted
            obtain ⟨_,start,_⟩ := (rep.slot _ pkt inside).held packet present
            obtain ⟨cell,bytes,result,number,same,taken,moved,within⟩ := 
              pkt.read_left packet (maxLen.toNat - written.length) start
            rw [result]
            simp only
            have short : off.toNat < w.incomingPackets.length := (List.getElem?_eq_some_iff.mp inside).choose
            have span := rep.span
            have count : bytes.length ≤ maxLen.toNat - written.length := by
              rw [taken]
              exact List.length_take_le _ _
            split
            · rename_i full
              obtain ⟨next,read,more⟩ := rep.readSlot_full current inside present number taken moved full
              have current' : front + (off + 1).toNat = r.takeRest.first := by
                rw [off_succ off (by omega)]
                show _ = r.first + 1
                omega
              obtain ⟨w',r',rest,result',rep',read',length,capacity,amount⟩ :=
                ih (off + 1) (written ++ bytes) next current' (by
                  show front + (List.set _ _ _).length < r.first + 1 + fuel
                  rw [List.length_set]
                  omega)
              refine ⟨w',r',bytes ++ rest,?_,rep',read.trans read',length.trans List.length_set,capacity,?_⟩
              · rw [result',List.append_assoc]
              · have later := amount.least
                have most := amount.most
                have available := amount.available
                have space := amount.space
                simp only [List.length_append] at later most
                refine ⟨?_,?_,?_,?_,fun _ => amount.unfinished fun _ _ some => List.length_pos_of_ne_nil some⟩
                · rw [List.length_append,UInt32.ofNat_add,UInt32.add_comm (UInt32.ofNat bytes.length),← UInt32.add_assoc,
                    available]
                  exact UInt32.sub_add_cancel _ _
                · rw [space,List.length_append,← Nat.add_assoc]
                  exact congrArg (· + rest.length) more
                · intro room
                  have reached := most (by omega)
                  rw [List.length_append]
                  omega
                · intro less
                  rw [List.length_append] at less
                  exact later (by omega)
            · rename_i partly
              obtain ⟨next,read,more⟩ := rep.readSlot_part current inside present number taken moved within same
              obtain ⟨stretch,stored,_,left⟩ := rep.currentSlot current inside present
              have unread : bytes.length < (packet.data.drop pkt.bytesRead.toNat).length := by
                rw [List.length_drop]
                have other : cell.bytesRead.toNat ≠ packet.data.length := by
                  intro equal
                  exact partly (beq_iff_eq.mpr (UInt32.toNat_inj.mp (equal.trans packet.size_toNat.symm)))
                omega
              have all : bytes.length = maxLen.toNat - written.length := by
                have long := congrArg List.length taken
                rw [List.length_take] at long
                omega
              refine ⟨_,_,bytes,rfl,next,read,List.length_set,rfl,UInt32.sub_add_cancel _ _,more,fun _ => by omega,
                fun _ => by omega,fun _ stretch' again _ => ?_⟩
              obtain rfl : stretch = stretch' := Option.some.inj (stored.symm.trans again)
              rw [left,List.length_drop] at unread
              show r.part + bytes.length < stretch.length
              omega
          · rename_i unwanted
            refine stop fun room => ?_
            exact rep.finished_of_ahead current inside fun upTo => unwanted ⟨upTo,room⟩

theorem Repr.readIndex (rep : Repr w front r) (any : w.incomingPackets ≠ []) :
    ∃ head, w.incomingPackets.head? = some head ∧ (seqNrDiff head.seqNr w.firstSeqNr).toNat = r.first - front := by
  obtain ⟨head,found⟩ : ∃ head, w.incomingPackets.head? = some head := by
    cases slots : w.incomingPackets with
    | nil => exact absurd slots any
    | cons head _ => exact ⟨head,rfl⟩
  have ready := rep.valid.ready
  have near := rep.last_le rep.valid
  refine ⟨head,found,?_⟩
  rw [rep.head_seqNr found,rep.firstSeqNr any]
  exact seqNrDiff_seqOf rep.behind (by omega)

theorem heldBytes_drop (empty : ∀ j pkt, j < k → l[j]? = some pkt → pkt.left = 0) :
    heldBytes (l.drop k) = heldBytes l := by
  have split : heldBytes l = heldBytes (l.take k) + heldBytes (l.drop k) := by
    conv_lhs => rw [← List.take_append_drop k l,heldBytes,List.map_append,List.sum_append]
    rfl
  have front : heldBytes (l.take k) = 0 := by
    rw [heldBytes,List.sum_eq_zero_iff_forall_eq_nat]
    intro left among
    obtain ⟨pkt,member,rfl⟩ := List.mem_map.mp among
    obtain ⟨j,inside⟩ := List.mem_iff_getElem?.mp member
    rw [List.getElem?_take] at inside
    split at inside
    · exact empty j pkt ‹_› inside
    · cases inside
  omega

-- Erasing the slots that have been read leaves the held bytes as they are.
theorem Slots.eraseRead (slots : Slots l front r) (valid : r.Valid) :
    Slots (l.drop (r.first - front)) (front + (r.first - front)) r ∧
    heldBytes (l.drop (r.first - front)) = heldBytes l := by
  have behind := slots.behind
  have started := slots.started
  have bound := slots.last_lt valid
  have ready := valid.ready
  have span := slots.span
  refine ⟨⟨by omega,by omega,?_,?_,?_,?_⟩,?_⟩
  · intro j pkt inside
    rw [List.getElem?_drop] at inside
    rw [Nat.add_assoc]
    exact slots.slot _ pkt inside
  · intro n far
    rw [List.length_drop] at far
    exact slots.beyond n (by omega)
  · intro any
    have long : r.first - front < l.length := by
      by_contra short
      exact any (List.drop_eq_nil_of_le (by omega))
    have same : front + (r.first - front) + (l.drop (r.first - front)).length - 1 = front + l.length - 1 := by
      rw [List.length_drop]
      omega
    rw [same]
    exact slots.newest (List.ne_nil_of_length_pos (by omega))
  · rw [List.length_drop]
    omega
  · refine heldBytes_drop ?_
    intro j pkt short inside
    cases present : pkt.packet with
    | none => rw [WindowPacket.left,present]
    | some packet =>
        have after := ((slots.slot j pkt inside).held packet present).1
        omega

theorem eraseRead_repr (rep : Repr w front r) (any : w.incomingPackets ≠ []) :
    ∃ w' front', w.eraseRead = some w' ∧ Repr w' front' r ∧ w'.capacity = w.capacity ∧
      w'.windowSpace = w.windowSpace ∧ w'.bytesAvailable = w.bytesAvailable ∧
      front' + w'.incomingPackets.length = front + w.incomingPackets.length ∧
      front' = if 20 < r.first - front then r.first else front := by
  obtain ⟨head,found,count⟩ := rep.readIndex any
  have behind := rep.behind
  have many : seqNrDiff head.seqNr w.firstSeqNr > 20 ↔ 20 < r.first - front := by
    rw [← count]
    exact UInt16.lt_iff_toNat_lt
  rw [LocalWindow.eraseRead,found]
  simp only
  split
  · rename_i bunch
    have erased := rep.toSlots.eraseRead rep.valid
    have bound := rep.last_lt rep.valid
    have ready := rep.valid.ready
    rw [count,if_pos (by omega)]
    refine ⟨_,_,rfl,⟨erased.1,rep.valid,rep.lastSeqNr,fun _ => rep.firstSeqNr any,?_,?_⟩,rfl,rfl,rfl,?_,?_⟩
    · intro none
      have short := List.drop_eq_nil_iff.mp none
      omega
    · exact (congrArg (w.windowSpace.toNat + ·) erased.2).trans rep.space
    · rw [List.length_drop]
      omega
    · rw [if_pos (many.mp bunch)]
      omega
  · rename_i few
    exact ⟨w,front,rfl,rep,rfl,rfl,rfl,rfl,(if_neg (few ∘ many.mpr)).symm⟩

theorem read_repr (rep : Repr w front r) (any : w.incomingPackets ≠ []) (maxLen : UInt32) :
    ∃ w' front' r' bytes, w.read maxLen = some (w',bytes) ∧ Repr w' front' r' ∧ Reads r r' bytes ∧
      w'.capacity = w.capacity ∧ Amount maxLen [] bytes w w' r r' ∧
      front' + w'.incomingPackets.length = front + w.incomingPackets.length ∧
      front' = if 20 < r'.first - front then r'.first else front := by
  obtain ⟨head,found,count⟩ := rep.readIndex any
  have behind := rep.behind
  obtain ⟨w',r',bytes,looped,rep',read,length,capacity,amount⟩ :=
    readLoop_repr maxLen (w.incomingPackets.length + 1) (seqNrDiff head.seqNr w.firstSeqNr) [] rep (by omega) (by omega)
  obtain ⟨w'',front',erased,rep'',capacity',space,available,newest,front_eq⟩ :=
    eraseRead_repr rep' (List.ne_nil_of_length_pos (length ▸ List.length_pos_of_ne_nil any))
  refine ⟨w'',front',r',bytes,?_,rep'',read,capacity'.trans capacity,
    ⟨available ▸ amount.available,space ▸ amount.space,amount.most,amount.least,amount.unfinished⟩,
    length ▸ newest,front_eq⟩
  simp [LocalWindow.read,found,looped,erased]

theorem gaps_seqOf (ordered : m ≤ n) (near : n < m + 32768) :
    gaps (seqOf m) (seqOf n) = (List.range' m (n - m)).map fun k => .gap (seqOf k) := by
  obtain ⟨count,rfl⟩ := Nat.exists_eq_add_of_le ordered
  rw [gaps,seqOf_sub_toNat ordered (by omega),Nat.add_sub_cancel_left]
  clear ordered
  induction count generalizing m with
  | zero => rfl
  | succ count ih =>
      rw [gapLoop,seqNrCmpS_seqOf (by omega) (by omega),if_pos (by simp),seqOf_succ,List.range'_succ,List.map_cons]
      have rest := ih (m := m + 1) (by omega)
      rw [show m + 1 + count = m + (count + 1) by omega] at rest
      rw [rest]

theorem SlotOf.store (old : SlotOf r m pkt) (other : m ≠ n) : SlotOf (r.store n stretch upTo) m pkt := by
  have same : (r.store n stretch upTo).got m = r.got m := Function.update_of_ne other _ _
  refine ⟨old.number,?_,?_⟩
  · intro none
    rw [same]
    exact old.missing none
  · intro packet present
    rw [same]
    exact old.held packet present

theorem SlotOf.arrived {r : Reassembly UInt8} {packet : Buffer} {cell : WindowPacket} (valid : r.Valid) (missing : r.got n = none) (ready : r.first ≤ n)
    (inside : dataOff ≤ packet.size) (number : cell.seqNr = seqOf n) (present : cell.packet = some packet)
    (start : cell.bytesRead = dataOff) :
    SlotOf (r.store n (packet.data.drop dataOff.toNat) upTo) n cell := by
  refine ⟨number,?_,?_⟩
  · intro none
    simp [present] at none
  · intro packet' same
    obtain rfl : packet = packet' := Option.some.inj (present.symm.trans same)
    refine ⟨ready,start ▸ inside,_,Function.update_self _ _ _,?_⟩
    rw [start]
    by_cases current : n = r.first
    · have part := valid.fresh (current ▸ missing)
      exact ((if_pos current).trans (by simp [Reassembly.store,part])).symm
    · exact (Reassembly.unread_of_ne (r := r.store n _ upTo) _ current).symm

theorem Slots.append {packet : Buffer} (slots : Slots l front r) (valid : r.Valid) (after : front + l.length ≤ n)
    (near : n < front + 32768) (inside : dataOff ≤ packet.size) :
    Slots (l ++ gaps (seqOf (front + l.length)) (seqOf n) ++ [⟨seqOf n,some packet,dataOff⟩]) front
      (r.store n (packet.data.drop dataOff.toNat) upTo) := by
  have ready := valid.ready
  have bound := slots.last_lt valid
  have length : (l ++ gaps (seqOf (front + l.length)) (seqOf n) ++ [WindowPacket.mk (seqOf n) (some packet) dataOff]).length =
      n - front + 1 := by
    rw [gaps_seqOf after (by omega)]
    simp
    omega
  refine ⟨slots.started,slots.behind,?_,?_,?_,?_⟩
  · intro j pkt at_j
    by_cases old : j < l.length
    · rw [List.append_assoc,List.getElem?_append_left old] at at_j
      exact (slots.slot j pkt at_j).store (by omega)
    · rw [gaps_seqOf after (by omega)] at at_j
      by_cases gap : j < n - front
      · rw [List.getElem?_append_left (by simp; omega),List.getElem?_append_right (by omega),List.getElem?_map,
          List.getElem?_range' (by omega)] at at_j
        obtain rfl : WindowPacket.gap (seqOf (front + l.length + 1 * (j - l.length))) = pkt := by simpa using at_j
        have place : front + l.length + 1 * (j - l.length) = front + j := by omega
        refine SlotOf.store ⟨by rw [place]; rfl,fun _ => .inr (slots.beyond _ (by omega)),?_⟩ (by omega)
        intro packet present
        cases present
      · have last : j = n - front := by
          have := (List.getElem?_eq_some_iff.mp at_j).choose
          rw [← gaps_seqOf after (by omega),length] at this
          omega
        rw [List.getElem?_append_right (by simp; omega)] at at_j
        have zero : j - (l ++ (List.range' (front + l.length) (n - (front + l.length))).map
            fun k => WindowPacket.gap (seqOf k)).length = 0 := by
          simp
          omega
        rw [zero] at at_j
        obtain rfl : ⟨seqOf n,some packet,dataOff⟩ = pkt := by simpa using at_j
        rw [show front + j = n by omega]
        exact SlotOf.arrived valid (slots.beyond n after) (by omega) inside rfl rfl rfl
  · intro m far
    rw [length] at far
    rw [Reassembly.store]
    simp only [Function.update_of_ne (show m ≠ n by omega)]
    exact slots.beyond m (by omega)
  · intro _
    rw [length,show front + (n - front + 1) - 1 = n by omega]
    simp [Reassembly.store]
  · rw [length]
    omega

theorem Slots.fill {packet : Buffer} (slots : Slots l front r) (valid : r.Valid) (at_j : l[j]? = some pkt) (place : front + j = n)
    (ahead : r.last < n) (missing : r.got n = none) (inside : dataOff ≤ packet.size) :
    Slots (l.set j {pkt with packet := some packet,bytesRead := dataOff}) front
      (r.store n (packet.data.drop dataOff.toNat) upTo) := by
  have ready := valid.ready
  have short : j < l.length := (List.getElem?_eq_some_iff.mp at_j).choose
  refine slots.set rfl slots.behind ?_ ?_ ?_ ?_
  · intro m far
    exact (Function.update_of_ne (show m ≠ n by omega) _ _).trans (slots.beyond m far)
  · intro any
    by_cases last : front + l.length - 1 = n
    · simp [Reassembly.store,last]
    · rw [Reassembly.store]
      simp only [Function.update_of_ne last]
      exact slots.newest any
  · rw [place]
    exact SlotOf.arrived valid missing (by omega) inside (place ▸ (slots.slot j pkt at_j).number) rfl rfl
  · intro k other apart old
    exact old.store (by omega)

section Receive
variable {w : LocalWindow} {r : Reassembly UInt8} {packet : Buffer} {off : UInt16}

-- next_seq_nr stands for m + 1, the first count after last_seq_nr. The packets
-- passed on the way are ahead of the reader, so nothing of them has been read.
theorem advanceLoop_slots (fuel : Nat) (off : UInt16) (slots : Slots w.incomingPackets front r) (lastSeqNr : w.lastSeqNr = seqOf m)
    (place : front + off.toNat = m + 1) (ready : r.first ≤ m) (some_fuel : 0 < fuel)
    (fueled : front + w.incomingPackets.length < m + 1 + fuel) :
    ∃ upTo available, w.advanceLoop fuel off (seqOf (m + 1)) =
        some {w with bytesAvailable := available,lastSeqNr := seqOf upTo} ∧
      m ≤ upTo ∧ (∀ k, m < k → k ≤ upTo → r.got k ≠ none) ∧ r.got (upTo + 1) = none ∧
      available = w.bytesAvailable + UInt32.ofNat ((List.range' (m + 1) (upTo - m)).flatMap r.content).length := by
  induction fuel generalizing w off m with
  | zero => cases some_fuel
  | succ fuel ih =>
      rw [LocalWindow.advanceLoop]
      have stop : r.got (m + 1) = none → ∃ upTo available,
          some w = some {w with bytesAvailable := available,lastSeqNr := seqOf upTo} ∧
          m ≤ upTo ∧ (∀ k, m < k → k ≤ upTo → r.got k ≠ none) ∧ r.got (upTo + 1) = none ∧
          available = w.bytesAvailable + UInt32.ofNat ((List.range' (m + 1) (upTo - m)).flatMap r.content).length := by
        intro missing
        refine ⟨m,w.bytesAvailable,?_,Nat.le_refl _,fun k after upTo => by omega,missing,by simp⟩
        rw [← lastSeqNr]
      split
      · rename_i outside
        exact stop (slots.beyond _ (by have := List.getElem?_eq_none_iff.mp outside; omega))
      · rename_i pkt inside
        have slot := slots.slot _ pkt inside
        rw [place] at slot
        split
        · rename_i none
          exact stop ((slot.missing none).resolve_left (by omega))
        · rename_i packet present
          have short : off.toNat < w.incomingPackets.length := (List.getElem?_eq_some_iff.mp inside).choose
          have span := slots.span
          obtain ⟨_,started,stretch,stored,whole⟩ := slot.held packet present
          rw [Reassembly.unread_of_ne _ (by omega)] at whole
          have size : packet.size - pkt.bytesRead = UInt32.ofNat (r.content (m + 1)).length := by
            apply UInt32.toNat_inj.mp
            have length := congrArg List.length whole
            have bound := packet.size_lt
            rw [List.length_drop] at length
            rw [UInt32.toNat_sub_of_le _ _ started,packet.size_toNat,Reassembly.content,stored,Option.getD_some,← length,
              UInt32.toNat_ofNat']
            omega
          rw [seqOf_succ]
          obtain ⟨upTo,available,looped,later,run,gap,gained⟩ := ih (off + 1) (m := m + 1)
            (w := {w with bytesAvailable := w.bytesAvailable + (packet.size - pkt.bytesRead),lastSeqNr := seqOf (m + 1)})
            slots rfl (by rw [off_succ off (by omega)]; omega) (by omega) (by omega)
            (by show front + w.incomingPackets.length < _; omega)
          refine ⟨upTo,available,looped,by omega,?_,gap,?_⟩
          · intro k after within
            by_cases same : k = m + 1
            · simp [same,stored]
            · exact run k (by omega) within
          · rw [gained,show upTo - m = upTo - (m + 1) + 1 by omega,List.range'_succ,List.flatMap_cons,List.length_append,
              UInt32.ofNat_add,← UInt32.add_assoc,← size]

-- last_seq_nr + 1 and the run behind it, once the packet has its slot.
theorem advance_slots (dataSize : UInt32) (slots : Slots w.incomingPackets front (r.store n stretch r.last)) (valid : r.Valid)
    (any : w.incomingPackets ≠ []) (lastSeqNr : w.lastSeqNr = seqOf r.last) (ahead : r.last < n)
    (near : n < front + 32768) (sized : dataSize = UInt32.ofNat stretch.length) :
    ∃ upTo available, w.advance (seqOf n) dataSize =
        some {w with bytesAvailable := available,lastSeqNr := seqOf upTo} ∧
      r.last ≤ upTo ∧ (r.store n stretch upTo).Valid ∧
      available = w.bytesAvailable +
        UInt32.ofNat ((List.range' (r.last + 1) (upTo - r.last)).flatMap (r.store n stretch upTo).content).length := by
  obtain ⟨head,found⟩ : ∃ head, w.incomingPackets.head? = some head := ⟨_,List.head?_eq_some_head any⟩
  have behind : front ≤ r.first := slots.behind
  have ready := valid.ready
  rw [LocalWindow.advance,found]
  simp only [lastSeqNr,seqOf_succ]
  split
  · rename_i same
    obtain rfl : n = r.last + 1 := seqOf_inj (by omega) (by omega) same
    have index : (seqNrDiff head.seqNr (seqOf (r.last + 1 + 1))).toNat = r.last + 2 - front := by
      rw [slots.head_seqNr found]
      exact seqNrDiff_seqOf (by omega) (by omega)
    obtain ⟨upTo,available,looped,later,run,gap,gained⟩ := advanceLoop_slots (w.incomingPackets.length + 1)
      (seqNrDiff head.seqNr (seqOf (r.last + 1 + 1))) (m := r.last + 1)
      (w := {w with bytesAvailable := w.bytesAvailable + dataSize,lastSeqNr := seqOf (r.last + 1)})
      slots rfl (by omega) (by show r.first ≤ _; omega) (by omega)
      (by show front + w.incomingPackets.length < _; omega)
    refine ⟨upTo,available,looped,by omega,Reassembly.store_valid valid ahead (by omega) ?_ gap,?_⟩
    · intro k after within
      by_cases same : k = r.last + 1
      · simp [Reassembly.store,same]
      · exact run k (by omega) within
    · have here : (r.store (r.last + 1) stretch upTo).content (r.last + 1) = stretch := by
        simp [Reassembly.content,Reassembly.store]
      rw [gained,show upTo - r.last = upTo - (r.last + 1) + 1 by omega,List.range'_succ,List.flatMap_cons,List.length_append,
        here,UInt32.ofNat_add,← UInt32.add_assoc,sized]
      rfl
  · rename_i other
    refine ⟨r.last,w.bytesAvailable,by rw [← lastSeqNr],Nat.le_refl _,
      Reassembly.store_valid valid ahead (Nat.le_refl _) (fun k after within => by omega) ?_,by simp⟩
    have apart : r.last + 1 ≠ n := by
      rintro rfl
      exact other rfl
    exact (Function.update_of_ne apart _ _).trans valid.gap

theorem Slots.store_last (slots : Slots l front (r.store n stretch last)) : Slots l front (r.store n stretch upTo) where
  started := slots.started
  behind := slots.behind
  slot := by
    intro j pkt inside
    have old := slots.slot j pkt inside
    exact ⟨old.number,old.missing,old.held⟩
  beyond := slots.beyond
  newest := slots.newest
  span := slots.span

theorem heldBytes_append (l l' : List WindowPacket) : heldBytes (l ++ l') = heldBytes l + heldBytes l' := by
  rw [heldBytes,List.map_append,List.sum_append]
  rfl

theorem heldBytes_gaps (ordered : m ≤ n) (near : n < m + 32768) : heldBytes (gaps (seqOf m) (seqOf n)) = 0 := by
  rw [gaps_seqOf ordered near,heldBytes,List.sum_eq_zero_iff_forall_eq_nat]
  intro left among
  simp only [List.map_map,List.mem_map] at among
  obtain ⟨k,_,rfl⟩ := among
  rfl

theorem place_repr (rep : Repr w front r) (ahead : r.last < n) (near : n < front + 32768)
    (inside : dataOff ≤ packet.size) :
    (w.place (seqOf n) packet dataOff = .alreadyGot ∧ r.got n ≠ none) ∨
    ∃ slots, w.place (seqOf n) packet dataOff =
        .placed {w with firstSeqNr := seqOf r.first,incomingPackets := slots} ∧
      r.got n = none ∧ Slots slots front (r.store n (packet.data.drop dataOff.toNat) r.last) ∧ slots ≠ [] ∧
      heldBytes slots = heldBytes w.incomingPackets + (packet.data.length - dataOff.toNat) := by
  have ready := rep.valid.ready
  have behind := rep.behind
  have bound := rep.last_lt rep.valid
  have span := rep.span
  -- a packet behind the last slot, with the gaps before it
  have appended : front + w.incomingPackets.length ≤ n → ∃ slots,
      slots = w.incomingPackets ++ gaps (seqOf (front + w.incomingPackets.length)) (seqOf n) ++
        [⟨seqOf n,some packet,dataOff⟩] ∧
      r.got n = none ∧ Slots slots front (r.store n (packet.data.drop dataOff.toNat) r.last) ∧ slots ≠ [] ∧
      heldBytes slots = heldBytes w.incomingPackets + (packet.data.length - dataOff.toNat) := by
    intro after
    refine ⟨_,rfl,rep.beyond n after,rep.toSlots.append rep.valid after near inside,by simp,?_⟩
    rw [heldBytes_append,heldBytes_append,heldBytes_gaps after (by omega)]
    simp [heldBytes,WindowPacket.left]
  rw [LocalWindow.place]
  split
  · rename_i head back found found'
    have any : w.incomingPackets ≠ [] := by
      intro none
      simp [none] at found
    have long := List.length_pos_of_ne_nil any
    rw [rep.back_seqNr found',seqNrCmpS_seqOf (by omega) (by omega)]
    split
    · rename_i after
      obtain ⟨slots,rfl,rest⟩ := appended (by have := of_decide_eq_true after; omega)
      refine .inr ⟨_,?_,rest⟩
      rw [← rep.firstSeqNr any,seqOf_succ,show front + w.incomingPackets.length - 1 + 1 = front + w.incomingPackets.length by omega]
    · rename_i within
      have within' : n < front + w.incomingPackets.length := by
        have := of_decide_eq_false (Bool.not_eq_true _ ▸ within)
        omega
      rw [rep.head_seqNr found,seqNrDiff_seqOf (by omega) (by omega)]
      have some_slot : ∃ pkt, w.incomingPackets[n - front]? = some pkt :=
        ⟨_,List.getElem?_eq_getElem (by omega)⟩
      obtain ⟨pkt,at_n⟩ := some_slot
      have slot := rep.slot _ pkt at_n
      rw [show front + (n - front) = n by omega] at slot
      simp only [at_n]
      cases present : pkt.packet with
      | some held =>
          obtain ⟨_,_,stretch,stored,_⟩ := slot.held held present
          exact .inl ⟨by simp [WindowPacket.holds,present],by simp [stored]⟩
      | none =>
          have missing := (slot.missing present).resolve_left (by omega)
          refine .inr ⟨_,?_,missing,rep.toSlots.fill rep.valid at_n (by omega) ahead missing inside,by simpa using any,?_⟩
          · simp [WindowPacket.holds,present,rep.firstSeqNr any]
          · have held := heldBytes_set {pkt with packet := some packet,bytesRead := dataOff} at_n
            have before : pkt.left = 0 := by rw [WindowPacket.left,present]
            have after : ({pkt with packet := some packet,bytesRead := dataOff} : WindowPacket).left =
              packet.data.length - dataOff.toNat := rfl
            omega
  · rename_i neither
    have none : w.incomingPackets = [] := by
      by_contra any
      exact neither _ _ (List.head?_eq_some_head any) (List.getLast?_eq_some_getLast any)
    have start := rep.empty none
    obtain ⟨slots,rfl,rest⟩ := appended (by simp [none]; omega)
    refine .inr ⟨_,?_,rest⟩
    simp only [none,List.nil_append,List.length_nil,Nat.add_zero]
    rw [rep.lastSeqNr,seqOf_succ,← start,show r.first = front by omega]

-- The count a sequence number stands for when it is ahead of last_seq_nr.
def countOf (last : Nat) (w : LocalWindow) (seqNr : UInt16) : Nat := last + (seqNr - w.lastSeqNr).toNat

def LocalWindow.frontSeqNr (w : LocalWindow) : UInt16 :=
  match w.incomingPackets.head? with
  | some front => front.seqNr
  | none => w.lastSeqNr + 1

-- At most 32767 steps from the front slot, the range in which the comparisons and
-- SeqNrDiff tell the numbers of the window apart.
def LocalWindow.nearFront (w : LocalWindow) (seqNr : UInt16) : Bool := seqNr - w.frontSeqNr < 32768

theorem Repr.frontSeqNr (rep : Repr w front r) : w.frontSeqNr = seqOf front := by
  rw [LocalWindow.frontSeqNr]
  split
  · rename_i found
    exact rep.head_seqNr found
  · rename_i none
    rw [rep.empty (List.head?_eq_none_iff.mp none),rep.lastSeqNr,seqOf_succ]

theorem Repr.countOf_near (rep : Repr w front r) (ahead : seqNrCmpSE seqNr w.lastSeqNr = false)
    (near : w.nearFront seqNr) : r.last < countOf r.last w seqNr ∧ countOf r.last w seqNr < front + 32768 ∧
      seqOf (countOf r.last w seqNr) = seqNr := by
  have steps := ahead_of_not_cmpSE _ _ ahead
  have bound := rep.last_le rep.valid
  have behind := rep.behind
  have ready := rep.valid.ready
  have number : seqOf (countOf r.last w seqNr) = seqNr := by
    rw [countOf,rep.lastSeqNr]
    exact seqOf_add_sub _ _
  have count : countOf r.last w seqNr = r.last + (seqNr - w.lastSeqNr).toNat := rfl
  refine ⟨by omega,?_,number⟩
  have distance : (seqNr - w.frontSeqNr).toNat = countOf r.last w seqNr - front := by
    rw [rep.frontSeqNr]
    conv_lhs => rw [← number]
    exact seqOf_sub_toNat (by omega) (by omega)
  have close : (seqNr - w.frontSeqNr).toNat < 32768 := UInt16.lt_iff_toNat_lt.mp (of_decide_eq_true near)
  omega

theorem packetReceived_repr (rep : Repr w front r)
    (fits : seqNrCmpSE seqNr w.lastSeqNr = false → ¬ w.windowSpace < packet.size - dataOff →
      dataOff ≤ packet.size ∧ w.nearFront seqNr) :
    (w.packetReceived seqNr packet dataOff = some (w,.duplicate) ∧
      (seqNrCmpSE seqNr w.lastSeqNr = true ∨ r.got (countOf r.last w seqNr) ≠ none)) ∨
    (w.packetReceived seqNr packet dataOff = some (w,.noSpace) ∧ seqNrCmpSE seqNr w.lastSeqNr = false ∧
      w.windowSpace < packet.size - dataOff) ∨
    ∃ w' upTo, w.packetReceived seqNr packet dataOff = some (w',.stored) ∧
      seqNrCmpSE seqNr w.lastSeqNr = false ∧ r.got (countOf r.last w seqNr) = none ∧
      Repr w' front (r.store (countOf r.last w seqNr) (packet.data.drop dataOff.toNat) upTo) ∧ r.last ≤ upTo ∧
      w'.capacity = w.capacity ∧
      w'.windowSpace.toNat + (packet.data.length - dataOff.toNat) = w.windowSpace.toNat ∧
      dataOff ≤ packet.size ∧ w.nearFront seqNr ∧
      w'.bytesAvailable = w.bytesAvailable + UInt32.ofNat ((List.range' (r.last + 1) (upTo - r.last)).flatMap
        (r.store (countOf r.last w seqNr) (packet.data.drop dataOff.toNat) upTo).content).length := by
  rw [LocalWindow.packetReceived]
  cases late : seqNrCmpSE seqNr w.lastSeqNr with
  | true => exact .inl ⟨rfl,.inl rfl⟩
  | false =>
      simp only [Bool.false_eq_true,if_false]
      by_cases full : w.windowSpace < packet.size - dataOff
      · exact .inr (.inl ⟨if_pos full,trivial,full⟩)
      · rw [if_neg full]
        obtain ⟨inside,near⟩ := fits late full
        obtain ⟨ahead,close,number⟩ := rep.countOf_near late near
        obtain ⟨placed,stored⟩ | ⟨slots,placed,missing,rep',any,held⟩ := place_repr rep ahead close inside
        · rw [number] at placed
          exact .inl ⟨by rw [placed],.inr stored⟩
        · have size : (packet.size - dataOff).toNat = packet.data.length - dataOff.toNat := by
            rw [UInt32.toNat_sub_of_le _ _ inside,packet.size_toNat]
          have sized : packet.size - dataOff = UInt32.ofNat (packet.data.drop dataOff.toNat).length := by
            rw [List.length_drop,← size,UInt32.ofNat_toNat]
          obtain ⟨upTo,available,advanced,later,valid,gained⟩ := advance_slots (packet.size - dataOff)
            (w := {w with firstSeqNr := seqOf r.first,incomingPackets := slots})
            rep' rep.valid any rep.lastSeqNr ahead close sized
          rw [number] at placed advanced
          have fits : packet.size - dataOff ≤ w.windowSpace := UInt32.not_lt.mp full
          have fits' := UInt32.le_iff_toNat_le.mp fits
          have space := rep.space
          have rest : (w.windowSpace - (packet.size - dataOff)).toNat =
              w.windowSpace.toNat - (packet.data.length - dataOff.toNat) := by
            rw [UInt32.toNat_sub_of_le _ _ fits,size]
          refine .inr (.inr ⟨{w with
            firstSeqNr := seqOf r.first
            incomingPackets := slots
            bytesAvailable := available
            lastSeqNr := seqOf upTo
            windowSpace := w.windowSpace - (packet.size - dataOff)},
            upTo,by simp only [placed,advanced],trivial,missing,?_,later,rfl,?_,inside,near,gained⟩)
          · exact ⟨rep'.store_last,valid,rfl,fun _ => rfl,
              fun none => absurd none any,by show _ + heldBytes slots = _; simp only [rest]; omega⟩
          · simp only [rest]
            omega

-- A packet that lies further from the front slot makes the window span that many
-- slots.
theorem Repr.near_or_long (rep : Repr w front r) (short : w.incomingPackets.length < 32768)
    (late : seqNrCmpSE seqNr w.lastSeqNr = false) (room : ¬ w.windowSpace < packet.size - dataOff) :
    w.nearFront seqNr ∨ ∃ w', w.packetReceived seqNr packet dataOff = some (w',.stored) ∧
      32768 ≤ w'.incomingPackets.length := by
  have steps := ahead_of_not_cmpSE _ _ late
  have bound := rep.last_lt rep.valid
  have behind := rep.behind
  have ready := rep.valid.ready
  have number : seqOf (countOf r.last w seqNr) = seqNr := by
    rw [countOf,rep.lastSeqNr]
    exact seqOf_add_sub _ _
  have count : countOf r.last w seqNr = r.last + (seqNr - w.lastSeqNr).toNat := rfl
  generalize countOf r.last w seqNr = n at number count
  by_cases near : n < front + 32768
  · left
    rw [LocalWindow.nearFront,rep.frontSeqNr,← number,decide_eq_true_iff,UInt16.lt_iff_toNat_lt,
      seqOf_sub_toNat (by omega) (by omega)]
    show n - front < 32768
    omega
  · right
    have any : w.incomingPackets ≠ [] := by
      intro none
      have start := rep.empty none
      omega
    have long := List.length_pos_of_ne_nil any
    have back := rep.back_seqNr (List.getLast?_eq_some_getLast any)
    have after : seqNrCmpS (w.incomingPackets.getLast any).seqNr seqNr = true := by
      rw [back,← number]
      by_cases edge : n < front + w.incomingPackets.length - 1 + 32768
      · rw [seqNrCmpS_seqOf (by omega) (by omega)]
        exact decide_eq_true (by omega)
      · rw [show front + w.incomingPackets.length - 1 = r.last by omega,number,← rep.lastSeqNr]
        exact seqNrCmpS_of_not_cmpSE late
    have skips : ¬ seqNr = w.lastSeqNr + 1 := by
      rw [← number,rep.lastSeqNr,seqOf_succ]
      intro next
      have same := seqOf_inj (by omega) (by omega) next
      omega
    have pushed : (w.incomingPackets ++ gaps ((w.incomingPackets.getLast any).seqNr + 1) seqNr ++
        [(⟨seqNr,some packet,dataOff⟩ : WindowPacket)]).length = n - front + 1 := by
      rw [back,← number,seqOf_succ,gaps_seqOf (by omega) (by omega)]
      simp only [List.length_append,List.length_map,List.length_range',List.length_singleton]
      omega
    rw [LocalWindow.packetReceived,late]
    simp only [Bool.false_eq_true,if_false,LocalWindow.place,List.head?_eq_some_head any,List.getLast?_eq_some_getLast any,
      after,if_true]
    rw [if_neg room,LocalWindow.advance]
    simp only [List.head?_append,List.head?_eq_some_head any,Option.some_or,if_neg skips]
    refine ⟨_,rfl,?_⟩
    show 32768 ≤ (w.incomingPackets ++ _ ++ [_]).length
    rw [pushed]
    omega

theorem Repr.near_of_span (rep : Repr w front r) (short : w.incomingPackets.length < 32768)
    (kept : ∀ w' outcome, w.packetReceived seqNr packet dataOff = some (w',outcome) → w'.incomingPackets.length < 32768)
    (late : seqNrCmpSE seqNr w.lastSeqNr = false) (room : ¬ w.windowSpace < packet.size - dataOff) : w.nearFront seqNr := by
  obtain near | ⟨w',result,long⟩ := rep.near_or_long short late room
  · exact near
  · have few := kept w' .stored result
    omega

end Receive

-- A window nothing has been received in, from a last sequence number on.
def LocalWindow.fresh (cap : UInt32) (lsn : UInt16) : LocalWindow := (LocalWindow.new cap).setLastSeqNr lsn

theorem fresh_repr (cap : UInt32) (lsn : UInt16) (count : Nat) (number : seqOf count = lsn) :
    Repr (.fresh cap lsn) (count + 1) (.start count) where
  started := Nat.lt_succ_self _
  behind := Nat.le_refl _
  slot := by
    intro j pkt inside
    cases inside
  beyond := fun _ _ => rfl
  newest := fun any => absurd rfl any
  span := Nat.zero_le _
  valid := Reassembly.start_valid count
  lastSeqNr := number.symm
  firstSeqNr := fun any => absurd rfl any
  empty := fun _ => rfl
  space := rfl

end KtorrentStream.Utp
