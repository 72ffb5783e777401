import KtorrentStream.Utp.Account
set_option autoImplicit true

namespace KtorrentStream.Utp
open KtorrentStream.Lib

-- A packet with this number is in one of the slots, whether or not the packets
-- before it have arrived.
def LocalWindow.holdsPacket (w : LocalWindow) (seqNr : UInt16) : Bool :=
  w.incomingPackets.any fun pkt => pkt.seqNr == seqNr && pkt.holds

-- packetReceived answers true unless there was no space.
structure Harmless (w : LocalWindow) (seqNr : UInt16) (packet : Buffer) (dataOff : UInt32) : Prop where
  duplicate : w.holdsPacket seqNr ∨ seqNrCmpSE seqNr w.lastSeqNr →
    ∃ outcome, w.packetReceived seqNr packet dataOff = some (w,outcome) ∧ outcome ≠ .noSpace
  refused : ∀ w', w.packetReceived seqNr packet dataOff = some (w',.noSpace) →
    w' = w ∧ ¬ w.holdsPacket seqNr ∧ w.windowSpace < packet.size - dataOff

-- A packet that waits for those before it comes again while the window has less
-- space than its payload takes.
def Crowded (w : LocalWindow) (seqNr : UInt16) (packet : Buffer) (dataOff : UInt32) : Prop :=
  w.holdsPacket seqNr ∧ seqNrCmpSE seqNr w.lastSeqNr = false ∧ w.windowSpace < packet.size - dataOff

theorem holdsPacket_slot {w : LocalWindow} (held : w.holdsPacket seqNr) :
    ∃ (j : Nat) (pkt : WindowPacket) (packet : Buffer), w.incomingPackets[j]? = some pkt ∧ pkt.seqNr = seqNr ∧
      pkt.packet = some packet := by
  simp only [LocalWindow.holdsPacket,List.any_eq_true,Bool.and_eq_true,beq_iff_eq,WindowPacket.holds,
    Option.isSome_iff_exists] at held
  obtain ⟨pkt,among,number,packet,present⟩ := held
  obtain ⟨j,inside⟩ := List.mem_iff_getElem?.mp among
  exact ⟨j,pkt,packet,inside,number,present⟩

theorem packetReceived_noSpace {w w' : LocalWindow} (result : w.packetReceived seqNr packet dataOff = some (w',.noSpace)) :
    w' = w ∧ seqNrCmpSE seqNr w.lastSeqNr = false ∧ w.windowSpace < packet.size - dataOff := by
  rw [LocalWindow.packetReceived] at result
  split at result
  · cases result
  · rename_i late
    simp only at result
    split at result
    · rename_i full
      cases result
      exact ⟨rfl,Bool.not_eq_true _ ▸ late,full⟩
    · split at result
      · cases result
      · cases result
      · split at result <;> cases result

theorem packetReceived_full {w : LocalWindow} (late : seqNrCmpSE seqNr w.lastSeqNr = false)
    (full : w.windowSpace < packet.size - dataOff) : w.packetReceived seqNr packet dataOff = some (w,.noSpace) := by
  rw [LocalWindow.packetReceived,late]
  exact if_pos full

section
variable {w : LocalWindow} {front : Nat} {r : Reassembly UInt8}

-- A packet in a slot ahead of last_seq_nr is found there when there is space.
theorem Repr.received_again (rep : Repr w front r) (few : w.incomingPackets.length < 32768) (inside : dataOff ≤ packet.size)
    (held : w.holdsPacket seqNr) (late : seqNrCmpSE seqNr w.lastSeqNr = false) (room : ¬ w.windowSpace < packet.size - dataOff) :
    w.packetReceived seqNr packet dataOff = some (w,.duplicate) := by
  obtain ⟨j,pkt,packet',at_j,number,present⟩ := holdsPacket_slot held
  have short := (List.getElem?_eq_some_iff.mp at_j).choose
  obtain ⟨_,_,stretch,stored,_⟩ := (rep.slot j pkt at_j).held packet' present
  have place : seqNr = seqOf (front + j) := number ▸ rep.getElem_seqNr at_j
  have near : w.nearFront seqNr := by
    rw [LocalWindow.nearFront,rep.frontSeqNr,place,decide_eq_true_iff,UInt16.lt_iff_toNat_lt,
      seqOf_sub_toNat (by omega) (by omega)]
    show front + j - front < 32768
    omega
  obtain ⟨ahead,close,same⟩ := rep.countOf_near late near
  have bound := rep.last_le rep.valid
  have behind := rep.behind
  have ready := rep.valid.ready
  have count : countOf r.last w seqNr = front + j := seqOf_inj (by omega) (by omega) (same.trans place)
  obtain ⟨result,_⟩ | ⟨_,_,full⟩ | ⟨_,_,_,_,missing,_⟩ := packetReceived_repr rep fun _ _ => ⟨inside,near⟩
  · exact result
  · exact absurd full room
  · rw [count,stored] at missing
    cases missing

theorem Repr.harmless_iff (rep : Repr w front r) (few : w.incomingPackets.length < 32768) (inside : dataOff ≤ packet.size) :
    Harmless w seqNr packet dataOff ↔ ¬ Crowded w seqNr packet dataOff := by
  constructor
  · rintro harmless ⟨held,late,full⟩
    obtain ⟨outcome,result,answered⟩ := harmless.duplicate (.inl held)
    rw [packetReceived_full late full] at result
    cases result
    exact answered rfl
  · intro spacious
    refine ⟨fun known => ?_,fun w' result => ?_⟩
    · cases late : seqNrCmpSE seqNr w.lastSeqNr with
      | true =>
          refine ⟨.duplicate,?_,by decide⟩
          rw [LocalWindow.packetReceived,late]
          rfl
      | false =>
          have held : w.holdsPacket seqNr := known.resolve_right (by simp [late])
          have room : ¬ w.windowSpace < packet.size - dataOff := fun full => spacious ⟨held,late,full⟩
          exact ⟨.duplicate,rep.received_again few inside held late room,by decide⟩
    · obtain ⟨same,late,full⟩ := packetReceived_noSpace result
      exact ⟨same,fun held => spacious ⟨held,late,full⟩,full⟩

end

-- In every window a steady run comes to, a packet that comes again does no harm
-- exactly when it is not crowded out.
theorem duplicates_harmless_iff (cap : UInt32) (lsn : UInt16) (calls : List Call) (steady : (Account.start cap lsn).Steady calls) :
    Account.Along (fun a => ∀ seqNr packet dataOff, dataOff ≤ packet.size →
      (Harmless a.window seqNr packet dataOff ↔ ¬ Crowded a.window seqNr packet dataOff)) (.start cap lsn) calls :=
  along_audited (fun _ _ _ audited few _ _ _ inside => audited.repr.harmless_iff few inside) (start_audited cap lsn) steady

def packetTwo : Call := inOrder 2

theorem duplicates_harmless_ahead :
    (Account.start 2 0).Steady [packetTwo] ∧
    Account.Along (fun a => ∀ seqNr packet dataOff, dataOff ≤ packet.size →
      (Harmless a.window seqNr packet dataOff ↔ ¬ Crowded a.window seqNr packet dataOff)) (.start 2 0) [packetTwo] := by
  have steady : (Account.start 2 0).Steady [packetTwo] := by decide +kernel
  exact ⟨steady,duplicates_harmless_iff 2 0 _ steady⟩

-- Packet 2 fills a window of one byte. When it comes again there is no space.
def filledByTwo : LocalWindow := ⟨0,1,1,[.gap 1,⟨2,some oneByte,0⟩],0,0⟩

theorem duplicate_refused :
    (∃ a, (Account.start 1 0).run [packetTwo] = some a ∧ a.window = filledByTwo) ∧ filledByTwo.holdsPacket 2 ∧
      filledByTwo.packetReceived 2 oneByte 0 = some (filledByTwo,.noSpace) ∧ ¬ Harmless filledByTwo 2 oneByte 0 := by
  have refused : filledByTwo.packetReceived 2 oneByte 0 = some (filledByTwo,.noSpace) := by decide
  refine ⟨⟨_,rfl,rfl⟩,by decide,refused,fun harmless => ?_⟩
  exact (harmless.refused filledByTwo refused).2.1 (by decide)

end KtorrentStream.Utp
