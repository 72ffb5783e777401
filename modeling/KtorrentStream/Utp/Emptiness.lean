import KtorrentStream.Utp.Account
set_option autoImplicit true

namespace KtorrentStream.Utp
open KtorrentStream.Lib

namespace Account

-- Every payload byte that was stored has been returned by a read.
def AllRead (a : Account) : Prop := (a.stored.map fun entry => entry.2.length).sum = a.returned.length

def TellsEmpty (a : Account) : Prop := a.window.isEmpty ↔ a.AllRead

-- The call returns all bytes that are left in the window.
def Drains (a : Account) : Call → Prop
  | .packetReceived .. => False
  | .read maxLen => heldBytes a.window.incomingPackets ≤ min maxLen.toNat a.window.bytesAvailable.toNat

-- Whenever a read leaves nothing behind there are more than 20 slots to erase.
def DrainsMany : Account → List Call → Prop
  | _,[] => True
  | a,c :: rest => (a.Drains c → 20 < a.window.incomingPackets.length) ∧ ∀ a', a.call c = some a' → DrainsMany a' rest

instance (a : Account) : (c : Call) → Decidable (a.Drains c)
  | .packetReceived .. => .isFalse id
  | .read _ => Nat.decLe _ _

instance drainsManyDecidable : (calls : List Call) → DecidablePred fun a => DrainsMany a calls
  | [],_ => .isTrue trivial
  | c :: rest,a =>
      letI := drainsManyDecidable rest
      inferInstanceAs (Decidable ((a.Drains c → 20 < a.window.incomingPackets.length) ∧ ∀ a' ∈ a.call c,DrainsMany a' rest))

end Account

-- A packet with a payload.
def Call.Carries : Call → Prop
  | .packetReceived _ packet dataOff _ => dataOff < packet.size
  | .read _ => True

def Account.Carried (a : Account) : Prop := ∀ entry ∈ a.stored, entry.2 ≠ []

theorem lookup_mem {stored : List (Nat × List UInt8)} (found : stored.lookup n = some data) : (n,data) ∈ stored := by
  obtain ⟨before,after,rfl,_⟩ := List.lookup_eq_some_iff.mp found
  exact List.mem_append_right _ List.mem_cons_self

section
variable {a : Account} {front : Nat} {r : Reassembly UInt8}

theorem Audited.allRead_iff (audited : Audited cap lsn a front r) : a.AllRead ↔ heldBytes a.window.incomingPackets = 0 := by
  have total := audited.total
  rw [Account.AllRead]
  omega

theorem Audited.tells_iff (audited : Audited cap lsn a front r) :
    a.TellsEmpty ↔ (heldBytes a.window.incomingPackets = 0 → a.window.incomingPackets = []) := by
  rw [Account.TellsEmpty,audited.allRead_iff,LocalWindow.isEmpty,List.isEmpty_iff]
  constructor
  · exact Iff.mpr
  · intro finished
    refine ⟨fun none => ?_,finished⟩
    rw [none]
    rfl

-- The newest slot holds a packet with bytes to read unless the reader has passed it.
theorem Audited.passed (audited : Audited cap lsn a front r) (carried : a.Carried)
    (nothing : heldBytes a.window.incomingPackets = 0) : r.first = front + a.window.incomingPackets.length := by
  have rep := audited.repr
  have ready := rep.valid.ready
  have behind := rep.behind
  have bound := rep.last_lt rep.valid
  by_cases any : a.window.incomingPackets = []
  · have start := rep.empty any
    rw [any,List.length_nil]
    omega
  have long := List.length_pos_of_ne_nil any
  by_contra before
  obtain ⟨pkt,inside⟩ : ∃ pkt, a.window.incomingPackets[a.window.incomingPackets.length - 1]? = some pkt :=
    ⟨_,List.getElem?_eq_getElem (by omega)⟩
  have slot := rep.slot _ pkt inside
  have newest := rep.newest any
  rw [show front + (a.window.incomingPackets.length - 1) = front + a.window.incomingPackets.length - 1 by omega] at slot
  have nothing_here : pkt.left = 0 := by
    rw [heldBytes,List.sum_eq_zero_iff_forall_eq_nat] at nothing
    exact nothing _ (List.mem_map.mpr ⟨pkt,List.mem_of_getElem? inside,rfl⟩)
  cases present : pkt.packet with
  | none => exact newest ((slot.missing present).resolve_left (by omega))
  | some packet =>
      obtain ⟨_,_,stretch,stored,unread⟩ := slot.held packet present
      have some_bytes : stretch ≠ [] := carried _ (lookup_mem ((audited.got _).symm.trans stored))
      have length := congrArg List.length unread
      rw [List.length_drop] at length
      rw [WindowPacket.left,present] at nothing_here
      have none_unread := length.symm.trans nothing_here
      by_cases current : front + a.window.incomingPackets.length - 1 = r.first
      · have partly := audited.unfinished stretch (current ▸ stored) some_bytes
        rw [Reassembly.unread,if_pos current,List.length_drop] at none_unread
        omega
      · rw [Reassembly.unread_of_ne _ current] at none_unread
        exact some_bytes (List.eq_nil_of_length_eq_zero none_unread)

-- After a call that changes the window, the window tells the truth unless the call
-- was a read that left nothing and erased nothing.
theorem Audited.tells_after {a' : Account} {r' : Reassembly UInt8} (audited : Audited cap lsn a front r)
    (audited' : Audited cap lsn a' front' r') (change : Change a front c a' front' r') (readable : a.Readable c)
    (carries : c.Carries) (carried : a'.Carried) (tells : a.TellsEmpty) :
    a'.TellsEmpty ↔ (a.Drains c → 20 < a.window.incomingPackets.length) := by
  have total := audited.total
  have total' := audited'.total
  cases change with
  | idle => exact ⟨fun _ never => never.elim,fun _ => tells⟩
  | @stored _ n packet dataOff seqNr inside _ held returned =>
      have size := packet.size_toNat
      have less := UInt32.lt_iff_toNat_lt.mp carries
      simp only [held,returned,List.map_cons,List.sum_cons,List.length_drop] at total'
      refine ⟨fun _ never => never.elim,fun _ => audited'.tells_iff.mpr fun nothing => ?_⟩
      omega
  | @read _ maxLen _ _ held count newest erased =>
      have long := List.length_pos_of_ne_nil readable
      have bytes := audited.repr.upToLast_le
      rw [← audited.available] at bytes
      have nothing_iff : heldBytes a'.window.incomingPackets = 0 ↔ a.Drains (.read maxLen) := by
        rw [Account.Drains]
        rw [held] at total'
        omega
      rw [audited'.tells_iff,nothing_iff]
      refine forall_congr' fun drains => ?_
      have passed := audited'.passed carried (nothing_iff.mpr drains)
      rw [← List.length_eq_zero_iff]
      split at erased <;> omega

theorem carried_after {a' : Account} {r' : Reassembly UInt8} (change : Change a front c a' front' r') (carries : c.Carries)
    (carried : a.Carried) : a'.Carried := by
  cases change with
  | idle => exact carried
  | @stored _ n packet dataOff seqNr inside _ held _ =>
      rw [Account.Carried,held]
      intro entry among
      obtain rfl | old := List.mem_cons.mp among
      · have less := UInt32.lt_iff_toNat_lt.mp carries
        rw [packet.size_toNat] at less
        apply List.ne_nil_of_length_pos
        rw [List.length_drop]
        omega
      · exact carried entry old
  | read held =>
      rw [Account.Carried,held]
      exact carried

end

-- Along a steady run of packets with payloads isEmpty tells that everything has been
-- read exactly when every read that leaves nothing has more than 20 slots to erase.
theorem empty_iff_all_read (cap : UInt32) (lsn : UInt16) (calls : List Call) (steady : (Account.start cap lsn).Steady calls)
    (carries : ∀ c ∈ calls, c.Carries) :
    Account.Along Account.TellsEmpty (.start cap lsn) calls ↔ Account.DrainsMany (.start cap lsn) calls := by
  have along : ∀ calls a front r, Audited cap lsn a front r → a.Carried → a.TellsEmpty → a.Steady calls →
      (∀ c ∈ calls, c.Carries) → (Account.Along Account.TellsEmpty a calls ↔ Account.DrainsMany a calls) := by
    intro calls
    induction calls with
    | nil => exact fun a _ _ _ _ tells _ _ => ⟨fun _ => trivial,fun _ => tells⟩
    | cons c rest ih =>
        rintro a front r audited carried tells ⟨few,readable,next⟩ carries
        obtain ⟨a',front',r',called,audited',change⟩ :=
          call_audited audited few (fun a' called => (next a' called).few) readable
        have carried' := carried_after change (carries c List.mem_cons_self) carried
        have after := audited.tells_after audited' change readable (carries c List.mem_cons_self) carried' tells
        have later := ih a' front' r' audited' carried'
        have rest_carries : ∀ c ∈ rest, c.Carries := fun c among => carries c (List.mem_cons_of_mem _ among)
        constructor
        · rintro ⟨_,a'',called',onward⟩
          obtain rfl : a' = a'' := Option.some.inj (called.symm.trans called')
          have tells' := onward.here
          refine ⟨after.mp tells',fun a'' again => ?_⟩
          obtain rfl : a' = a'' := Option.some.inj (called.symm.trans again)
          exact (later tells' (next a' called) rest_carries).mp onward
        · rintro ⟨many,onward⟩
          have tells' := after.mpr many
          exact ⟨tells,a',called,(later tells' (next a' called) rest_carries).mpr (onward a' called)⟩
  refine along calls _ _ _ (start_audited cap lsn) ?_ ?_ steady carries
  · intro entry none
    cases none
  · exact ⟨fun _ => rfl,fun _ => rfl⟩

theorem inOrder_carries (n : Nat) : (inOrder n).Carries := by
  rw [inOrder,Call.Carries]
  decide

theorem readAll_carries : ∀ c ∈ readAll, c.Carries := by
  intro c among
  obtain packets | read := List.mem_append.mp among
  · obtain ⟨n,_,rfl⟩ := List.mem_map.mp packets
    exact inOrder_carries n
  · rw [List.mem_singleton.mp read]
    trivial

-- With 21 packets all slots are erased by the read that empties the window.
theorem empty_after_many :
    (Account.start 131072 0).Steady readAll ∧ (∀ c ∈ readAll, c.Carries) ∧
    Account.Along Account.TellsEmpty (.start 131072 0) readAll := by
  have steady : (Account.start 131072 0).Steady readAll := by decide +kernel
  have many : Account.DrainsMany (.start 131072 0) readAll := by decide +kernel
  exact ⟨steady,readAll_carries,(empty_iff_all_read 131072 0 readAll steady readAll_carries).mpr many⟩

-- With one packet its slot stays, and the window never becomes empty.
theorem read_window_not_empty :
    ∃ a, (Account.start 131072 0).run [inOrder 1,.read 1] = some a ∧ a.AllRead ∧ a.window.isEmpty = false ∧ ¬ a.TellsEmpty := by
  refine ⟨_,rfl,rfl,rfl,fun tells => ?_⟩
  have empty := tells.mpr rfl
  cases empty

end KtorrentStream.Utp
