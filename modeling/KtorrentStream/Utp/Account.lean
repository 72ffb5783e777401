import KtorrentStream.Utp.Acknowledgement
set_option autoImplicit true

namespace KtorrentStream.Utp
open KtorrentStream.Lib

-- A run of calls on a window of any capacity, with what goes into it and what
-- comes out: last_seq_nr counted along the run, the payloads of the packets that
-- were stored under their counts, and the bytes the reads have returned.
structure Account where
  window : LocalWindow
  reached : Nat
  stored : List (Nat × List UInt8)
  returned : List UInt8

namespace Account

def start (cap : UInt32) (lsn : UInt16) : Account := ⟨.fresh cap lsn,lsn.toNat,[],[]⟩

def moved (a : Account) (w : LocalWindow) : Nat := a.reached + (w.lastSeqNr - a.window.lastSeqNr).toNat

def call (a : Account) : Call → Option Account
  | .packetReceived seqNr packet dataOff _ =>
      match a.window.packetReceived seqNr packet dataOff with
      | none => none
      | some (w,.stored) =>
          some ⟨w,a.moved w,(countOf a.reached a.window seqNr,packet.data.drop dataOff.toNat) :: a.stored,a.returned⟩
      | some (w,_) => some ⟨w,a.moved w,a.stored,a.returned⟩
  | .read maxLen =>
      match a.window.read maxLen with
      | none => none
      | some (w,bytes) => some ⟨w,a.moved w,a.stored,a.returned ++ bytes⟩

def run : Account → List Call → Option Account
  | a,[] => some a
  | a,c :: rest =>
      match a.call c with
      | none => none
      | some a' => a'.run rest

-- P holds in every state of a run, and every call of it returns.
def Along (P : Account → Prop) : Account → List Call → Prop
  | a,[] => P a
  | a,c :: rest => P a ∧ ∃ a', a.call c = some a' ∧ Along P a' rest

-- front() is asked of a window that has slots.
def Readable (a : Account) : Call → Prop
  | .packetReceived .. => True
  | .read _ => a.window.incomingPackets ≠ []

-- incoming_packets spans fewer than 32768 numbers all along, and no read comes to
-- a window without slots.
def Steady : Account → List Call → Prop
  | a,[] => a.window.incomingPackets.length < 32768
  | a,c :: rest => a.window.incomingPackets.length < 32768 ∧ a.Readable c ∧ ∀ a', a.call c = some a' → Steady a' rest

instance (a : Account) : (c : Call) → Decidable (a.Readable c)
  | .packetReceived .. => .isTrue trivial
  | .read _ => inferInstanceAs (Decidable (a.window.incomingPackets ≠ []))

instance steadyDecidable : (calls : List Call) → DecidablePred fun a => Steady a calls
  | [],a => inferInstanceAs (Decidable (a.window.incomingPackets.length < 32768))
  | c :: rest,a =>
      letI := steadyDecidable rest
      inferInstanceAs (Decidable (a.window.incomingPackets.length < 32768 ∧ a.Readable c ∧ ∀ a' ∈ a.call c,Steady a' rest))

def payload (a : Account) (n : Nat) : List UInt8 := (a.stored.lookup n).getD []

-- The payloads from the initial number to last_seq_nr.
def stream (lsn : UInt16) (a : Account) : List UInt8 :=
  (List.range' (lsn.toNat + 1) (a.reached - lsn.toNat)).flatMap a.payload

def upToLast (w : LocalWindow) : List WindowPacket :=
  w.incomingPackets.filter fun pkt => seqNrCmpSE pkt.seqNr w.lastSeqNr

structure Balanced (cap : UInt32) (lsn : UInt16) (a : Account) : Prop where
  consecutive : ∀ j pkt, a.window.incomingPackets[j]? = some pkt → pkt.seqNr = a.window.frontSeqNr + UInt16.ofNat j
  space : a.window.windowSpace.toNat + heldBytes a.window.incomingPackets = cap.toNat
  available : a.window.bytesAvailable.toNat = heldBytes (upToLast a.window)
  lastSeqNr : a.window.lastSeqNr = seqOf a.reached
  received : ∀ n, lsn.toNat < n → n ≤ a.reached → n ∈ a.stored.map Prod.fst
  gap : a.reached + 1 ∉ a.stored.map Prod.fst
  inOrder : ∃ rest, a.stream lsn = a.returned ++ rest ∧ rest.length = a.window.bytesAvailable.toNat
  reads : ∀ maxLen, a.window.incomingPackets ≠ [] → ∃ w' bytes, a.window.read maxLen = some (w',bytes) ∧
    bytes.length = min maxLen.toNat a.window.bytesAvailable.toNat ∧ a.returned ++ bytes <+: a.stream lsn

end Account

-- The invariant behind it: the window as a reassembly of what has been stored.
structure Audited (cap : UInt32) (lsn : UInt16) (a : Account) (front : Nat) (r : Reassembly UInt8) : Prop where
  repr : Repr a.window front r
  capacity : a.window.capacity = cap
  base : r.base = lsn.toNat
  reached : r.last = a.reached
  got : ∀ n, r.got n = a.stored.lookup n
  returned : a.returned = r.delivered
  available : a.window.bytesAvailable.toNat = r.rest.length
  total : (a.stored.map fun entry => entry.2.length).sum = a.returned.length + heldBytes a.window.incomingPackets
  unfinished : Unfinished r

theorem heldBytes_take_le (l : List WindowPacket) (k : Nat) : heldBytes (l.take k) ≤ heldBytes l := by
  have split := heldBytes_append (l.take k) (l.drop k)
  rw [List.take_append_drop] at split
  omega

section
variable {w : LocalWindow} {front : Nat} {r : Reassembly UInt8}

theorem Repr.left_read (rep : Repr w front r) (inside : w.incomingPackets[j]? = some pkt) (before : front + j < r.first) :
    pkt.left = 0 := by
  cases present : pkt.packet with
  | none => rw [WindowPacket.left,present]
  | some packet =>
      have after := ((rep.slot j pkt inside).held packet present).1
      omega

theorem Repr.left_unread (rep : Repr w front r) (inside : w.incomingPackets[j]? = some pkt) (after : r.first ≤ front + j)
    (upTo : front + j ≤ r.last) : pkt.left = (r.unread (front + j) (r.content (front + j))).length := by
  have slot := rep.slot j pkt inside
  have started := rep.valid.started
  cases present : pkt.packet with
  | none =>
      have missing := (slot.missing present).resolve_left (by omega)
      exact absurd missing (rep.valid.received _ (by omega) upTo)
  | some packet =>
      obtain ⟨_,_,stretch,stored,left⟩ := slot.held packet present
      have length := congrArg List.length left
      rw [List.length_drop] at length
      rw [WindowPacket.left,present,Reassembly.content,stored,Option.getD_some]
      exact length

theorem Repr.heldBytes_taken (rep : Repr w front r) (count : Nat) (upTo : r.first + count ≤ r.last + 1) :
    heldBytes (w.incomingPackets.take (r.first - front + count)) =
      ((List.range' r.first count).flatMap fun n => r.unread n (r.content n)).length := by
  have behind := rep.behind
  induction count with
  | zero =>
      simp only [Nat.add_zero,List.range'_zero,List.flatMap_nil,List.length_nil]
      rw [heldBytes,List.sum_eq_zero_iff_forall_eq_nat]
      intro left among
      obtain ⟨pkt,member,rfl⟩ := List.mem_map.mp among
      obtain ⟨j,inside⟩ := List.mem_iff_getElem?.mp member
      rw [List.getElem?_take] at inside
      split at inside
      · exact rep.left_read inside (by omega)
      · cases inside
  | succ count ih =>
      have bound := rep.last_lt rep.valid
      obtain ⟨pkt,inside⟩ : ∃ pkt, w.incomingPackets[r.first - front + count]? = some pkt :=
        ⟨_,List.getElem?_eq_getElem (by omega)⟩
      have place : front + (r.first - front + count) = r.first + count := by omega
      have here := rep.left_unread inside (by omega) (by omega)
      rw [place] at here
      rw [← Nat.add_assoc,List.take_add_one,inside,heldBytes_append,ih (by omega),List.range'_concat,List.flatMap_append,
        List.length_append,Nat.one_mul]
      simp [heldBytes,here]

theorem Repr.heldBytes_upTo (rep : Repr w front r) : heldBytes (w.incomingPackets.take (r.last + 1 - front)) = r.rest.length := by
  have behind := rep.behind
  have ready := rep.valid.ready
  rw [Reassembly.rest,← rep.heldBytes_taken _ (by omega),show r.first - front + (r.last + 1 - r.first) = r.last + 1 - front by omega]

theorem filter_eq_take {p : α → Bool} {l : List α} {k : Nat}
    (first : ∀ j a, l[j]? = some a → p a = decide (j < k)) : l.filter p = l.take k := by
  induction l generalizing k with
  | nil => rw [List.filter_nil,List.take_nil]
  | cons a l ih =>
      have head := first 0 a rfl
      cases k with
      | zero =>
          rw [List.take_zero,List.filter_eq_nil_iff]
          intro b among
          obtain ⟨j,inside⟩ := List.mem_iff_getElem?.mp among
          simp [first j b inside]
      | succ k =>
          rw [List.filter_cons,head,if_pos (decide_eq_true (Nat.succ_pos k)),List.take_succ_cons]
          refine congrArg (a :: ·) (ih ?_)
          intro j b inside
          rw [first (j + 1) b inside,decide_eq_decide]
          omega

theorem Repr.upToLast (rep : Repr w front r) (few : w.incomingPackets.length < 32768) :
    heldBytes (Account.upToLast w) = r.rest.length := by
  have behind := rep.behind
  have ready := rep.valid.ready
  have bound := rep.last_lt rep.valid
  rw [← rep.heldBytes_upTo,Account.upToLast,filter_eq_take (k := r.last + 1 - front)]
  intro j pkt inside
  have short := (List.getElem?_eq_some_iff.mp inside).choose
  rw [rep.getElem_seqNr inside,rep.lastSeqNr,seqNrCmpSE_seqOf (by omega) (by omega),decide_eq_decide]
  omega

theorem Repr.upToLast_le (rep : Repr w front r) : r.rest.length ≤ heldBytes w.incomingPackets := by
  rw [← rep.heldBytes_upTo]
  exact heldBytes_take_le _ _

theorem Repr.rest_le (rep : Repr w front r) : r.rest.length ≤ w.capacity.toNat := by
  have part := rep.upToLast_le
  have space := rep.space
  omega

theorem Amount.rest {w' : LocalWindow} (amount : Amount maxLen [] bytes w w' r r') (reads : Reads r r' bytes) (valid : r.Valid)
    (valid' : r'.Valid) : r.rest = bytes ++ r'.rest ∧ bytes = r.rest.take maxLen.toNat := by
  have same : r'.stream = r.stream := by
    rw [Reassembly.stream,Reassembly.stream,reads.base,reads.last]
    refine congrArg (List.flatMap · _) ?_
    funext n
    rw [Reassembly.content,Reassembly.content,reads.got]
  have left : r.rest = bytes ++ r'.rest := by
    rw [Reassembly.stream_eq valid,Reassembly.stream_eq valid',reads.delivered,List.append_assoc] at same
    exact (List.append_cancel_left same).symm
  refine ⟨left,?_⟩
  have most := amount.most (Nat.zero_le _)
  have least := amount.least
  simp only [List.length_nil,Nat.zero_add] at most least
  by_cases short : bytes.length < maxLen.toNat
  · rw [left,Reassembly.rest_of_end (least short),List.append_nil,List.take_of_length_le most]
  · rw [left,List.take_append_of_le_length (by omega),List.take_of_length_le (by omega)]

theorem start_audited (cap : UInt32) (lsn : UInt16) :
    Audited cap lsn (.start cap lsn) (lsn.toNat + 1) (.start lsn.toNat) where
  repr := fresh_repr _ _ _ (seqOf_of_toNat lsn)
  capacity := rfl
  base := rfl
  reached := rfl
  got := fun _ => rfl
  returned := (Reassembly.start_delivered _).symm
  available := by
    rw [Reassembly.start_rest]
    rfl
  total := rfl
  unfinished := fun _ none => by cases none

theorem Audited.stored_call {a : Account} {packet : Buffer} {dataOff : UInt32} (audited : Audited cap lsn a front r)
    (missing : r.got (countOf r.last a.window seqNr) = none)
    (repr : Repr w front (r.store (countOf r.last a.window seqNr) (packet.data.drop dataOff.toNat) upTo))
    (ahead : r.last < countOf r.last a.window seqNr) (later : r.last ≤ upTo) (capacity : w.capacity = a.window.capacity)
    (space : w.windowSpace.toNat + (packet.data.length - dataOff.toNat) = a.window.windowSpace.toNat)
    (gained : w.bytesAvailable = a.window.bytesAvailable + UInt32.ofNat ((List.range' (r.last + 1) (upTo - r.last)).flatMap
        (r.store (countOf r.last a.window seqNr) (packet.data.drop dataOff.toNat) upTo).content).length) :
    Audited cap lsn
      ⟨w,a.moved w,(countOf a.reached a.window seqNr,packet.data.drop dataOff.toNat) :: a.stored,a.returned⟩ front
      (r.store (countOf r.last a.window seqNr) (packet.data.drop dataOff.toNat) upTo) := by
  have behind := audited.repr.behind
  have ready := audited.repr.valid.ready
  have moved := audited.repr.moved repr later (by omega)
  have delivered : (r.store (countOf r.last a.window seqNr) (packet.data.drop dataOff.toNat) upTo).delivered = r.delivered :=
    Reassembly.delivered_store audited.repr.valid ahead missing
  have stream : (r.store (countOf r.last a.window seqNr) (packet.data.drop dataOff.toNat) upTo).stream = _ :=
    Reassembly.stream_store audited.repr.valid ahead later
  rw [Reassembly.stream_eq repr.valid,Reassembly.stream_eq audited.repr.valid,delivered,List.append_assoc] at stream
  have rest := congrArg List.length (List.append_cancel_left stream)
  have bound := repr.rest_le
  have small := w.capacity.toNat_lt
  have before := audited.repr.space
  have after := repr.space
  have total := audited.total
  rw [List.length_append] at rest
  refine ⟨repr,capacity.trans audited.capacity,audited.base,?_,?_,audited.returned.trans delivered.symm,?_,?_,?_⟩
  · show upTo = a.reached + (w.lastSeqNr - a.window.lastSeqNr).toNat
    rw [← audited.reached]
    exact moved.symm
  · intro n
    rw [← audited.reached,List.lookup_cons]
    by_cases same : n = countOf r.last a.window seqNr
    · simp [Reassembly.store,same]
    · have other : (n == countOf r.last a.window seqNr) = false := beq_eq_false_iff_ne.mpr same
      rw [other]
      exact (Function.update_of_ne same _ _).trans (audited.got n)
  · show w.bytesAvailable.toNat = _
    rw [gained,UInt32.toNat_add,UInt32.toNat_ofNat',audited.available,rest]
    omega
  · show (packet.data.drop dataOff.toNat).length + (a.stored.map fun entry => entry.2.length).sum =
      a.returned.length + heldBytes w.incomingPackets
    rw [List.length_drop]
    rw [capacity] at after
    omega
  · intro stretch present some_bytes
    by_cases here : r.first = countOf r.last a.window seqNr
    · have part := audited.repr.valid.fresh (here ▸ missing)
      show r.part < _
      rw [part]
      exact List.length_pos_of_ne_nil some_bytes
    · exact audited.unfinished stretch ((Function.update_of_ne here _ _).symm.trans present) some_bytes

theorem Audited.read_call {a : Account} (audited : Audited cap lsn a front r) (repr : Repr w front' r') (reads : Reads r r' bytes)
    (capacity : w.capacity = a.window.capacity) (amount : Amount maxLen [] bytes a.window w r r') :
    Audited cap lsn ⟨w,a.moved w,a.stored,a.returned ++ bytes⟩ front' r' := by
  have rest := congrArg List.length (amount.rest reads audited.repr.valid repr.valid).1
  have before := audited.repr.space
  have after := repr.space
  have space := amount.space
  have total := audited.total
  have small := w.capacity.toNat_lt
  have bound := repr.rest_le
  have available := congrArg UInt32.toNat amount.available
  rw [List.length_append,← audited.available] at rest
  rw [UInt32.toNat_add,UInt32.toNat_ofNat'] at available
  refine ⟨repr,capacity.trans audited.capacity,reads.base.trans audited.base,?_,?_,?_,?_,?_,amount.unfinished audited.unfinished⟩
  · show r'.last = a.reached + (w.lastSeqNr - a.window.lastSeqNr).toNat
    rw [repr.lastSeqNr,audited.repr.lastSeqNr,reads.last,← audited.reached]
    simp
  · intro n
    rw [reads.got]
    exact audited.got n
  · show a.returned ++ bytes = _
    rw [reads.delivered,audited.returned]
  · have limit := a.window.bytesAvailable.toNat_lt
    have limit' := w.bytesAvailable.toNat_lt
    show w.bytesAvailable.toNat = _
    omega
  · show (a.stored.map fun entry => entry.2.length).sum = (a.returned ++ bytes).length + heldBytes w.incomingPackets
    rw [List.length_append]
    rw [capacity] at after
    omega

end

-- What a call changes: nothing, one more packet in store, or the bytes it returned
-- and the slots it erased.
inductive Change (a : Account) (front : Nat) : Call → Account → Nat → Reassembly UInt8 → Prop where
  | idle : Change a front (.packetReceived seqNr packet dataOff inside) a front r'
  | stored (held : a'.stored = (n,packet.data.drop dataOff.toNat) :: a.stored) (returned : a'.returned = a.returned) :
      Change a front (.packetReceived seqNr packet dataOff inside) a' front r'
  | read (held : a'.stored = a.stored)
      (count : a'.returned.length = a.returned.length + min maxLen.toNat a.window.bytesAvailable.toNat)
      (newest : front' + a'.window.incomingPackets.length = front + a.window.incomingPackets.length)
      (erased : front' = if 20 < r'.first - front then r'.first else front) : Change a front (.read maxLen) a' front' r'

-- A call on a window with fewer than 32768 slots that leaves one with fewer than
-- 32768 slots can tell its sequence numbers apart.
theorem call_audited {a : Account} (audited : Audited cap lsn a front r) (few : a.window.incomingPackets.length < 32768)
    (kept : ∀ a', a.call c = some a' → a'.window.incomingPackets.length < 32768) (readable : a.Readable c) :
    ∃ a' front' r', a.call c = some a' ∧ Audited cap lsn a' front' r' ∧ Change a front c a' front' r' := by
  have rep := audited.repr
  have idle : a.moved a.window = a.reached := by simp [Account.moved]
  cases c with
  | packetReceived seqNr packet dataOff inside =>
      have fits : seqNrCmpSE seqNr a.window.lastSeqNr = false → ¬ a.window.windowSpace < packet.size - dataOff →
          dataOff ≤ packet.size ∧ a.window.nearFront seqNr := by
        intro late room
        refine ⟨inside,rep.near_of_span few ?_ late room⟩
        intro w' outcome result
        cases outcome with
        | stored =>
            exact kept ⟨w',a.moved w',(countOf a.reached a.window seqNr,packet.data.drop dataOff.toNat) :: a.stored,a.returned⟩
              (by simp only [Account.call,result])
        | duplicate | noSpace => exact kept ⟨w',a.moved w',a.stored,a.returned⟩ (by simp only [Account.call,result])
      obtain ⟨result,_⟩ | ⟨result,_⟩ | ⟨w',upTo,result,late,missing,rep',later,capacity',space,_,near,gained⟩ :=
        packetReceived_repr rep fits
      · exact ⟨a,front,r,by simp only [Account.call,result,idle],audited,.idle⟩
      · exact ⟨a,front,r,by simp only [Account.call,result,idle],audited,.idle⟩
      · have ahead := (rep.countOf_near late near).1
        exact ⟨_,front,_,by simp only [Account.call,result],
          audited.stored_call missing rep' ahead later capacity' space gained,.stored rfl rfl⟩
  | read maxLen =>
      obtain ⟨w',front',r',bytes,result,rep',reads,capacity',amount,newest,erased⟩ := read_repr rep readable maxLen
      have taken := congrArg List.length (amount.rest reads rep.valid rep'.valid).2
      rw [List.length_take,← audited.available] at taken
      refine ⟨_,front',r',by simp only [Account.call,result],audited.read_call rep' reads capacity' amount,
        .read rfl ?_ newest erased⟩
      rw [List.length_append,taken]

theorem Account.Steady.few {a : Account} (steady : a.Steady calls) : a.window.incomingPackets.length < 32768 := by
  cases calls with
  | nil => exact steady
  | cons => exact steady.1

theorem along_audited {P : Account → Prop}
    (sound : ∀ a front r, Audited cap lsn a front r → a.window.incomingPackets.length < 32768 → P a)
    (audited : Audited cap lsn a front r) (steady : a.Steady calls) : Account.Along P a calls := by
  induction calls generalizing a front r with
  | nil => exact sound a front r audited steady
  | cons c rest ih =>
      obtain ⟨few,readable,next⟩ := steady
      obtain ⟨a',front',r',called,audited',_⟩ := call_audited audited few (fun a' called => (next a' called).few) readable
      exact ⟨sound a front r audited few,a',called,ih audited' (next a' called)⟩

theorem Audited.stream {a : Account} (audited : Audited cap lsn a front r) : a.stream lsn = r.stream := by
  rw [Account.stream,Reassembly.stream,audited.base,audited.reached]
  refine congrArg (List.flatMap · _) ?_
  funext n
  rw [Account.payload,Reassembly.content,audited.got]

theorem mem_lookup {stored : List (Nat × List UInt8)} : n ∈ stored.map Prod.fst ↔ stored.lookup n ≠ none := by
  rw [ne_eq,List.lookup_eq_none_iff]
  simp

theorem Audited.balanced {a : Account} (audited : Audited cap lsn a front r) (few : a.window.incomingPackets.length < 32768) :
    a.Balanced cap lsn := by
  have ⟨rep,capacity,base,reached,got,returned,available,total,unfinished⟩ := audited
  have split := Reassembly.stream_eq rep.valid
  rw [← audited.stream,← returned] at split
  refine ⟨?_,capacity ▸ rep.space,available.trans (rep.upToLast few).symm,reached ▸ rep.lastSeqNr,?_,?_,
    ⟨r.rest,split,available.symm⟩,?_⟩
  · intro j pkt inside
    rw [rep.getElem_seqNr inside,rep.frontSeqNr]
    exact UInt16.ofNat_add _ _
  · intro n after upTo
    rw [mem_lookup,← got]
    exact rep.valid.received n (by omega) (by omega)
  · rw [mem_lookup,← got,← reached]
    exact fun present => present rep.valid.gap
  · intro maxLen any
    obtain ⟨w',front',r',bytes,result,rep',reads,_,amount,_⟩ := read_repr rep any maxLen
    obtain ⟨left,taken⟩ := amount.rest reads rep.valid rep'.valid
    refine ⟨w',bytes,result,?_,?_⟩
    · rw [available,← List.length_take,← taken]
    · rw [split,left]
      exact ⟨r'.rest,List.append_assoc _ _ _⟩

-- Along a run that stays within 32767 slots and never reads from a window without
-- slots, the counters of the window say what they are for.
theorem window_accounts (cap : UInt32) (lsn : UInt16) (calls : List Call) (steady : (Account.start cap lsn).Steady calls) :
    Account.Along (Account.Balanced cap lsn) (.start cap lsn) calls :=
  along_audited (fun _ _ _ audited few => audited.balanced few) (start_audited cap lsn) steady

-- Packet 0 before packet 65535, then a byte of the two.
theorem window_accounts_wrapping :
    (Account.start 131072 65534).Steady [inOrder 0,inOrder 65535,.read 1] ∧
    Account.Along (Account.Balanced 131072 65534) (.start 131072 65534) [inOrder 0,inOrder 65535,.read 1] := by
  have steady : (Account.start 131072 65534).Steady [inOrder 0,inOrder 65535,.read 1] := by decide +kernel
  exact ⟨steady,window_accounts 131072 65534 _ steady⟩

theorem Account.Along.here {a : Account} (along : Account.Along P a calls) : P a := by
  cases calls with
  | nil => exact along
  | cons => exact along.1

theorem Account.Along.ran {a : Account} (along : Account.Along P a calls) : a.run calls ≠ none := by
  induction calls generalizing a with
  | nil => exact Option.some_ne_none a
  | cons c rest ih =>
      obtain ⟨_,a',called,next⟩ := along
      rw [Account.run,called]
      exact ih next

-- 21 packets of one byte are read at once: all their slots are erased, and the
-- next read asks for the front of a vector without elements.
def readAll : List Call := (List.range' 1 21).map inOrder ++ [.read 21]

theorem emptied_window_has_no_front :
    (∃ a, (Account.start 131072 0).run readAll = some a ∧ a.stored.length = 21 ∧
      a.window.incomingPackets.length < 32768 ∧ a.window.read 1 = none) ∧
    ¬ Account.Along (Account.Balanced 131072 0) (.start 131072 0) (readAll ++ [.read 1]) := by
  have emptied : ((Account.start 131072 0).run readAll).map
      (fun a => (a.stored.length,a.window.incomingPackets,a.window.read 1)) = some (21,[],none) := by
    decide +kernel
  have stuck : (Account.start 131072 0).run (readAll ++ [.read 1]) = none := by
    have result : ((Account.start 131072 0).run (readAll ++ [.read 1])).isNone := by decide +kernel
    exact Option.isNone_iff_eq_none.mp result
  refine ⟨?_,fun along => along.ran stuck⟩
  obtain ⟨a,ran,values⟩ := Option.map_eq_some_iff.mp emptied
  simp only [Prod.mk.injEq] at values
  obtain ⟨count,slots,unread⟩ := values
  exact ⟨a,ran,count,by rw [slots]; decide,unread⟩

end KtorrentStream.Utp
