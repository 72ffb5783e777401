import KtorrentStream.Peer.PacketReader
import KtorrentStream.Download.Packet
set_option autoImplicit true

namespace KtorrentStream.Peer
open KtorrentStream.Util KtorrentStream.Lib KtorrentStream.Download

-- The reader has been given the bytes s and its peer the packets handled. Between two
-- packets it holds the first bytes of a length, inside one a packet that is not full.
inductive Consistent (most : Nat) (handled : List (List UInt8)) (s : List UInt8) (r : PacketReader) : Prop
  | between (sized : r.maxPacketSize = most) (ok : r.error = false) (complete : ∀ pck ∈ r.packetQueue, pck.read = pck.size)
      (short : r.lenReceived < 4) (kept : r.lenReceived.toNat ≤ r.len.length)
      (read : (framing most).Read s (handled ++ r.packetQueue.map (·.data)) (r.len.take r.lenReceived.toNat)) :
      Consistent most handled s r
  | inside (sized : r.maxPacketSize = most) (ok : r.error = false) (q : List IncomingPacket) (pck : IncomingPacket) (head : List UInt8)
      (queue : r.packetQueue = q ++ [pck]) (complete : ∀ pck ∈ q, pck.read = pck.size)
      (whole : head.length = 4) (length : readUint32 head 0 = pck.size) (more : pck.read < pck.size) (below : pck.size ≤ most)
      (none_ : r.lenReceived ≤ 0)
      (read : (framing most).Read s (handled ++ q.map (·.data)) (head ++ pck.data)) :
      Consistent most handled s r
  | failed (error : r.error = true) (done : List (List UInt8))
      (messages : ∀ t, (framing most).messages (s ++ t) = handled ++ done) (oversize : ∀ t, (framing most).oversize (s ++ t) = true) :
      Consistent most handled s r

-- newPacket may be called: no packet is being filled.
def Settled (r : PacketReader) : Prop := r.error = true ∨ ∀ pck ∈ r.packetQueue, pck.read = pck.size

-- What a delivery of size bytes may be: (int) size is positive and no sum of a packet's
-- bytes and of the delivery's wraps.
def Fits (most : Nat) (buf : List UInt8) : Prop := buf.length < 2147483648 ∧ most + buf.length ≤ 4294967296

theorem Fits.drop (fits : Fits most buf) (n : Nat) : Fits most (buf.drop n) := by
  unfold Fits at *
  rw [List.length_drop]
  omega

theorem PacketReader.fillLast_append {r : PacketReader} (queue : r.packetQueue = q ++ [pck])
    (room : pck.read + bytes.length ≤ pck.size) :
    r.fillLast bytes = some {r with packetQueue := q ++ [⟨pck.data ++ bytes,pck.size⟩]} := by
  unfold PacketReader.fillLast
  rw [queue,List.getLast?_concat,List.dropLast_concat]
  exact if_pos room

-- What a call that was given buf has taken: n bytes, all of them unless it ends between two packets.
def Taken (most : Nat) (handled : List (List UInt8)) (s buf : List UInt8) (result : Option (PacketReader × Nat)) : Prop :=
  ∃ r n, result = some (r,n) ∧ n ≤ buf.length ∧ (buf ≠ [] → 0 < n) ∧ (n = buf.length ∨ Settled r) ∧
    Consistent most handled (s ++ buf.take n) r

theorem readPacket_spec {r : PacketReader} {pck : IncomingPacket} (sized : r.maxPacketSize = most) (ok : r.error = false)
    (queue : r.packetQueue = q ++ [pck]) (complete : ∀ pck ∈ q, pck.read = pck.size)
    (whole : head.length = 4) (length : readUint32 head 0 = pck.size) (more : pck.read < pck.size) (below : pck.size ≤ most)
    (none_ : r.lenReceived ≤ 0) (read : (framing most).Read s (handled ++ q.map (·.data)) (head ++ pck.data)) (fits : Fits most buf) :
    Taken most handled s buf (r.readPacket buf) := by
  unfold PacketReader.readPacket
  by_cases empty : buf.length = 0
  · rw [if_pos empty]
    refine ⟨r,0,rfl,Nat.zero_le _,fun some_ => absurd (List.length_eq_zero_iff.mp empty) some_,.inl empty.symm,?_⟩
    rw [List.take_zero,List.append_nil]
    exact .inside sized ok q pck head queue complete whole length more below none_ read
  · have bounds := fits.2
    have held : pck.read = pck.data.length := rfl
    have sum : uint32 (pck.read + buf.length) = pck.read + buf.length := uint32_of_lt (by omega)
    rw [if_neg empty,queue,List.getLast?_concat]
    simp only [sum]
    by_cases full : pck.read + buf.length ≥ pck.size
    · have tr : uint32Sub pck.size pck.read = pck.size - pck.read := uint32Sub_of_le (by omega) (by omega)
      have taken : (buf.take (pck.size - pck.read)).length = pck.size - pck.read := by
        rw [List.length_take]
        omega
      rw [if_pos full,tr,PacketReader.fillLast_append queue (by omega)]
      have complete' : ∀ p ∈ q ++ [⟨pck.data ++ buf.take (pck.size - pck.read),pck.size⟩], p.read = p.size := by
        intro p member
        rcases List.mem_append.mp member with old | new
        · exact complete p old
        · rw [List.mem_singleton.mp new]
          show (pck.data ++ _).length = pck.size
          rw [List.length_append,taken]
          omega
      refine ⟨_,_,rfl,by omega,fun _ => by omega,.inr (.inr complete'),
        .between sized ok complete' (show r.lenReceived < 4 by omega) ?_ ?_⟩
      · show r.lenReceived.toNat ≤ _
        omega
      · show (framing most).Read _ _ (r.len.take r.lenReceived.toNat)
        have nothing : r.lenReceived.toNat = 0 := by omega
        have body : (pck.data ++ buf.take (pck.size - pck.read)).length = readUint32 head 0 := by
          rw [List.length_append,taken,length]
          omega
        have extended := read.more (buf.take (pck.size - pck.read))
        rw [List.append_assoc,← List.append_nil (pck.data ++ _)] at extended
        have message := Framing.Read.message extended whole (by show 0 < readUint32 head 0; omega)
          (by show readUint32 head 0 ≤ most; omega) body
        rw [nothing,List.take_zero,List.map_append,← List.append_assoc]
        exact message
    · rw [if_neg full,PacketReader.fillLast_append queue (by omega)]
      refine ⟨_,_,rfl,Nat.le_refl _,fun _ => by omega,.inl rfl,
        .inside sized ok q ⟨pck.data ++ buf,pck.size⟩ head rfl complete whole length ?_ below none_ ?_⟩
      · show (pck.data ++ buf).length < pck.size
        rw [List.length_append]
        omega
      · rw [List.take_length,← List.append_assoc]
        exact read.more buf

theorem beginPacket_spec {r : PacketReader} (sized : r.maxPacketSize = most) (ok : r.error = false)
    (complete : ∀ pck ∈ r.packetQueue, pck.read = pck.size) (none_ : r.lenReceived ≤ 0) (whole : head.length = 4)
    (some_ : 0 < a) (within : a ≤ buf.length)
    (read : (framing most).Read (s ++ buf.take a) (handled ++ r.packetQueue.map (·.data)) head) (fits : Fits most buf) :
    Taken most handled s buf (r.beginPacket buf (readUint32 head 0) a) := by
  unfold PacketReader.beginPacket
  by_cases empty : readUint32 head 0 = 0
  · rw [if_pos empty]
    refine ⟨r,a,rfl,within,fun _ => some_,.inr (.inr complete),.between sized ok complete (by omega) (by omega) ?_⟩
    rw [show r.lenReceived.toNat = 0 by omega,List.take_zero]
    rw [← List.append_nil head] at read
    exact read.empty whole empty
  · rw [if_neg empty]
    by_cases over_ : readUint32 head 0 > r.maxPacketSize
    · rw [if_pos over_]
      have above : (framing most).limit < (framing most).lengthOf head := by
        show most < readUint32 head 0
        omega
      have glue (t : List UInt8) : s ++ buf.take a ++ (buf.drop a ++ t) = s ++ buf ++ t := by
        rw [List.append_assoc,← List.append_assoc (buf.take a),List.take_append_drop,List.append_assoc]
      refine ⟨_,_,rfl,Nat.le_refl _,fun _ => by omega,.inl rfl,.failed rfl (r.packetQueue.map (·.data)) ?_ ?_⟩
      · intro t
        have now := (read (buf.drop a ++ t)).1
        rw [glue,Framing.messages_over whole above,List.append_nil] at now
        rw [List.take_length,now]
      · intro t
        have now := (read (buf.drop a ++ t)).2
        rw [glue,Framing.oversize_over whole above] at now
        rw [List.take_length,now]
    · rw [if_neg over_]
      rw [← List.append_nil head] at read
      have begun : IncomingPacket.read ⟨[],readUint32 head 0⟩ < readUint32 head 0 := Nat.pos_of_ne_zero empty
      obtain ⟨r',n,result,fewer,_,settled,consistent⟩ := readPacket_spec
        (r := {r with packetQueue := r.packetQueue ++ [⟨[],readUint32 head 0⟩]}) sized ok rfl complete whole rfl
        begun (by show readUint32 head 0 ≤ most; omega) none_ read (fits.drop a)
      rw [List.length_drop] at fewer settled
      simp only [result]
      refine ⟨r',a + n,rfl,by omega,fun _ => by omega,?_,?_⟩
      · rcases settled with all | settled
        · exact .inl (by omega)
        · exact .inr settled
      · rw [List.take_add,← List.append_assoc]
        exact consistent

theorem int32_small (small : n < 2147483648) : PacketReader.int32 n = n := if_pos small

theorem newPacket_spec {r : PacketReader} (consistent : Consistent most handled s r) (settled : Settled r) (ok : r.error = false)
    (fits : Fits most buf) : Taken most handled s buf (r.newPacket buf) := by
  cases consistent with
  | failed error => rw [ok] at error; cases error
  | inside _ _ q pck head queue _ _ _ more =>
    rcases settled with error | complete
    · rw [ok] at error; cases error
    · have := complete pck (by rw [queue]; simp)
      omega
  | between sized _ complete short kept read =>
    unfold PacketReader.newPacket
    rw [int32_small fits.1]
    have received : (r.len.take r.lenReceived.toNat).length = r.lenReceived.toNat := by
      rw [List.length_take]
      omega
    by_cases begun : r.lenReceived > 0
    · rw [if_pos begun]
      by_cases few : (buf.length : Int) < 4 - r.lenReceived
      · have room : r.lenReceived + buf.length ≤ 4 := by omega
        have sum : (r.lenReceived + (buf.length : Int)).toNat = r.lenReceived.toNat + buf.length := by omega
        have length : (r.len.take r.lenReceived.toNat ++ buf).length = r.lenReceived.toNat + buf.length := by
          rw [List.length_append,received]
        rw [if_pos few,if_pos room]
        refine ⟨_,_,rfl,Nat.le_refl _,List.length_pos_iff.mpr,.inl rfl,.between sized ok complete ?_ ?_ ?_⟩
        · show r.lenReceived + (buf.length : Int) < 4
          omega
        · show (r.lenReceived + (buf.length : Int)).toNat ≤ _
          rw [sum,length]
        · show (framing most).Read _ _ (List.take (r.lenReceived + (buf.length : Int)).toNat _)
          rw [sum,← length,List.take_length,List.take_length]
          exact read.more buf
      · rw [if_neg few]
        have enough : (4 - r.lenReceived).toNat ≤ buf.length := by omega
        refine beginPacket_spec sized ok complete (Int.le_refl 0) ?_ (by omega) enough (read.more _) fits
        rw [List.length_append,received,List.length_take]
        omega
    · rw [if_neg begun]
      have nothing : r.lenReceived.toNat = 0 := by omega
      rw [nothing,List.take_zero] at read
      by_cases few : buf.length < 4
      · rw [if_pos few]
        refine ⟨_,_,rfl,Nat.le_refl _,List.length_pos_iff.mpr,.inl rfl,.between sized ok complete ?_ ?_ ?_⟩
        · show (buf.length : Int) < 4
          omega
        · exact Nat.le_refl _
        · show (framing most).Read _ _ (buf.take buf.length)
          rw [List.take_length]
          exact read.more buf
      · rw [if_neg few]
        rw [← readUint32_take buf (Nat.le_refl 4)]
        refine beginPacket_spec sized ok complete (by omega) ?_ (by omega) (by omega) (read.more _) fits
        rw [List.length_take]
        omega

theorem settled_drop {buf : List UInt8} (settled : n = buf.length ∨ Settled r) (left : buf.drop n ≠ []) : Settled r := by
  rcases settled with all | settled
  · exact absurd (List.drop_eq_nil_of_le (by omega)) left
  · exact settled

-- Each round takes at least one byte, so the loop ends with all of them taken.
theorem newPackets_spec {r : PacketReader} (consistent : Consistent most handled s r)
    (settled : buf ≠ [] → Settled r) (rounds : buf.length ≤ n) (fits : Fits most buf) :
    ∃ r', PacketReader.newPackets n r buf = some r' ∧ Consistent most handled (s ++ buf) r' := by
  induction n generalizing r s buf with
  | zero =>
    have empty : buf = [] := List.length_eq_zero_iff.mp (by omega)
    rw [PacketReader.newPackets,if_pos (.inl empty),empty,List.append_nil]
    exact ⟨r,rfl,consistent⟩
  | succ n ih =>
    rw [PacketReader.newPackets]
    by_cases empty : buf = []
    · rw [if_pos (.inl empty),empty,List.append_nil]
      exact ⟨r,rfl,consistent⟩
    · cases error : r.error with
      | true =>
        rw [if_pos (.inr rfl)]
        refine ⟨r,rfl,?_⟩
        cases consistent with
        | between _ ok => rw [ok] at error; cases error
        | inside _ ok => rw [ok] at error; cases error
        | failed _ done messages oversize =>
          refine .failed error done ?_ ?_
          · intro t
            rw [List.append_assoc,messages]
          · intro t
            rw [List.append_assoc,oversize]
      | false =>
        obtain ⟨r',k,result,fewer,some_,settled',consistent'⟩ := newPacket_spec consistent (settled empty) error fits
        have taken := some_ empty
        rw [if_neg (by simp [empty]),result]
        obtain ⟨r'',rest,last⟩ := ih consistent' (settled_drop settled') (by rw [List.length_drop]; omega) (fits.drop k)
        rw [List.append_assoc,List.take_append_drop] at last
        exact ⟨r'',rest,last⟩

theorem newPackets_follow {first : Option (PacketReader × Nat)} (fits : Fits most buf) (taken : Taken most handled s buf first) :
    ∃ r', (first.bind fun (r,ret) => PacketReader.newPackets buf.length r (buf.drop ret)) = some r' ∧
      Consistent most handled (s ++ buf) r' := by
  obtain ⟨r',n,result,fewer,_,settled,consistent'⟩ := taken
  have fewer : (buf.drop n).length ≤ buf.length := by
    rw [List.length_drop]
    omega
  obtain ⟨r'',rest,last⟩ := newPackets_spec consistent' (settled_drop settled) fewer (fits.drop n)
  rw [List.append_assoc,List.take_append_drop] at last
  exact ⟨r'',by rw [result]; exact rest,last⟩

theorem onDataReady_spec {r : PacketReader} (consistent : Consistent most handled s r) (fits : Fits most buf) :
    ∃ r', r.onDataReady buf = some r' ∧ Consistent most handled (s ++ buf) r' := by
  unfold PacketReader.onDataReady
  cases consistent with
  | failed error done messages oversize =>
    rw [if_pos error]
    refine ⟨r,rfl,.failed error done ?_ ?_⟩
    · intro t
      rw [List.append_assoc,messages]
    · intro t
      rw [List.append_assoc,oversize]
  | between sized ok complete short kept read =>
    have consistent : Consistent most handled s r := .between sized ok complete short kept read
    rw [if_neg (by rw [ok]; decide)]
    cases last : r.packetQueue.getLast? with
    | none => exact newPackets_spec consistent (fun _ => .inr complete) (Nat.le_refl _) fits
    | some pck =>
      have full := complete pck (List.mem_of_getLast? last)
      simp only [if_pos full]
      exact newPackets_follow fits (newPacket_spec consistent (.inr complete) ok fits)
  | inside sized ok q pck head queue complete whole length more below none_ read =>
    rw [if_neg (by rw [ok]; decide),queue,List.getLast?_concat]
    simp only [if_neg (show ¬ pck.read = pck.size by omega)]
    exact newPackets_follow fits (readPacket_spec sized ok queue complete whole length more below none_ read fits)

theorem dequeuePackets_complete {q : List IncomingPacket} (complete : ∀ pck ∈ q, pck.read = pck.size) (rest : List IncomingPacket) :
    PacketReader.dequeuePackets (q ++ rest) =
      (q.map (·.data) ++ (PacketReader.dequeuePackets rest).1,(PacketReader.dequeuePackets rest).2) := by
  induction q with
  | nil => rfl
  | cons pck q ih =>
    have tail := ih fun p member => complete p (List.mem_cons_of_mem _ member)
    rw [List.cons_append,PacketReader.dequeuePackets,if_pos (complete pck List.mem_cons_self),tail]
    rfl

theorem update_spec {r : PacketReader} (consistent : Consistent most handled s r) :
    Consistent most (handled ++ r.update.2) s r.update.1 ∧ r.update.1.error = r.error ∧
      (r.error = false → handled ++ r.update.2 = (framing most).messages s) := by
  unfold PacketReader.update
  cases consistent with
  | failed error done messages oversize =>
    rw [if_pos error]
    rw [List.append_nil]
    exact ⟨.failed error done messages oversize,rfl,fun ok => by rw [error] at ok; cases ok⟩
  | between sized ok complete short kept read =>
    rw [if_neg (by rw [ok]; decide)]
    have taken := dequeuePackets_complete complete []
    rw [List.append_nil] at taken
    simp only [taken,PacketReader.dequeuePackets,List.append_nil]
    refine ⟨.between sized ok (by simp) short kept ?_,trivial,fun _ => ?_⟩
    · rw [List.map_nil,List.append_nil]
      exact read
    · rw [read.messages_eq,Framing.messages_short,List.append_nil]
      show (List.take _ _).length < 4
      rw [List.length_take]
      omega
  | inside sized ok q pck head queue complete whole length more below none_ read =>
    have unfilled : PacketReader.dequeuePackets [pck] = ([],[pck]) := if_neg (by omega)
    have taken := dequeuePackets_complete complete [pck]
    rw [unfilled] at taken
    rw [if_neg (by rw [ok]; decide),queue]
    simp only [taken,List.append_nil]
    refine ⟨.inside sized ok [] pck head rfl (by simp) whole length more below none_ ?_,trivial,fun _ => ?_⟩
    · rw [List.map_nil,List.append_nil]
      exact read
    · rw [read.messages_eq,Framing.messages_begun whole (by show readUint32 head 0 ≤ most; omega)
        (by show pck.read < readUint32 head 0; omega),List.append_nil]

theorem Consistent.start (most : Nat) : Consistent most [] [] (PacketReader.new most) :=
  .between rfl rfl (by simp [PacketReader.new]) (show (-1 : Int) < 4 by decide) (Nat.zero_le _) Framing.Read.start

theorem Consistent.handled_isPrefix (consistent : Consistent most handled s r) : handled <+: (framing most).messages s := by
  cases consistent with
  | between _ _ _ _ _ read =>
    rw [read.messages_eq,List.append_assoc]
    exact List.prefix_append _ _
  | inside _ _ _ _ _ _ _ _ _ _ _ _ read =>
    rw [read.messages_eq,List.append_assoc]
    exact List.prefix_append _ _
  | failed _ done messages =>
    have now := messages []
    rw [List.append_nil] at now
    rw [now]
    exact List.prefix_append _ _

theorem Consistent.error_iff (consistent : Consistent most handled s r) : r.error = (framing most).oversize s := by
  cases consistent with
  | between _ ok _ short _ read =>
    rw [ok,read.oversize_eq,Framing.oversize_short]
    show (List.take _ _).length < 4
    rw [List.length_take]
    omega
  | inside _ ok _ pck head _ _ whole length more below _ read =>
    rw [ok,read.oversize_eq,Framing.oversize_begun whole (by show readUint32 head 0 ≤ most; omega)
      (by show pck.read < readUint32 head 0; omega)]
  | failed error _ _ oversize =>
    have now := oversize []
    rw [List.append_nil] at now
    rw [error,now]

theorem Reading.step_spec {r : Reading} (consistent : Consistent most r.handled s r.reader) (event : Event)
    (fits : Fits most event.bytes) : ∃ r', r.step event = some r' ∧ Consistent most r'.handled (s ++ event.bytes) r'.reader := by
  cases event with
  | onDataReady buf =>
    obtain ⟨reader,result,consistent'⟩ := onDataReady_spec consistent fits
    refine ⟨{r with reader := reader},?_,consistent'⟩
    exact congrArg (Option.map fun reader => {r with reader := reader}) result
  | update =>
    refine ⟨_,rfl,?_⟩
    show Consistent most _ (s ++ []) _
    rw [List.append_nil]
    exact (update_spec consistent).1

theorem Reading.run_spec {r : Reading} (consistent : Consistent most r.handled s r.reader)
    (fits : ∀ event ∈ events, Fits most event.bytes) :
    ∃ r', r.run events = some r' ∧ Consistent most r'.handled (s ++ stream events) r'.reader ∧
      (r'.reader.error = false → events.getLast? = some .update → r'.handled = (framing most).messages (s ++ stream events)) := by
  induction events generalizing r s with
  | nil =>
    refine ⟨r,rfl,?_,fun _ last => by cases last⟩
    show Consistent most _ (s ++ []) _
    rw [List.append_nil]
    exact consistent
  | cons event rest ih =>
    obtain ⟨r₁,first,consistent₁⟩ := Reading.step_spec consistent event (fits event List.mem_cons_self)
    obtain ⟨r₂,others,consistent₂,last⟩ := ih consistent₁ fun e member => fits e (List.mem_cons_of_mem _ member)
    have glue : s ++ event.bytes ++ stream rest = s ++ stream (event :: rest) := by
      rw [List.append_assoc]
      rfl
    rw [glue] at consistent₂ last
    refine ⟨r₂,by rw [Reading.run,first]; exact others,consistent₂,fun ok final => ?_⟩
    cases rest with
    | nil =>
      cases Option.some.inj final
      cases first
      cases others
      have done := update_spec consistent
      show _ = (framing most).messages (s ++ [])
      rw [List.append_nil]
      exact done.2.2 (done.2.1 ▸ ok)
    | cons next rest => exact last ok final

-- The packets of Packet's constructors are framed as the reader expects.
theorem constructed_messages {packets : List Packet} (made : ∀ p ∈ packets, Constructed p ∧ p.size ≤ most + 4) :
    (framing most).messages (packets.flatMap (·.data)) = packets.map (·.data.drop 4) ∧
      (framing most).oversize (packets.flatMap (·.data)) = false := by
  have framed : packets.flatMap (·.data) = (packets.map (·.data.drop 4)).flatMap fun m => writeUint32 m.length ++ m := by
    rw [List.flatMap_map]
    apply List.flatMap_congr
    intro p member
    exact (made p member).1.framed.1
  rw [framed]
  refine Framing.messages_flatMap (fun m _ => rfl) ?_ ?_ ?_
  · intro m member
    obtain ⟨p,origin,rfl⟩ := List.mem_map.mp member
    obtain ⟨_,length,_,small⟩ := (made p origin).1.framed
    have short : (p.data.drop 4).length < 4294967296 := by omega
    have read := readUint32_write short []
    rw [List.append_nil] at read
    exact read
  · intro m member
    obtain ⟨p,origin,rfl⟩ := List.mem_map.mp member
    exact (made p origin).1.framed.2.2.1
  · intro m member
    obtain ⟨p,origin,rfl⟩ := List.mem_map.mp member
    have length := (made p origin).1.framed.2.1
    have size := (made p origin).2
    show (p.data.drop 4).length ≤ most
    omega

-- However the stream is cut and whenever update runs, the peer is handed the messages of
-- the stream, in order; a run of the reader never leaves its buffers.
theorem packets_framed (maxPacketSize : Nat) (events : List Event) (fits : ∀ event ∈ events, Fits maxPacketSize event.bytes) :
    ∃ r, Reading.run ⟨PacketReader.new maxPacketSize,[]⟩ events = some r ∧
      r.handled <+: (framing maxPacketSize).messages (stream events) ∧
      r.reader.error = (framing maxPacketSize).oversize (stream events) ∧
      ((framing maxPacketSize).oversize (stream events) = false → events.getLast? = some .update →
        r.handled = (framing maxPacketSize).messages (stream events)) ∧
      ∀ packets : List Packet, (∀ p ∈ packets, Constructed p ∧ p.size ≤ maxPacketSize + 4) →
        stream events = packets.flatMap (·.data) → events.getLast? = some .update →
          r.handled = packets.map (·.data.drop 4) := by
  obtain ⟨r,ran,consistent,last⟩ := Reading.run_spec (r := ⟨PacketReader.new maxPacketSize,[]⟩) (Consistent.start maxPacketSize) fits
  rw [List.nil_append] at consistent last
  have error := consistent.error_iff
  have complete (within : (framing maxPacketSize).oversize (stream events) = false) (final : events.getLast? = some .update) :
      r.handled = (framing maxPacketSize).messages (stream events) := last (error.trans within) final
  refine ⟨r,ran,consistent.handled_isPrefix,error,complete,?_⟩
  intro packets made sent final
  obtain ⟨messages,within⟩ := constructed_messages made
  rw [← sent] at messages within
  rw [complete within final,messages]

-- A keep-alive and a choke, cut inside the lengths.
theorem choke_framed : ∃ r, Reading.run ⟨PacketReader.new 1,[]⟩
      [.onDataReady [0,0,0],.update,.onDataReady [0,0,0,0],.onDataReady [1,0],.update] = some r ∧ r.handled = [[0]] := by
  obtain ⟨r,ran,_,_,complete,_⟩ := packets_framed 1
    [.onDataReady [0,0,0],.update,.onDataReady [0,0,0,0],.onDataReady [1,0],.update] (by simp [Fits,Event.bytes])
  have whole : stream [.onDataReady [0,0,0],.update,.onDataReady [0,0,0,0],.onDataReady [1,0],.update] =
      [0,0,0,0] ++ ([0,0,0,1] ++ ([0] ++ [])) := rfl
  have messages : (framing 1).messages ([0,0,0,0] ++ ([0,0,0,1] ++ ([0] ++ []))) = [[0]] := by
    rw [Framing.messages_empty rfl rfl,Framing.messages_message rfl (by decide) (by decide) rfl,
      Framing.messages_short (by decide)]
  have within : (framing 1).oversize ([0,0,0,0] ++ ([0,0,0,1] ++ ([0] ++ []))) = false := by
    rw [Framing.oversize_empty rfl rfl,Framing.oversize_message rfl (by decide) (by decide) rfl,
      Framing.oversize_short (by decide)]
  rw [whole] at complete
  exact ⟨r,ran,(complete within rfl).trans messages⟩

-- The limit that Peer gives its reader.
def maxPacketLen (numChunks : Nat) : Nat :=
  let bitfieldLength := numChunks / 8 + 1 + if numChunks % 8 = 0 then 0 else 1
  if bitfieldLength > 9 + 16384 then bitfieldLength else 9 + 16384

-- TrafficShapedSocket::read hands out its input_buffer of 16393 bytes, and the hashes of
-- a torrent's chunks, 20 bytes each, lie in one QByteArray.
theorem peer_fits (chunks : numChunks * 20 < 2147483648) (buffer : buf.length ≤ 16393) :
    Fits (uint32 (10 * maxPacketLen numChunks)) buf := by
  have small : maxPacketLen numChunks ≤ numChunks / 8 + 16393 := by
    unfold maxPacketLen
    dsimp only
    split <;> split <;> omega
  unfold Fits
  rw [uint32_of_lt (by omega)]
  omega

end KtorrentStream.Peer
