import Mathlib.Data.List.Nodup
import KtorrentStream.Mse.ClientStream
set_option autoImplicit true

namespace KtorrentStream.Mse
open Util Lib

namespace EncryptedServerAuthenticate

-- What ServerAuthenticate will read, with the encryptor the socket has.
def rest (h : Host) (a : EncryptedServerAuthenticate) : List UInt8 := decryptWith h a.enc (a.reinserted ++ a.unread)

end EncryptedServerAuthenticate
open EncryptedServerAuthenticate

def Client.encryptedEnd (h : Host) (c : Client) : Nat :=
  if c.rc4 then (c.stream h).length else c.off + 40 + c.plain.length

-- The connection is kept, with the info hash and the mode of the client, ServerAuthenticate
-- gets IA and then the rest of the stream, and every encrypted byte is decrypted once: it
-- was, or it waits in the socket for the encryptor.
structure Passed (h : Host) (c : Client) (a : EncryptedServerAuthenticate) : Prop where
  sock : a.sock = true
  state : a.state = .nonEncryptedHandshake
  infoHash : a.infoHash = c.infoHash
  mode : a.cryptoSelect = if c.rc4 then 2 else 1
  plain : a.handshake ++ a.rest h = c.ia ++ c.payload
  once : ∀ p, c.off + 40 ≤ p → p < c.encryptedEnd h → a.decrypted.count p + (if a.enc.isSome ∧ a.next ≤ p then 1 else 0) = 1

section Growing
variable {h : Host} {m : Memory} {a : EncryptedServerAuthenticate} {l : List Nat}

theorem readData_grows (len : Nat) (so : l <+: a.decrypted) : l <+: (a.readData h len).2.decrypted := by
  unfold readData
  dsimp only
  split
  · exact so.trans (List.prefix_append _ _)
  · rw [List.append_assoc]
    exact so.trans (List.prefix_append _ _)

theorem serverOnReadyRead_grows (so : l <+: a.decrypted) : l <+: (a.serverOnReadyRead h).decrypted := by
  unfold serverOnReadyRead
  split
  · exact so
  · split
    · exact so
    · split
      · split
        · exact readData_grows _ so
        · exact readData_grows _ so
      · exact readData_grows _ so

theorem handOver_grows (so : l <+: a.decrypted) : l <+: (a.handOver h).decrypted := serverOnReadyRead_grows so

theorem setMode_grows (so : l <+: a.decrypted) : l <+: (a.setMode h).decrypted := by
  unfold setMode
  split
  · exact handOver_grows so
  · split
    · exact so
    · exact handOver_grows so

theorem handleIA_grows (so : l <+: a.decrypted) : l <+: (a.handleIA h).decrypted := by
  have same : a.reinsert.decrypted = a.decrypted := by
    unfold reinsert
    split <;> rfl
  unfold handleIA
  split
  · exact so
  · exact setMode_grows (same ▸ so)

theorem awaitIA_grows (so : l <+: a.decrypted) : l <+: (a.awaitIA h).decrypted := by
  unfold awaitIA
  split
  · exact so
  · exact handleIA_grows so

theorem decryptBuf_grows (off n : Nat) (so : l <+: a.decrypted) : l <+: (a.decryptBuf h off n).decrypted := so.trans (List.prefix_append _ _)

theorem handlePadC_grows (so : l <+: a.decrypted) : l <+: (a.handlePadC h).decrypted := by
  unfold handlePadC
  split
  · exact so
  · exact awaitIA_grows (decryptBuf_grows (h := h) _ _ so)

theorem awaitPadC_grows (so : l <+: a.decrypted) : l <+: (a.awaitPadC h).decrypted := by
  unfold awaitPadC
  split
  · exact so
  · exact handlePadC_grows so

theorem checkVC_grows (so : l <+: a.decrypted) : l <+: (a.checkVC h).decrypted := by
  unfold checkVC checkPadC
  split
  · exact so
  · split
    · exact so
    · exact awaitPadC_grows so

theorem processVC_grows (so : l <+: a.decrypted) : l <+: (a.processVC h m).decrypted := by
  have same : (a.startRc4 h m).decrypted = a.decrypted := by
    unfold startRc4
    split <;> rfl
  unfold processVC decryptVC
  split
  · exact same ▸ so
  · exact checkVC_grows (decryptBuf_grows _ _ (same ▸ so))

theorem calculateSKey_grows (so : l <+: a.decrypted) : l <+: (a.calculateSKey h m).decrypted := by
  unfold calculateSKey
  split
  · exact so
  · split
    · exact so
    · exact processVC_grows so

theorem findReq1_grows (so : l <+: a.decrypted) : l <+: (a.findReq1 h m).decrypted := by
  unfold findReq1
  split
  · exact so
  · split
    · exact calculateSKey_grows so
    · split
      · exact so
      · exact so

theorem fillBuf_grows (ba : Nat) (so : l <+: a.decrypted) : l <+: (a.fillBuf h ba).decrypted := readData_grows ba so

theorem firstRead_grows (so : l <+: a.decrypted) : l <+: (a.firstRead h m).decrypted := by
  unfold firstRead handleYA
  split
  · exact findReq1_grows so
  · exact so

theorem dispatch_grows (ba : Nat) (so : l <+: a.decrypted) : l <+: (a.dispatch h m ba).decrypted := by
  have filled : l <+: (a.fillBuf h ba).decrypted := fillBuf_grows ba so
  unfold dispatch
  cases a.state with
  | waitingForYA =>
    dsimp only
    split
    · exact serverOnReadyRead_grows so
    · exact firstRead_grows filled
  | waitingForReq1 => exact findReq1_grows filled
  | foundReq1 => exact calculateSKey_grows filled
  | foundInfoHash => exact processVC_grows filled
  | waitForPadC => exact handlePadC_grows filled
  | waitForIA => exact handleIA_grows filled
  | nonEncryptedHandshake => exact serverOnReadyRead_grows so

theorem onReadyRead_grows (arrival : Arrival) (so : l <+: a.decrypted) : l <+: (a.onReadyRead h arrival).decrypted := by
  unfold onReadyRead readyRead
  split
  · exact so
  · split
    · exact so
    · exact dispatch_grows _ so

theorem run_grows (arrivals : List Arrival) (so : l <+: a.decrypted) : l <+: (a.run h arrivals).decrypted := by
  induction arrivals generalizing a with
  | nil => exact so
  | cons arrival arrivals more => exact more (onReadyRead_grows arrival so)

end Growing

-- A byte that was decrypted twice stays so.
theorem not_passed_of_twice {h : Host} {c : Client} {a : EncryptedServerAuthenticate} {p : Nat} (low : c.off + 40 ≤ p) (high : p < c.encryptedEnd h)
    (twice : 2 ≤ a.decrypted.count p) (arrivals : List Arrival) : ¬ Passed h c (a.run h arrivals) := by
  intro passed
  have more := (@run_grows h a _ arrivals List.prefix_rfl).sublist.count_le p
  have once := passed.once p low high
  omega

theorem not_passed_of_closed {h : Host} {c : Client} {a : EncryptedServerAuthenticate} (closed : a.sock = false) (arrivals : List Arrival) :
    ¬ Passed h c (a.run h arrivals) := by
  have stays : ∀ arrival, a.onReadyRead h arrival = a := by
    intro arrival
    unfold onReadyRead
    rw [closed]
    rfl
  have same : a.run h arrivals = a := by
    induction arrivals with
    | nil => rfl
    | cons arrival arrivals more =>
      unfold run at more ⊢
      rw [List.foldl_cons,stays,more]
  rw [same]
  intro passed
  have sock := passed.sock
  rw [closed] at sock
  cases sock

-- Arrivals that bring the stream from place t on.
structure Brings (h : Host) (c : Client) (t : Nat) (arrivals : List Arrival) : Prop where
  inside : t ≤ (c.stream h).length
  bytes : (arrivals.map Arrival.bytes).flatten = (c.stream h).drop t
  some_ : ∀ arrival ∈ arrivals, arrival.bytes ≠ []

section Brings
variable {h : Host} {c : Client} {t : Nat} {arrival : Arrival} {arrivals : List Arrival}

theorem Brings.first (brings : Brings h c t (arrival :: arrivals)) :
    arrival.bytes = ((c.stream h).drop t).take arrival.bytes.length ∧ 0 < arrival.bytes.length ∧ t + arrival.bytes.length ≤ (c.stream h).length := by
  have bytes := brings.bytes
  have positive : 0 < arrival.bytes.length := List.length_pos_iff.mpr (brings.some_ _ List.mem_cons_self)
  rw [List.map_cons,List.flatten_cons] at bytes
  have length := congrArg List.length bytes
  rw [List.length_append,List.length_drop] at length
  refine ⟨?_,positive,by omega⟩
  rw [← bytes,List.take_left]

theorem Brings.next (brings : Brings h c t (arrival :: arrivals)) : Brings h c (t + arrival.bytes.length) arrivals := by
  have bytes := brings.bytes
  rw [List.map_cons,List.flatten_cons] at bytes
  refine ⟨brings.first.2.2,?_,fun r mem => brings.some_ r (List.mem_cons_of_mem _ mem)⟩
  rw [← List.drop_drop,← bytes,List.drop_left]

theorem Brings.last (brings : Brings h c t []) : t = (c.stream h).length := by
  have bytes := brings.bytes
  exact Nat.le_antisymm brings.inside (List.drop_eq_nil_iff.mp bytes.symm)

end Brings

section Amount
variable {h : Host} {m : Memory} {a : EncryptedServerAuthenticate}

theorem decryptWith_length (enc : Option Decryptor) (data : List UInt8) : (decryptWith h enc data).length = data.length := by
  cases enc with
  | none => rfl
  | some d => exact crypt_length data

-- The bytes that ServerAuthenticate has or can get.
def EncryptedServerAuthenticate.given (a : EncryptedServerAuthenticate) : Nat := a.handshake.length + a.bytesAvailable

theorem readHandshake_given (len : Nat) : (a.readHandshake h len).given = a.given := by
  unfold readHandshake readData given bytesAvailable
  dsimp only
  split
  · dsimp only
    rw [List.length_append,decryptWith_length,List.length_take,List.length_drop]
    omega
  · dsimp only
    rw [List.length_append,decryptWith_length,List.length_append,decryptWith_length,List.length_take,List.length_drop,List.length_nil]
    omega

theorem serverOnReadyRead_cases : a.serverOnReadyRead h = a.failed ∨ a.serverOnReadyRead h = a ∨ ∃ len, a.serverOnReadyRead h = a.readHandshake h len := by
  unfold serverOnReadyRead
  split
  · exact .inl rfl
  · split
    · exact .inr (.inl rfl)
    · split
      · split
        · exact .inr (.inr ⟨_,rfl⟩)
        · exact .inr (.inr ⟨_,rfl⟩)
      · exact .inr (.inr ⟨_,rfl⟩)

theorem readHandshake_state (len : Nat) : (a.readHandshake h len).state = a.state ∧ (a.readHandshake h len).sock = a.sock := by
  unfold readHandshake readData
  dsimp only
  split
  · exact ⟨rfl,rfl⟩
  · exact ⟨rfl,rfl⟩

theorem onReadyRead_server (sock : a.sock = true) (state : a.state = .nonEncryptedHandshake) {arrival : Arrival} (some_ : arrival.bytes ≠ []) :
    a.onReadyRead h arrival = (a.arrived arrival.bytes).serverOnReadyRead h := by
  have available : (a.arrived arrival.bytes).bytesAvailable ≠ 0 := by
    have := List.length_pos_iff.mpr some_
    unfold arrived bytesAvailable
    rw [List.length_append]
    omega
  have same : (a.arrived arrival.bytes).state = .nonEncryptedHandshake := state
  unfold onReadyRead readyRead
  rw [sock,if_neg (by decide),if_neg available]
  unfold dispatch
  rw [same]

-- The socket is closed, or nothing gets lost or comes from elsewhere.
theorem not_passed_of_given {c : Client} {t : Nat} (state : a.state = .nonEncryptedHandshake) (arrivals : List Arrival)
    (brings : Brings h c t arrivals) (less : a.given + (c.stream h).length < t + (c.ia.length + c.payload.length)) :
    ¬ Passed h c (a.run h arrivals) := by
  induction arrivals generalizing a t with
  | nil =>
    intro passed
    have length := congrArg List.length passed.plain
    have all := brings.last
    change (a.handshake ++ a.rest h).length = _ at length
    unfold EncryptedServerAuthenticate.rest at length
    rw [List.length_append,decryptWith_length,List.length_append,List.length_append] at length
    unfold given bytesAvailable at less
    omega
  | cons arrival arrivals more =>
    show ¬ Passed h c ((a.onReadyRead h arrival).run h arrivals)
    cases sock : a.sock with
    | false => exact not_passed_of_closed sock (arrival :: arrivals)
    | true =>
      have bytes := brings.some_ arrival List.mem_cons_self
      have given : (a.arrived arrival.bytes).given = a.given + arrival.bytes.length := by
        show a.handshake.length + ((a.unread ++ arrival.bytes).length + a.reinserted.length) =
          a.handshake.length + (a.unread.length + a.reinserted.length) + arrival.bytes.length
        rw [List.length_append]
        omega
      rw [onReadyRead_server sock state bytes]
      rcases @serverOnReadyRead_cases h (a.arrived arrival.bytes) with closed | same | ⟨len,read⟩
      · rw [closed]
        exact not_passed_of_closed rfl arrivals
      · rw [same]
        exact more state brings.next (by omega)
      · rw [read]
        refine more ?_ brings.next ?_
        · rw [(readHandshake_state len).1]
          exact state
        · rw [readHandshake_given]
          omega

end Amount

def Client.iaStart (c : Client) : Nat := c.off + 56 + c.padC.length

section Modes
variable {h : Host} {c : Client} {a : EncryptedServerAuthenticate} {t : Nat}

theorem iaStart_stream : (c.stream h).length = c.iaStart + c.ia.length + c.payload.length := by
  rw [stream_length,plain_length]
  unfold Client.iaStart
  omega

theorem iaStart_encrypted (some_ : 0 < c.ia.length) : c.iaStart < c.encryptedEnd h := by
  have length := @plain_length c
  unfold Client.encryptedEnd
  split
  · rw [iaStart_stream]
    omega
  · unfold Client.iaStart
    omega

theorem readHandshake_plain (len : Nat) (none_ : a.enc = none) :
    (a.readHandshake h len).enc = none ∧ (a.readHandshake h len).decrypted = a.decrypted := by
  unfold readHandshake readData
  dsimp only
  split
  · simp [none_,usedBy,placesOf]
  · simp [none_,usedBy,placesOf]

-- Without an encryptor the bytes of IA are never decrypted.
theorem not_passed_of_plain (state : a.state = .nonEncryptedHandshake) (none_ : a.enc = none) (low : c.off + 40 ≤ p) (high : p < c.encryptedEnd h)
    (fresh : p ∉ a.decrypted) (arrivals : List Arrival) (brings : Brings h c t arrivals) : ¬ Passed h c (a.run h arrivals) := by
  induction arrivals generalizing a t with
  | nil =>
    intro passed
    have once := passed.once p low high
    change a.decrypted.count p + (if a.enc.isSome ∧ a.next ≤ p then 1 else 0) = 1 at once
    rw [List.count_eq_zero.mpr fresh,none_] at once
    simp at once
  | cons arrival arrivals more =>
    show ¬ Passed h c ((a.onReadyRead h arrival).run h arrivals)
    cases sock : a.sock with
    | false => exact not_passed_of_closed sock (arrival :: arrivals)
    | true =>
      rw [onReadyRead_server sock state (brings.some_ arrival List.mem_cons_self)]
      rcases @serverOnReadyRead_cases h (a.arrived arrival.bytes) with closed | same | ⟨len,read⟩
      · rw [closed]
        exact not_passed_of_closed rfl arrivals
      · rw [same]
        exact more state none_ fresh brings.next
      · obtain ⟨enc,decrypted⟩ := @readHandshake_plain h (a.arrived arrival.bytes) len none_
        rw [read]
        refine more ?_ enc ?_ brings.next
        · rw [(readHandshake_state len).1]
          exact state
        · rw [decrypted]
          exact fresh

-- ServerAuthenticate has read k bytes, and t bytes have arrived.
structure Reading (h : Host) (c : Client) (t k : Nat) (a : EncryptedServerAuthenticate) : Prop where
  sock : a.sock = true
  state : a.state = .nonEncryptedHandshake
  infoHash : a.infoHash = c.infoHash
  mode : a.cryptoSelect = 2
  enc : a.enc = some ⟨c.key h,16 + c.padC.length + k⟩
  handshake : a.handshake = (c.ia ++ c.payload).take k
  left : a.reinserted ++ a.unread = ((c.stream h).take t).drop (c.iaStart + k)
  next : a.next = c.iaStart + k
  decrypted : a.decrypted = List.range' (c.off + 40) (16 + c.padC.length + k)
  upTo : c.iaStart + k ≤ t
  inside : t ≤ (c.stream h).length

theorem stream_drop (rc4 : c.rc4 = true) (k : Nat) : (c.stream h).drop (c.iaStart + k) =
    crypt (h.keystream (c.key h)) (16 + c.padC.length + k) ((c.ia ++ c.payload).drop k) := by
  have cipher : c.cipher h = crypt (h.keystream (c.key h)) 0 (c.plain ++ c.payload) := by
    unfold Client.cipher
    rw [rc4,if_pos rfl,crypt_append,Nat.zero_add]
  have front : (c.front h).length = c.off + 40 := front_length
  have data : (c.plain ++ c.payload).drop (16 + c.padC.length) = c.ia ++ c.payload := by
    unfold Client.plain
    simp only [← List.append_assoc]
    rw [List.append_assoc _ c.ia]
    apply List.drop_left'
    simp only [List.length_append,List.length_replicate,writeUint32_length,writeUint16_length]
    omega
  unfold Client.stream Client.opened
  rw [List.take_zero,List.nil_append,List.drop_zero,cipher,List.drop_append,front,List.drop_eq_nil_of_le (by unfold Client.iaStart; omega),
    List.nil_append,crypt_drop,Nat.zero_add,show c.iaStart + k - (c.off + 40) = 16 + c.padC.length + k by unfold Client.iaStart; omega,
    ← List.drop_drop,data]

theorem Reading.length (reading : Reading h c t k a) : a.reinserted.length + a.unread.length = t - (c.iaStart + k) := by
  have length := congrArg List.length reading.left
  have inside := reading.inside
  rw [List.length_append,List.length_drop,List.length_take,Nat.min_eq_left inside] at length
  exact length

theorem Reading.got (reading : Reading h c t k a) : a.handshake.length = k := by
  have upTo := reading.upTo
  have inside := reading.inside
  rw [iaStart_stream] at inside
  rw [reading.handshake,List.length_take,List.length_append]
  omega

theorem Reading.passed (rc4 : c.rc4 = true) (reading : Reading h c (c.stream h).length k a) : Passed h c a := by
  refine ⟨reading.sock,reading.state,reading.infoHash,by rw [reading.mode,rc4]; rfl,?_,?_⟩
  · unfold EncryptedServerAuthenticate.rest
    rw [reading.left,reading.enc,reading.handshake,List.take_length]
    show _ ++ crypt _ _ _ = _
    rw [stream_drop rc4,crypt_crypt,List.take_append_drop]
  · intro p low high
    rw [reading.decrypted,reading.enc,reading.next]
    have start : c.iaStart = c.off + 40 + (16 + c.padC.length) := by
      unfold Client.iaStart
      omega
    by_cases before : p < c.iaStart + k
    · rw [if_neg (by omega),List.count_eq_one_of_mem List.nodup_range' (List.mem_range'_1.mpr (by omega))]
    · rw [if_pos ⟨rfl,by omega⟩,List.count_eq_zero.mpr fun mem => by have := List.mem_range'_1.mp mem; omega]

theorem Reading.arrived (reading : Reading h c t k a) (brings : Brings h c t (arrival :: arrivals)) :
    Reading h c (t + arrival.bytes.length) k (a.arrived arrival.bytes) := by
  obtain ⟨bytes,_,inside⟩ := brings.first
  have upTo := reading.upTo
  refine ⟨reading.sock,reading.state,reading.infoHash,reading.mode,reading.enc,reading.handshake,?_,reading.next,reading.decrypted,by omega,inside⟩
  show a.reinserted ++ (a.unread ++ arrival.bytes) = _
  rw [← List.append_assoc,reading.left,List.take_add,← bytes,List.drop_append_of_le_length (by rw [List.length_take]; omega)]

-- Bytes are read that were put back, or all of those have been read.
theorem Reading.read (rc4 : c.rc4 = true) (reading : Reading h c t k a) (len : Nat) (room : c.iaStart + k + len ≤ t)
    (from_ : len ≤ a.reinserted.length ∨ a.reinserted = []) : Reading h c t (k + len) (a.readHandshake h len) := by
  have inside := reading.inside
  have all := reading.length
  have slice : ((a.reinserted ++ a.unread).take len) = crypt (h.keystream (c.key h)) (16 + c.padC.length + k) (((c.ia ++ c.payload).drop k).take len) := by
    rw [reading.left,List.drop_take,stream_drop rc4,List.take_take,Nat.min_eq_left (by omega),crypt_take]
  have rest : (a.reinserted ++ a.unread).drop len = ((c.stream h).take t).drop (c.iaStart + (k + len)) := by
    rw [reading.left,List.drop_drop,Nat.add_assoc]
  have got : (c.ia ++ c.payload).take k ++ ((c.ia ++ c.payload).drop k).take len = (c.ia ++ c.payload).take (k + len) := List.take_add.symm
  have places : List.range' (c.off + 40) (16 + c.padC.length + k) ++ List.range' (c.iaStart + k) len =
      List.range' (c.off + 40) (16 + c.padC.length + (k + len)) := by
    rw [show c.iaStart + k = c.off + 40 + (16 + c.padC.length + k) by unfold Client.iaStart; omega,List.range'_append_1,← Nat.add_assoc]
  unfold readHandshake readData
  dsimp only
  by_cases back : len ≤ a.reinserted.length
  · rw [if_pos back]
    have part : a.reinserted.take len = (a.reinserted ++ a.unread).take len := (List.take_append_of_le_length back).symm
    refine ⟨reading.sock,reading.state,reading.infoHash,reading.mode,?_,?_,?_,?_,?_,by omega,inside⟩
    · simp only [reading.enc,usedBy,Option.map_some,Nat.add_assoc]
    · simp only [reading.enc,reading.handshake,part,slice,decryptWith,crypt_crypt]
      exact got
    · simp only [← rest,List.drop_append_of_le_length back]
    · simp only [reading.next,Nat.add_assoc]
    · simp only [reading.decrypted,reading.enc,reading.next,placesOf,Option.isSome_some,if_true]
      exact places
  · have none_ : a.reinserted = [] := from_.resolve_left back
    rw [if_neg back]
    rw [none_,List.nil_append] at slice rest
    rw [none_,List.length_nil,Nat.zero_add] at all
    have count : (a.unread.take (len - 0)).length = len := by
      rw [List.length_take]
      omega
    have none₀ : decryptWith h a.enc [] = [] := by rw [reading.enc]; rfl
    refine ⟨reading.sock,reading.state,reading.infoHash,reading.mode,?_,?_,?_,?_,?_,by omega,inside⟩
    · simp only [none_,List.length_nil,count,reading.enc,usedBy,Option.map_some,Nat.zero_add,Nat.add_assoc]
    · simp only [none_,none₀,List.length_nil,List.nil_append,reading.handshake,Nat.sub_zero,slice]
      rw [reading.enc]
      simp only [usedBy,Option.map_some,Nat.add_zero,decryptWith,crypt_crypt]
      exact got
    · simp only [none_,List.length_nil,List.nil_append,Nat.sub_zero,rest]
    · simp only [none_,List.length_nil,count,reading.next,Nat.zero_add,Nat.add_assoc]
    · simp only [none_,List.length_nil,count,reading.decrypted,reading.enc,reading.next,placesOf,Option.isSome_some,if_true,Nat.zero_add,
        List.range'_zero,List.append_nil]
      exact places

-- The handshake is there, or what is still to be read of it has to arrive.
structure Settled (k : Nat) (a : EncryptedServerAuthenticate) : Prop where
  least : 48 ≤ k
  most : k ≤ 68
  left : k = 68 ∨ a.reinserted = []

theorem Reading.settled_step (rc4 : c.rc4 = true) (reading : Reading h c t k a) (settled : Settled k a) (available : 0 < a.bytesAvailable) :
    ∃ k', Reading h c t k' (a.serverOnReadyRead h) ∧ Settled k' (a.serverOnReadyRead h) := by
  have got := reading.got
  have length := reading.length
  have least := settled.least
  unfold serverOnReadyRead
  rw [if_neg (by omega)]
  split
  · exact ⟨k,reading,settled⟩
  · rename_i going
    have short : k ≠ 68 := fun all => going (.inl (by omega))
    have none_ := settled.left.resolve_left short
    have enough : 48 ≤ a.bytesAvailable := by
      rw [not_or] at going
      omega
    have most := settled.most
    have room : c.iaStart + k + (68 - k) ≤ t := by
      unfold bytesAvailable at enough
      omega
    rw [if_neg (fun empty => by rw [empty] at got; simp at got; omega),got]
    have next := reading.read rc4 (68 - k) room (.inr none_)
    rw [show k + (68 - k) = 68 by omega] at next
    exact ⟨68,next,by decide,by decide,.inl rfl⟩

theorem Reading.settled_run (rc4 : c.rc4 = true) (reading : Reading h c t k a) (settled : Settled k a) (arrivals : List Arrival)
    (brings : Brings h c t arrivals) : Passed h c (a.run h arrivals) := by
  induction arrivals generalizing a t k with
  | nil =>
    have all := brings.last
    subst all
    exact reading.passed rc4
  | cons arrival arrivals more =>
    show Passed h c ((a.onReadyRead h arrival).run h arrivals)
    have some_ := brings.some_ arrival List.mem_cons_self
    have available : 0 < (a.arrived arrival.bytes).bytesAvailable := by
      have := List.length_pos_iff.mpr some_
      show 0 < (a.unread ++ arrival.bytes).length + a.reinserted.length
      rw [List.length_append]
      omega
    rw [onReadyRead_server reading.sock reading.state some_]
    obtain ⟨k',reading',settled'⟩ := (reading.arrived brings).settled_step rc4 ⟨settled.least,settled.most,settled.left⟩ available
    exact more reading' settled' brings.next

-- A read that takes in bytes behind those that were put back decrypts these twice.
theorem Reading.crossed (reading : Reading h c t 0 a) (some_ : a.reinserted ≠ []) (len : Nat) (more : a.reinserted.length < len) :
    2 ≤ (a.readHandshake h len).decrypted.count c.iaStart := by
  have positive := List.length_pos_iff.mpr some_
  unfold readHandshake readData
  dsimp only
  rw [if_neg (by omega)]
  simp only [reading.enc,reading.next,placesOf,Option.isSome_some,if_true,List.count_append,Nat.add_zero]
  have one : 0 < (List.range' c.iaStart a.reinserted.length).count c.iaStart :=
    List.count_pos_iff.mpr (List.mem_range'_1.mpr (by omega))
  have two : 0 < (List.range' c.iaStart (a.reinserted.length + (a.unread.take (len - a.reinserted.length)).length)).count c.iaStart :=
    List.count_pos_iff.mpr (List.mem_range'_1.mpr (by omega))
  omega

theorem Reading.waiting_run (rc4 : c.rc4 = true) (some_ : 0 < c.ia.length) (reading : Reading h c t 0 a) (back : a.reinserted ≠ [])
    (few : t < c.iaStart + 48) (arrivals : List Arrival) (brings : Brings h c t arrivals) :
    Passed h c (a.run h arrivals) ↔ (c.stream h).length < c.iaStart + 48 := by
  induction arrivals generalizing a t with
  | nil =>
    have all := brings.last
    subst all
    exact iff_of_true (reading.passed rc4) few
  | cons arrival arrivals more =>
    show Passed h c ((a.onReadyRead h arrival).run h arrivals) ↔ _
    have next := reading.arrived brings
    have got := next.got
    have length := next.length
    have before := reading.length
    have inside := next.inside
    have bytes := brings.some_ arrival List.mem_cons_self
    have positive := List.length_pos_iff.mpr bytes
    have count : (a.arrived arrival.bytes).bytesAvailable = t + arrival.bytes.length - c.iaStart := by
      unfold bytesAvailable
      omega
    have upTo := reading.upTo
    rw [onReadyRead_server reading.sock reading.state bytes]
    unfold serverOnReadyRead
    rw [if_neg (by omega)]
    by_cases less : (a.arrived arrival.bytes).bytesAvailable < 48
    · rw [if_pos (.inr less)]
      exact more next back (by omega) brings.next
    · rw [if_neg (by omega),if_pos (List.length_eq_zero_iff.mp got)]
      have same : (a.arrived arrival.bytes).reinserted = a.reinserted := rfl
      refine iff_of_false ?_ (by omega)
      have high := @iaStart_encrypted h c some_
      have low : c.off + 40 ≤ c.iaStart := by
        unfold Client.iaStart
        omega
      split
      · exact not_passed_of_twice low high (next.crossed back _ (by rw [same]; omega)) arrivals
      · exact not_passed_of_twice low high (next.crossed back _ (by rw [same]; omega)) arrivals

end Modes

end KtorrentStream.Mse
