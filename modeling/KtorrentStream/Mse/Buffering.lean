import KtorrentStream.Mse.Handover
set_option autoImplicit true

namespace KtorrentStream.Mse
open Util Lib EncryptedServerAuthenticate

-- Before the handover: t bytes of the stream have arrived, buf has those it has room
-- for, and d of them are decrypted.
structure Buffered (h : Host) (c : Client) (t d : Nat) (a : EncryptedServerAuthenticate) : Prop where
  sock : a.sock = true
  buf : a.buf = (c.opened h d).take (min t 1244)
  s : a.s = c.secret h
  unread : a.unread = ((c.stream h).take t).drop 1244
  reinserted : a.reinserted = []
  enc : a.enc = none
  handshake : a.handshake = []
  decrypted : a.decrypted = List.range' (c.off + 40) d
  inside : t ≤ (c.stream h).length
  upTo : d ≤ c.plain.length
  ahead : d = 0 ∨ c.off + 40 + d ≤ min t 1244

-- The client is known, and the mode it gets is selected.
structure Selected (h : Host) (c : Client) (d : Nat) (a : EncryptedServerAuthenticate) : Prop where
  req1Off : a.req1Off = c.off
  infoHash : a.infoHash = c.infoHash
  padCLen : a.padCLen = c.padC.length
  cryptoSelect : a.cryptoSelect = if c.rc4 then 2 else 1
  ourRc4 : a.ourRc4 = some ⟨c.key h,d⟩

section Handover
variable {h : Host} {c : Client} {a : EncryptedServerAuthenticate} {t d : Nat}

theorem Buffered.length (buffered : Buffered h c t d a) : a.buf.length = min t 1244 := by
  have inside := buffered.inside
  rw [stream_length] at inside
  rw [buffered.buf,List.length_take,opened_length buffered.upTo]
  omega

theorem Buffered.unread_length (buffered : Buffered h c t d a) : a.unread.length = t - 1244 := by
  have inside := buffered.inside
  rw [buffered.unread,List.length_drop,List.length_take]
  omega

theorem iaStart_small (c : Client) : c.iaStart + c.ia.length ≤ 1244 := by
  have one := c.padA_length
  have two := c.padC_length
  have three := c.ia_length
  unfold Client.iaStart Client.off
  omega

theorem iaOff_eq (selected : Selected h c d a) : a.iaOff = c.iaStart := by
  unfold iaOff Client.iaStart
  rw [selected.req1Off,selected.padCLen]
  omega

-- The state in which ServerAuthenticate takes over.
def taken (a : EncryptedServerAuthenticate) (enc : Option Decryptor) : EncryptedServerAuthenticate :=
  {a with
    enc := enc
    ourRc4 := none
    state := .nonEncryptedHandshake
    next := a.buf.length - a.reinserted.length}

theorem setMode_eq (allowed : h.unencryptedConnectionsAllowed = true) (selected : Selected h c d a) (none_ : a.enc = none) :
    a.setMode h = (taken a (if c.rc4 then some ⟨c.key h,d⟩ else none)).serverOnReadyRead h := by
  unfold setMode handOver taken
  rw [selected.cryptoSelect,allowed]
  cases c.rc4 with
  | true =>
    have bit : Nat.testBit (if true = true then 2 else 1) 1 = true := by decide
    rw [if_pos bit,selected.ourRc4]
    rfl
  | false =>
    have bit : ¬ Nat.testBit (if false = true then 2 else 1) 1 = true := by decide
    rw [if_neg bit,if_neg (by decide),none_]
    rfl

theorem handover_without_ia (buffered : Buffered h c t (16 + c.padC.length) a) (none_ : c.ia.length = 0)
    (enc : Option Decryptor) (arrivals : List Arrival) (brings : Brings h c t arrivals) :
    ¬ Passed h c (((taken a enc).serverOnReadyRead h).run h arrivals) := by
  have unread := buffered.unread_length
  have small := iaStart_small c
  have padA := c.padA_length
  have padC := c.padC_length
  have start : c.iaStart ≤ 1176 := by
    unfold Client.iaStart Client.off
    omega
  have all := @iaStart_stream h c
  have given : (taken a enc).given = t - 1244 := by
    show a.handshake.length + (a.unread.length + a.reinserted.length) = _
    rw [buffered.handshake,buffered.reinserted,unread]
    simp
  by_cases more : 1244 < t
  · rcases @serverOnReadyRead_cases h (taken a enc) with closed | same | ⟨len,read⟩
    · rw [closed]
      exact not_passed_of_closed rfl arrivals
    · rw [same]
      exact not_passed_of_given rfl arrivals brings (by omega)
    · rw [read]
      refine not_passed_of_given ?_ arrivals brings ?_
      · rw [(readHandshake_state len).1]
        rfl
      · rw [readHandshake_given]
        omega
  · have nothing : (taken a enc).bytesAvailable = 0 := by
      show a.unread.length + a.reinserted.length = 0
      rw [unread,buffered.reinserted,List.length_nil]
      omega
    unfold serverOnReadyRead
    rw [if_pos nothing]
    exact not_passed_of_closed rfl arrivals

theorem handover_plain (some_ : 0 < c.ia.length) (decrypted : a.decrypted = List.range' (c.off + 40) (16 + c.padC.length))
    (arrivals : List Arrival) (brings : Brings h c t arrivals) : ¬ Passed h c (((taken a none).serverOnReadyRead h).run h arrivals) := by
  have high := @iaStart_encrypted h c some_
  have low : c.off + 40 ≤ c.iaStart := by
    unfold Client.iaStart
    omega
  have fresh : c.iaStart ∉ a.decrypted := by
    rw [decrypted]
    intro mem
    have := List.mem_range'_1.mp mem
    unfold Client.iaStart at this
    omega
  rcases @serverOnReadyRead_cases h (taken a none) with closed | same | ⟨len,read⟩
  · rw [closed]
    exact not_passed_of_closed rfl arrivals
  · rw [same]
    exact not_passed_of_plain (a := taken a none) rfl rfl low high fresh arrivals brings
  · obtain ⟨enc,places⟩ := @readHandshake_plain h (taken a none) len rfl
    rw [read]
    refine not_passed_of_plain ?_ enc low high ?_ arrivals brings
    · rw [(readHandshake_state len).1]
      rfl
    · rw [places]
      exact fresh

-- What is put back and what was not read follow each other in the stream.
theorem Buffered.left (buffered : Buffered h c t (16 + c.padC.length) a) (upTo : c.iaStart ≤ min t 1244) :
    a.buf.drop c.iaStart ++ a.unread = ((c.stream h).take t).drop c.iaStart := by
  have start : c.off + 40 + (16 + c.padC.length) ≤ c.iaStart := by
    unfold Client.iaStart
    omega
  rw [buffered.buf,buffered.unread,List.drop_take,opened_drop start buffered.upTo,← List.drop_take]
  have parts : ((c.stream h).take t).take 1244 ++ ((c.stream h).take t).drop 1244 = (c.stream h).take t := List.take_append_drop _ _
  rw [List.take_take,Nat.min_comm] at parts
  conv_rhs => rw [← parts]
  have inside := buffered.inside
  rw [List.drop_append_of_le_length (by rw [List.length_take]; omega)]

theorem handover_rc4 (rc4 : c.rc4 = true) (some_ : 0 < c.ia.length) (buffered : Buffered h c t (16 + c.padC.length) a)
    (infoHash : a.infoHash = c.infoHash) (select : a.cryptoSelect = 2) (enough : c.iaStart + c.ia.length ≤ min t 1244)
    (arrivals : List Arrival) (brings : Brings h c t arrivals) :
    Passed h c (((taken {a with reinserted := a.buf.drop c.iaStart} (some ⟨c.key h,16 + c.padC.length⟩)).serverOnReadyRead h).run h arrivals) ↔
      c.iaStart + 48 ≤ min t 1244 ∨ (c.stream h).length < c.iaStart + 48 := by
  have size := buffered.length
  have back : (a.buf.drop c.iaStart).length = min t 1244 - c.iaStart := by rw [List.length_drop,size]
  have inside := buffered.inside
  have small := iaStart_small c
  have padC := c.padC_length
  have padA := c.padA_length
  have start : c.iaStart ≤ 1176 := by
    unfold Client.iaStart Client.off
    omega
  have reading : Reading h c t 0 (taken {a with reinserted := a.buf.drop c.iaStart} (some ⟨c.key h,16 + c.padC.length⟩)) := by
    refine ⟨buffered.sock,rfl,infoHash,select,rfl,buffered.handshake,buffered.left (by omega),?_,buffered.decrypted,by omega,inside⟩
    show a.buf.length - (a.buf.drop c.iaStart).length = c.iaStart + 0
    rw [back,size]
    omega
  have count : (taken {a with reinserted := a.buf.drop c.iaStart} (some ⟨c.key h,16 + c.padC.length⟩)).bytesAvailable = t - c.iaStart := by
    have length := reading.length
    unfold bytesAvailable
    omega
  have none_ : (taken {a with reinserted := a.buf.drop c.iaStart} (some ⟨c.key h,16 + c.padC.length⟩)).handshake = [] := buffered.handshake
  have there : (taken {a with reinserted := a.buf.drop c.iaStart} (some ⟨c.key h,16 + c.padC.length⟩)).reinserted = a.buf.drop c.iaStart := rfl
  generalize taken {a with reinserted := a.buf.drop c.iaStart} (some ⟨c.key h,16 + c.padC.length⟩) = x at *
  unfold serverOnReadyRead
  rw [if_neg (by omega),none_]
  by_cases few : t < c.iaStart + 48
  · rw [if_pos (.inr (by omega))]
    have nonempty : x.reinserted ≠ [] := by
      rw [there]
      exact List.ne_nil_of_length_pos (by omega)
    rw [reading.waiting_run rc4 some_ nonempty few arrivals brings]
    omega
  · rw [if_neg (by simp; omega),if_pos rfl]
    refine iff_of_true ?_ (.inl (by omega))
    split
    · have next := reading.read rc4 x.bytesAvailable (by omega) (.inl (by rw [there]; omega))
      refine next.settled_run rc4 ⟨by omega,by omega,.inr ?_⟩ arrivals brings
      have used := next.length
      unfold readHandshake readData
      dsimp only
      rw [if_pos (by rw [there]; omega)]
      exact List.drop_eq_nil_of_le (by rw [there]; omega)
    · have next := reading.read rc4 68 (by omega) (.inl (by rw [there]; omega))
      exact next.settled_run rc4 ⟨by omega,by omega,.inl (by omega)⟩ arrivals brings

theorem handleIA_run (allowed : h.unencryptedConnectionsAllowed = true) (buffered : Buffered h c t (16 + c.padC.length) a)
    (selected : Selected h c (16 + c.padC.length) a) (length : a.iaLen = c.ia.length) (enough : c.iaStart + c.ia.length ≤ min t 1244)
    (arrivals : List Arrival) (brings : Brings h c t arrivals) :
    Passed h c ((a.handleIA h).run h arrivals) ↔
      0 < c.ia.length ∧ c.rc4 = true ∧ (c.iaStart + 48 ≤ min t 1244 ∨ (c.stream h).length < c.iaStart + 48) := by
  unfold handleIA
  rw [iaOff_eq selected,length,buffered.length,if_neg (by omega)]
  by_cases some_ : 0 < c.ia.length
  · have back : a.reinsert = {a with reinserted := a.buf.drop c.iaStart} := by
      unfold reinsert
      rw [if_pos (by rw [length]; exact some_),iaOff_eq selected,buffered.reinserted]
      rfl
    have same : Selected h c (16 + c.padC.length) {a with reinserted := a.buf.drop c.iaStart} :=
      ⟨selected.req1Off,selected.infoHash,selected.padCLen,selected.cryptoSelect,selected.ourRc4⟩
    rw [back,setMode_eq allowed same buffered.enc]
    cases rc4 : c.rc4 with
    | true =>
      have select : a.cryptoSelect = 2 := by
        rw [selected.cryptoSelect,rc4]
        rfl
      rw [if_pos rfl,handover_rc4 rc4 some_ buffered selected.infoHash select enough arrivals brings]
      simp [some_]
    | false =>
      refine iff_of_false ?_ (fun all => nomatch all.2.1)
      exact handover_plain (a := {a with reinserted := a.buf.drop c.iaStart}) some_ buffered.decrypted arrivals brings
  · have back : a.reinsert = a := by
      unfold reinsert
      rw [if_neg (by rw [length]; exact some_)]
    rw [back,setMode_eq allowed selected buffered.enc]
    exact iff_of_false (handover_without_ia buffered (by omega) _ arrivals brings) fun all => some_ all.1

end Handover

-- The bytes of an arrival that there is room for go to buf.
structure Filled (h : Host) (c : Client) (t d : Nat) (a x : EncryptedServerAuthenticate) : Prop where
  buffered : Buffered h c t d x
  same : ∃ unread buf next, x = {a with unread,buf,next}

section Filling
variable {h : Host} {c : Client} {a x : EncryptedServerAuthenticate} {t d : Nat} {arrival : Arrival} {arrivals : List Arrival}

theorem Buffered.filled (buffered : Buffered h c t d a) (room : t < 1244) (brings : Brings h c t (arrival :: arrivals)) :
    Filled h c (t + arrival.bytes.length) d a ((a.arrived arrival.bytes).fillBuf h (a.arrived arrival.bytes).roomFor) := by
  obtain ⟨bytes,positive,inside⟩ := brings.first
  have length := buffered.length
  have none_ : a.unread = [] := by
    rw [buffered.unread]
    exact List.drop_eq_nil_of_le (by rw [List.length_take]; omega)
  have available : (a.arrived arrival.bytes).bytesAvailable = arrival.bytes.length := by
    show (a.unread ++ arrival.bytes).length + a.reinserted.length = _
    rw [none_,buffered.reinserted]
    rfl
  have size : (a.arrived arrival.bytes).roomFor = min arrival.bytes.length (1244 - t) := by
    unfold roomFor
    rw [available,show (a.arrived arrival.bytes).buf = a.buf from rfl,length,show maxSeaBufSize = 1244 from rfl]
    split <;> omega
  have read : (a.arrived arrival.bytes).readData h (a.arrived arrival.bytes).roomFor =
      (arrival.bytes.take (min arrival.bytes.length (1244 - t)),
        {a with
          unread := arrival.bytes.drop (min arrival.bytes.length (1244 - t))
          next := a.next + (arrival.bytes.take (min arrival.bytes.length (1244 - t))).length}) := by
    have some_ : ¬ min arrival.bytes.length (1244 - t) ≤ 0 := by omega
    rw [size]
    unfold readData arrived
    simp only [buffered.reinserted,buffered.enc,none_,List.length_nil,List.nil_append,Nat.sub_zero,Nat.zero_add,usedBy,placesOf,decryptWith,
      Option.map_none,Option.isSome_none,if_false,List.append_nil,Bool.false_eq_true]
    rw [if_neg some_]
  have buf : a.buf ++ arrival.bytes.take (min arrival.bytes.length (1244 - t)) = (c.opened h d).take (min (t + arrival.bytes.length) 1244) := by
    rw [buffered.buf,Nat.min_eq_left (by omega),bytes,List.length_take,List.length_drop,List.take_take]
    have ahead := buffered.ahead
    rw [Nat.min_eq_left (show t ≤ 1244 by omega)] at ahead
    rw [opened_more ahead buffered.upTo]
    congr 1
    omega
  have unread : arrival.bytes.drop (min arrival.bytes.length (1244 - t)) = ((c.stream h).take (t + arrival.bytes.length)).drop 1244 := by
    have before : ((c.stream h).take t).drop 1244 = [] := List.drop_eq_nil_of_le (by rw [List.length_take]; omega)
    rw [List.take_add,← bytes,List.drop_append,before,List.nil_append,List.length_take,Nat.min_eq_left (show t ≤ (c.stream h).length by omega)]
    by_cases all : arrival.bytes.length ≤ 1244 - t
    · rw [List.drop_eq_nil_of_le (by omega),List.drop_eq_nil_of_le (by omega)]
    · rw [Nat.min_eq_right (by omega)]
  have ahead : d = 0 ∨ c.off + 40 + d ≤ min (t + arrival.bytes.length) 1244 := by
    have := buffered.ahead
    omega
  unfold fillBuf
  rw [read]
  refine ⟨⟨buffered.sock,buf,buffered.s,unread,buffered.reinserted,buffered.enc,buffered.handshake,buffered.decrypted,inside,buffered.upTo,ahead⟩,?_⟩
  exact ⟨_,_,_,rfl⟩

theorem Filled.selected (filled : Filled h c t d a x) (selected : Selected h c d a) : Selected h c d x := by
  obtain ⟨unread,buf,next,rfl⟩ := filled.same
  exact ⟨selected.req1Off,selected.infoHash,selected.padCLen,selected.cryptoSelect,selected.ourRc4⟩

theorem Buffered.onReadyRead (buffered : Buffered h c t d a) (brings : Brings h c t (arrival :: arrivals)) :
    a.onReadyRead h arrival = (a.arrived arrival.bytes).dispatch h arrival.memory (a.arrived arrival.bytes).roomFor := by
  obtain ⟨_,positive,_⟩ := brings.first
  have available : (a.arrived arrival.bytes).bytesAvailable ≠ 0 := by
    show (a.unread ++ arrival.bytes).length + a.reinserted.length ≠ 0
    rw [List.length_append]
    omega
  unfold EncryptedServerAuthenticate.onReadyRead readyRead
  rw [buffered.sock,if_neg (by decide),if_neg available]

end Filling

-- The sizes of the buffer behind each arrival.
def sizesFrom (t : Nat) : List Arrival → List Nat
  | [] => []
  | arrival :: arrivals => min (t + arrival.bytes.length) 1244 :: sizesFrom (t + arrival.bytes.length) arrivals

def firstFrom (n : Nat) (sizes : List Nat) : Option Nat := sizes.find? (n ≤ ·)

-- ServerAuthenticate gets enough bytes at once, or there never are so many.
structure Late (h : Host) (c : Client) (sizes : List Nat) : Prop where
  ia : 0 < c.ia.length
  rc4 : c.rc4 = true
  handshake : ∀ b, firstFrom (c.iaStart + c.ia.length) sizes = some b → c.iaStart + 48 ≤ b ∨ (c.stream h).length < c.iaStart + 48

-- The length of IA is not read while IA, but not the padding before it, would fit.
structure Middle (h : Host) (c : Client) (sizes : List Nat) : Prop where
  iaLen : ∀ b, firstFrom c.iaStart sizes = some b → b < c.off + 54 + c.ia.length ∨ c.iaStart + c.ia.length ≤ b
  late : Late h c sizes

-- The same for the padding and the fields before it.
structure Early (h : Host) (c : Client) (sizes : List Nat) : Prop where
  padC : ∀ b, firstFrom (c.off + 54) sizes = some b → b < c.off + 14 + c.padC.length ∨ c.iaStart ≤ b
  middle : Middle h c sizes

-- And the search for the hash is not given up before it is there with a byte behind it.
structure Unbroken (h : Host) (c : Client) (sizes : List Nat) : Prop where
  search : ∀ b ∈ sizes, b ≤ 608 ∨ c.off + 21 ≤ b
  early : Early h c sizes

end KtorrentStream.Mse
