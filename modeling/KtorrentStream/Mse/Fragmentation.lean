import Mathlib.Data.List.OfFn
import KtorrentStream.Mse.Buffering
set_option autoImplicit true

namespace KtorrentStream.Mse
open Util Lib EncryptedServerAuthenticate

theorem firstFrom_skip (less : b < n) (sizes : List Nat) : firstFrom n (b :: sizes) = firstFrom n sizes := by
  unfold firstFrom
  rw [List.find?_cons_of_neg (by simpa using less)]

theorem firstFrom_hit (upTo : n ≤ b) (sizes : List Nat) : firstFrom n (b :: sizes) = some b := by
  unfold firstFrom
  rw [List.find?_cons_of_pos (by simpa using upTo)]

theorem sizesFrom_ge (arrivals : List Arrival) (mem : b ∈ sizesFrom t arrivals) : min t 1244 ≤ b := by
  induction arrivals generalizing t with
  | nil => cases mem
  | cons arrival arrivals more =>
    rcases List.mem_cons.mp mem with rfl | later
    · omega
    · have := more later
      omega

section Conditions
variable {h : Host} {c : Client} {b : Nat} {sizes : List Nat}

theorem late_skip (less : b < c.iaStart + c.ia.length) : Late h c (b :: sizes) ↔ Late h c sizes := by
  constructor
  · rintro ⟨ia,rc4,handshake⟩
    rw [firstFrom_skip less] at handshake
    exact ⟨ia,rc4,handshake⟩
  · rintro ⟨ia,rc4,handshake⟩
    rw [← firstFrom_skip less] at handshake
    exact ⟨ia,rc4,handshake⟩

theorem late_hit (upTo : c.iaStart + c.ia.length ≤ b) : Late h c (b :: sizes) ↔
    0 < c.ia.length ∧ c.rc4 = true ∧ (c.iaStart + 48 ≤ b ∨ (c.stream h).length < c.iaStart + 48) := by
  constructor
  · rintro ⟨ia,rc4,handshake⟩
    exact ⟨ia,rc4,handshake b (firstFrom_hit upTo sizes)⟩
  · rintro ⟨ia,rc4,handshake⟩
    refine ⟨ia,rc4,fun b' first => ?_⟩
    rw [firstFrom_hit upTo,Option.some.injEq] at first
    exact first ▸ handshake

theorem middle_skip (less : b < c.iaStart) : Middle h c (b :: sizes) ↔ Middle h c sizes := by
  constructor
  · rintro ⟨iaLen,late⟩
    rw [firstFrom_skip less] at iaLen
    exact ⟨iaLen,(late_skip (by omega)).mp late⟩
  · rintro ⟨iaLen,late⟩
    rw [← firstFrom_skip less] at iaLen
    exact ⟨iaLen,(late_skip (by omega)).mpr late⟩

theorem middle_hit (upTo : c.iaStart ≤ b) : Middle h c (b :: sizes) ↔
    (b < c.off + 54 + c.ia.length ∨ c.iaStart + c.ia.length ≤ b) ∧ Late h c (b :: sizes) := by
  constructor
  · rintro ⟨iaLen,late⟩
    exact ⟨iaLen b (firstFrom_hit upTo sizes),late⟩
  · rintro ⟨iaLen,late⟩
    refine ⟨fun b' first => ?_,late⟩
    rw [firstFrom_hit upTo,Option.some.injEq] at first
    exact first ▸ iaLen

theorem early_skip (less : b < c.off + 54) : Early h c (b :: sizes) ↔ Early h c sizes := by
  have start : b < c.iaStart := by
    unfold Client.iaStart
    omega
  constructor
  · rintro ⟨padC,middle⟩
    rw [firstFrom_skip less] at padC
    exact ⟨padC,(middle_skip start).mp middle⟩
  · rintro ⟨padC,middle⟩
    rw [← firstFrom_skip less] at padC
    exact ⟨padC,(middle_skip start).mpr middle⟩

theorem early_hit (upTo : c.off + 54 ≤ b) : Early h c (b :: sizes) ↔
    (b < c.off + 14 + c.padC.length ∨ c.iaStart ≤ b) ∧ Middle h c (b :: sizes) := by
  constructor
  · rintro ⟨padC,middle⟩
    exact ⟨padC b (firstFrom_hit upTo sizes),middle⟩
  · rintro ⟨padC,middle⟩
    refine ⟨fun b' first => ?_,middle⟩
    rw [firstFrom_hit upTo,Option.some.injEq] at first
    exact first ▸ padC

end Conditions

section Phases
variable {h : Host} {c : Client} {a : EncryptedServerAuthenticate} {t d : Nat} {arrivals : List Arrival}

theorem Brings.more (brings : Brings h c t arrivals) (short : t < c.iaStart + c.ia.length) :
    ∃ arrival rest, arrivals = arrival :: rest := by
  cases arrivals with
  | nil =>
    have all := brings.last
    rw [iaStart_stream] at all
    omega
  | cons arrival rest => exact ⟨arrival,rest,rfl⟩

theorem waitForIA_run (allowed : h.unencryptedConnectionsAllowed = true) (buffered : Buffered h c t (16 + c.padC.length) a)
    (selected : Selected h c (16 + c.padC.length) a) (length : a.iaLen = c.ia.length) (state : a.state = .waitForIA)
    (short : t < c.iaStart + c.ia.length) (arrivals : List Arrival) (brings : Brings h c t arrivals) :
    Passed h c (a.run h arrivals) ↔ Late h c (sizesFrom t arrivals) := by
  induction arrivals generalizing a t with
  | nil =>
    obtain ⟨_,_,none_⟩ := brings.more short
    cases none_
  | cons arrival arrivals more =>
    have small := iaStart_small c
    have filled := buffered.filled (by omega) brings
    have step : a.onReadyRead h arrival = ((a.arrived arrival.bytes).fillBuf h (a.arrived arrival.bytes).roomFor).handleIA h := by
      rw [buffered.onReadyRead brings]
      unfold dispatch
      rw [show (a.arrived arrival.bytes).state = .waitForIA from state]
    show Passed h c ((a.onReadyRead h arrival).run h arrivals) ↔ Late h c (min (t + arrival.bytes.length) 1244 :: _)
    rw [step]
    have same := filled.selected selected
    have next : ((a.arrived arrival.bytes).fillBuf h (a.arrived arrival.bytes).roomFor).iaLen = c.ia.length ∧
        ((a.arrived arrival.bytes).fillBuf h (a.arrived arrival.bytes).roomFor).state = .waitForIA := by
      obtain ⟨unread,buf,next,eq⟩ := filled.same
      rw [eq]
      exact ⟨length,state⟩
    have inBuf := filled.buffered
    generalize (a.arrived arrival.bytes).fillBuf h (a.arrived arrival.bytes).roomFor = x at *
    by_cases less : min (t + arrival.bytes.length) 1244 < c.iaStart + c.ia.length
    · have waits : x.handleIA h = x := by
        unfold handleIA
        rw [iaOff_eq same,next.1,inBuf.length,if_pos less]
      rw [waits,late_skip less]
      exact more inBuf same next.1 next.2 (by omega) brings.next
    · rw [handleIA_run allowed inBuf same next.1 (by omega) arrivals brings.next,late_hit (by omega)]

theorem decryptBuf_twice (places : a.decrypted = List.range' (c.off + 40) d) (on : a.ourRc4 = some e) (low : c.off + 40 ≤ off)
    (inside : off < c.off + 40 + d) (some_ : 0 < n) : 2 ≤ (a.decryptBuf h off n).decrypted.count off := by
  show 2 ≤ (a.decrypted ++ placesOf a.ourRc4 off n).count off
  rw [places,on,placesOf,Option.isSome_some,if_pos rfl,List.count_append]
  have one : 0 < (List.range' (c.off + 40) d).count off := List.count_pos_iff.mpr (List.mem_range'_1.mpr ⟨low,inside⟩)
  have two : 0 < (List.range' off n).count off := List.count_pos_iff.mpr (List.mem_range'_1.mpr (by omega))
  omega

theorem count_grows {l m : List Nat} (grows : l <+: m) (twice : 2 ≤ l.count p) : 2 ≤ m.count p := Nat.le_trans twice (grows.sublist.count_le p)

theorem plain_encrypted (inside : d < c.plain.length) : c.off + 40 + d < c.encryptedEnd h := by
  unfold Client.encryptedEnd
  rw [stream_length]
  split <;> omega

theorem startRc4_on (on : a.ourRc4 = some e) (m : Memory) : a.startRc4 h m = a := by
  unfold startRc4
  rw [if_neg (by simp [on])]

theorem startRc4_off (full : BigEndian.size (c.secret h) = 96) (off : a.ourRc4 = none) (s : a.s = c.secret h) (infoHash : a.infoHash = c.infoHash)
    (m : Memory) : a.startRc4 h m = {a with ourRc4 := some ⟨c.key h,0⟩} := by
  unfold startRc4
  rw [if_pos (by simp [off]),encryptionKey_full (by rw [s]; exact full) m.serverKeyA.2,s,infoHash]
  rfl

theorem decryptVC_short (short : a.buf.length < a.req1Off + 54) : a.decryptVC h = a := by
  unfold decryptVC
  rw [if_pos (by omega)]

-- The state was not left although a part is decrypted: the next arrival decrypts it again.
theorem stuck_run (buffered : Buffered h c t d a) (off : a.req1Off = c.off) (on : a.ourRc4 = some e) (begun : 14 ≤ d)
    (state : a.state = .foundInfoHash ∨ a.state = .waitForPadC ∧ a.padCLen = c.padC.length ∧ d = 16 + c.padC.length)
    (short : t < c.iaStart + c.ia.length) (arrivals : List Arrival) (brings : Brings h c t arrivals) :
    ¬ Passed h c (a.run h arrivals) := by
  obtain ⟨arrival,rest,rfl⟩ := brings.more short
  have small := iaStart_small c
  have size := @plain_length c
  have upTo := buffered.upTo
  have ahead := buffered.ahead
  have filled := buffered.filled (by omega) brings
  have inBuf := filled.buffered
  have places := inBuf.decrypted
  have length := inBuf.length
  show ¬ Passed h c ((a.onReadyRead h arrival).run h rest)
  rcases state with found | ⟨wait,padCLen,all⟩
  · have step : a.onReadyRead h arrival = ((a.arrived arrival.bytes).fillBuf h (a.arrived arrival.bytes).roomFor).processVC h arrival.memory := by
      rw [buffered.onReadyRead brings]
      unfold dispatch
      rw [show (a.arrived arrival.bytes).state = .foundInfoHash from found]
    have same : ((a.arrived arrival.bytes).fillBuf h (a.arrived arrival.bytes).roomFor).ourRc4 = some e ∧
        ((a.arrived arrival.bytes).fillBuf h (a.arrived arrival.bytes).roomFor).req1Off = c.off := by
      obtain ⟨unread,buf,next,eq⟩ := filled.same
      rw [eq]
      exact ⟨on,off⟩
    rw [step]
    generalize (a.arrived arrival.bytes).fillBuf h (a.arrived arrival.bytes).roomFor = x at *
    unfold processVC
    rw [startRc4_on same.1]
    unfold decryptVC
    rw [length,same.2,if_neg (by omega)]
    have twice := decryptBuf_twice (h := h) (n := 14) places same.1 (Nat.le_refl _) (by omega) (by omega)
    exact not_passed_of_twice (Nat.le_refl _) (by have := @plain_encrypted h c 0 (by omega); omega) (count_grows (checkVC_grows List.prefix_rfl) twice) rest
  · have step : a.onReadyRead h arrival = ((a.arrived arrival.bytes).fillBuf h (a.arrived arrival.bytes).roomFor).handlePadC h := by
      rw [buffered.onReadyRead brings]
      unfold dispatch
      rw [show (a.arrived arrival.bytes).state = .waitForPadC from wait]
    have same : ((a.arrived arrival.bytes).fillBuf h (a.arrived arrival.bytes).roomFor).ourRc4 = some e ∧
        ((a.arrived arrival.bytes).fillBuf h (a.arrived arrival.bytes).roomFor).req1Off = c.off ∧
        ((a.arrived arrival.bytes).fillBuf h (a.arrived arrival.bytes).roomFor).padCLen = c.padC.length := by
      obtain ⟨unread,buf,next,eq⟩ := filled.same
      rw [eq]
      exact ⟨on,off,padCLen⟩
    rw [step]
    generalize (a.arrived arrival.bytes).fillBuf h (a.arrived arrival.bytes).roomFor = x at *
    unfold handlePadC iaOff
    rw [length,same.2.1,same.2.2,if_neg (by omega)]
    have twice := decryptBuf_twice (h := h) (n := c.padC.length + 2) places same.1 (show c.off + 40 ≤ c.off + 54 by omega) (by omega) (by omega)
    have grows : (x.decryptBuf h (c.off + 54) (c.padC.length + 2)).decrypted <+:
        ((x.decryptBuf h (c.off + 54) (c.padC.length + 2)).readIALen.awaitIA h).decrypted := awaitIA_grows List.prefix_rfl
    exact not_passed_of_twice (show c.off + 40 ≤ c.off + 54 by omega) (by have := @plain_encrypted h c 14 (by omega); omega) (count_grows grows twice) rest

theorem Buffered.decrypts (buffered : Buffered h c t d a) (on : a.ourRc4 = some ⟨c.key h,d⟩) (upTo : d + n ≤ c.plain.length)
    (inside : c.off + 40 + d + n ≤ min t 1244) :
    Buffered h c t (d + n) (a.decryptBuf h (c.off + 40 + d) n) ∧ (a.decryptBuf h (c.off + 40 + d) n).ourRc4 = some ⟨c.key h,d + n⟩ := by
  refine ⟨⟨buffered.sock,?_,buffered.s,buffered.unread,buffered.reinserted,buffered.enc,buffered.handshake,?_,buffered.inside,upTo,.inr (by omega)⟩,?_⟩
  · show a.buf.take _ ++ (decryptWith h a.ourRc4 _ ++ a.buf.drop _) = _
    rw [on,buffered.buf]
    exact opened_decrypted upTo inside
  · show a.decrypted ++ placesOf a.ourRc4 (c.off + 40 + d) n = _
    rw [on,buffered.decrypted]
    show List.range' (c.off + 40) d ++ List.range' (c.off + 40 + d) n = _
    rw [List.range'_append_1]
  · show usedBy n a.ourRc4 = _
    rw [on]
    rfl

theorem handlePadC_run (allowed : h.unencryptedConnectionsAllowed = true) (buffered : Buffered h c t 14 a) (selected : Selected h c 14 a)
    (state : a.state = .foundInfoHash ∨ a.state = .waitForPadC) (enough : c.iaStart ≤ min t 1244)
    (arrivals : List Arrival) (brings : Brings h c t arrivals) :
    Passed h c ((a.handlePadC h).run h arrivals) ↔ Middle h c (min t 1244 :: sizesFrom t arrivals) := by
  have size := @plain_length c
  have small := iaStart_small c
  have start : c.iaStart = c.off + 40 + 14 + (c.padC.length + 2) := by
    unfold Client.iaStart
    omega
  obtain ⟨opened,on⟩ := buffered.decrypts selected.ourRc4 (show 14 + (c.padC.length + 2) ≤ c.plain.length by omega) (by omega)
  rw [show 14 + (c.padC.length + 2) = 16 + c.padC.length by omega] at opened on
  have step : a.handlePadC h = (a.decryptBuf h (c.off + 40 + 14) (c.padC.length + 2)).readIALen.awaitIA h := by
    unfold handlePadC
    rw [iaOff_eq selected,buffered.length,if_neg (by omega),selected.req1Off,selected.padCLen]
  have selected' : Selected h c (16 + c.padC.length) (a.decryptBuf h (c.off + 40 + 14) (c.padC.length + 2)).readIALen :=
    ⟨selected.req1Off,selected.infoHash,selected.padCLen,selected.cryptoSelect,on⟩
  have state' : (a.decryptBuf h (c.off + 40 + 14) (c.padC.length + 2)).readIALen.state = a.state := rfl
  have length : (a.decryptBuf h (c.off + 40 + 14) (c.padC.length + 2)).readIALen.iaLen = c.ia.length := by
    show readUint16 (a.decryptBuf h (c.off + 40 + 14) (c.padC.length + 2)).buf (a.req1Off + 54 + a.padCLen) = _
    rw [opened.buf,selected.req1Off,selected.padCLen]
    exact iaLen_read (by omega)
  have inBuf : Buffered h c t (16 + c.padC.length) (a.decryptBuf h (c.off + 40 + 14) (c.padC.length + 2)).readIALen :=
    ⟨opened.sock,opened.buf,opened.s,opened.unread,opened.reinserted,opened.enc,opened.handshake,opened.decrypted,opened.inside,opened.upTo,
      opened.ahead⟩
  rw [step]
  generalize (a.decryptBuf h (c.off + 40 + 14) (c.padC.length + 2)).readIALen = x at *
  have limit : x.req1Off + 54 + x.iaLen = c.off + 54 + c.ia.length := by rw [selected'.req1Off,length]
  unfold awaitIA
  rw [limit,inBuf.length,middle_hit enough]
  by_cases waits : min t 1244 < c.off + 54 + c.ia.length
  · rw [if_pos waits,late_skip (by omega)]
    have next : Buffered h c t (16 + c.padC.length) {x with state := .waitForIA} :=
      ⟨inBuf.sock,inBuf.buf,inBuf.s,inBuf.unread,inBuf.reinserted,inBuf.enc,inBuf.handshake,inBuf.decrypted,inBuf.inside,inBuf.upTo,inBuf.ahead⟩
    have same : Selected h c (16 + c.padC.length) {x with state := .waitForIA} :=
      ⟨selected'.req1Off,selected'.infoHash,selected'.padCLen,selected'.cryptoSelect,selected'.ourRc4⟩
    rw [waitForIA_run allowed next same length rfl (by omega) arrivals brings]
    exact (and_iff_right (.inl waits)).symm
  · rw [if_neg waits]
    by_cases less : min t 1244 < c.iaStart + c.ia.length
    · have stays : x.handleIA h = x := by
        unfold handleIA
        rw [iaOff_eq selected',length,inBuf.length,if_pos less]
      rw [stays]
      refine iff_of_false (stuck_run inBuf selected'.req1Off selected'.ourRc4 (by omega) ?_ (by omega) arrivals brings) (by omega)
      rcases state with found | wait
      · exact .inl (state'.trans found)
      · exact .inr ⟨state'.trans wait,selected'.padCLen,rfl⟩
    · rw [handleIA_run allowed inBuf selected' length (by omega) arrivals brings,late_hit (by omega)]
      exact (and_iff_right (.inr (by omega))).symm

theorem waitForPadC_run (allowed : h.unencryptedConnectionsAllowed = true) (buffered : Buffered h c t 14 a) (selected : Selected h c 14 a)
    (state : a.state = .waitForPadC) (short : t < c.iaStart) (arrivals : List Arrival) (brings : Brings h c t arrivals) :
    Passed h c (a.run h arrivals) ↔ Middle h c (sizesFrom t arrivals) := by
  induction arrivals generalizing a t with
  | nil =>
    obtain ⟨_,_,none_⟩ := brings.more (by omega)
    cases none_
  | cons arrival arrivals more =>
    have small := iaStart_small c
    have filled := buffered.filled (by omega) brings
    have step : a.onReadyRead h arrival = ((a.arrived arrival.bytes).fillBuf h (a.arrived arrival.bytes).roomFor).handlePadC h := by
      rw [buffered.onReadyRead brings]
      unfold dispatch
      rw [show (a.arrived arrival.bytes).state = .waitForPadC from state]
    show Passed h c ((a.onReadyRead h arrival).run h arrivals) ↔ Middle h c (min (t + arrival.bytes.length) 1244 :: _)
    rw [step]
    have same := filled.selected selected
    have next : ((a.arrived arrival.bytes).fillBuf h (a.arrived arrival.bytes).roomFor).state = .waitForPadC := by
      obtain ⟨unread,buf,next,eq⟩ := filled.same
      rw [eq]
      exact state
    have inBuf := filled.buffered
    generalize (a.arrived arrival.bytes).fillBuf h (a.arrived arrival.bytes).roomFor = x at *
    by_cases less : min (t + arrival.bytes.length) 1244 < c.iaStart
    · have waits : x.handlePadC h = x := by
        unfold handlePadC
        rw [iaOff_eq same,inBuf.length,if_pos less]
      rw [waits,middle_skip less]
      exact more inBuf same next (by omega) brings.next
    · exact handlePadC_run allowed inBuf same (.inr next) (by omega) arrivals brings.next

-- What the server looks for and decrypts with is what the client sends and encrypts with.
structure Valid (h : Host) (c : Client) : Prop where
  known : c.infoHash ∈ h.infoHashes
  hashes : ∀ hash ∈ h.infoHashes, h.generate (req2Tag ++ hash.bytes) = c.req2 h → hash = c.infoHash
  first : ∀ i, 96 ≤ i → i < c.off → ((c.stream h).drop i).take 20 ≠ (c.req1 h).bytes

theorem processVC_run (allowed : h.unencryptedConnectionsAllowed = true) (full : BigEndian.size (c.secret h) = 96) (m : Memory)
    (buffered : Buffered h c t 0 a) (off : a.req1Off = c.off) (infoHash : a.infoHash = c.infoHash)
    (on : a.ourRc4 = none ∨ a.ourRc4 = some ⟨c.key h,0⟩) (state : a.state = .foundInfoHash) (enough : c.off + 54 ≤ min t 1244)
    (arrivals : List Arrival) (brings : Brings h c t arrivals) :
    Passed h c ((a.processVC h m).run h arrivals) ↔ Early h c (min t 1244 :: sizesFrom t arrivals) := by
  have size := @plain_length c
  have small := iaStart_small c
  have padC := c.padC_length
  have start : c.iaStart = c.off + 40 + 14 + (c.padC.length + 2) := by
    unfold Client.iaStart
    omega
  have started : Buffered h c t 0 (a.startRc4 h m) ∧ (a.startRc4 h m).ourRc4 = some ⟨c.key h,0⟩ ∧ (a.startRc4 h m).req1Off = c.off ∧
      (a.startRc4 h m).infoHash = c.infoHash ∧ (a.startRc4 h m).state = .foundInfoHash := by
    rcases on with none_ | some_
    · rw [startRc4_off full none_ buffered.s infoHash]
      exact ⟨⟨buffered.sock,buffered.buf,buffered.s,buffered.unread,buffered.reinserted,buffered.enc,buffered.handshake,buffered.decrypted,
        buffered.inside,buffered.upTo,buffered.ahead⟩,rfl,off,infoHash,state⟩
    · rw [startRc4_on some_]
      exact ⟨buffered,some_,off,infoHash,state⟩
  unfold processVC
  generalize a.startRc4 h m = x at *
  obtain ⟨inBuf,rc4,off',infoHash',state'⟩ := started
  obtain ⟨opened,used⟩ := inBuf.decrypts rc4 (show 0 + 14 ≤ c.plain.length by omega) (by omega)
  rw [Nat.zero_add,Nat.add_zero] at opened used
  have step : x.decryptVC h = (x.decryptBuf h (c.off + 40) 14).checkVC h := by
    unfold decryptVC
    rw [inBuf.length,off',if_neg (by omega)]
  obtain ⟨zero,provide,len⟩ := @head_read h c (min t 1244) (by omega)
  rw [← opened.buf] at zero provide len
  have vc : (x.decryptBuf h (c.off + 40) 14).checkVC h = (x.decryptBuf h (c.off + 40) 14).readHead.select.awaitPadC h := by
    have offset : (x.decryptBuf h (c.off + 40) 14).req1Off = c.off := off'
    have short : ¬ (x.decryptBuf h (c.off + 40) 14).readHead.padCLen > 512 := by
      show ¬ readUint16 (x.decryptBuf h (c.off + 40) 14).buf ((x.decryptBuf h (c.off + 40) 14).req1Off + 40 + 12) > 512
      rw [offset,len]
      omega
    unfold checkVC checkPadC
    rw [offset,zero,if_neg (by decide),if_neg short]
  have selected : Selected h c 14 (x.decryptBuf h (c.off + 40) 14).readHead.select := by
    have offset : (x.decryptBuf h (c.off + 40) 14).req1Off = c.off := off'
    refine ⟨offset,infoHash',?_,?_,used⟩
    · show readUint16 (x.decryptBuf h (c.off + 40) 14).buf ((x.decryptBuf h (c.off + 40) 14).req1Off + 40 + 12) = _
      rw [offset,len]
    · show (if (readUint32 (x.decryptBuf h (c.off + 40) 14).buf ((x.decryptBuf h (c.off + 40) 14).req1Off + 40 + 8)).testBit 1 then 2 else 1) = _
      rw [offset,provide]
      rfl
  have next : Buffered h c t 14 (x.decryptBuf h (c.off + 40) 14).readHead.select :=
    ⟨opened.sock,opened.buf,opened.s,opened.unread,opened.reinserted,opened.enc,opened.handshake,opened.decrypted,opened.inside,opened.upTo,
      opened.ahead⟩
  have state'' : (x.decryptBuf h (c.off + 40) 14).readHead.select.state = .foundInfoHash := state'
  rw [step,vc,early_hit enough]
  generalize (x.decryptBuf h (c.off + 40) 14).readHead.select = y at *
  have limit : y.req1Off + 14 + y.padCLen = c.off + 14 + c.padC.length := by rw [selected.req1Off,selected.padCLen]
  unfold awaitPadC
  rw [limit,next.length]
  by_cases waits : min t 1244 < c.off + 14 + c.padC.length
  · rw [if_pos waits,middle_skip (by omega)]
    have inBuf' : Buffered h c t 14 {y with state := .waitForPadC} :=
      ⟨next.sock,next.buf,next.s,next.unread,next.reinserted,next.enc,next.handshake,next.decrypted,next.inside,next.upTo,next.ahead⟩
    have same : Selected h c 14 {y with state := .waitForPadC} :=
      ⟨selected.req1Off,selected.infoHash,selected.padCLen,selected.cryptoSelect,selected.ourRc4⟩
    rw [waitForPadC_run allowed inBuf' same rfl (by omega) arrivals brings]
    exact (and_iff_right (.inl waits)).symm
  · rw [if_neg waits]
    by_cases less : min t 1244 < c.iaStart
    · have stays : y.handlePadC h = y := by
        unfold handlePadC
        rw [iaOff_eq selected,next.length,if_pos less]
      rw [stays]
      exact iff_of_false (stuck_run next selected.req1Off selected.ourRc4 (Nat.le_refl 14) (.inl state'') (by omega) arrivals brings) (by omega)
    · rw [handlePadC_run allowed next selected (.inl state'') (by omega) arrivals brings]
      exact (and_iff_right (.inr (by omega))).symm

theorem foundInfoHash_run (allowed : h.unencryptedConnectionsAllowed = true) (full : BigEndian.size (c.secret h) = 96)
    (buffered : Buffered h c t 0 a) (off : a.req1Off = c.off) (infoHash : a.infoHash = c.infoHash) (on : a.ourRc4 = some ⟨c.key h,0⟩)
    (state : a.state = .foundInfoHash) (short : t < c.off + 54) (arrivals : List Arrival) (brings : Brings h c t arrivals) :
    Passed h c (a.run h arrivals) ↔ Early h c (sizesFrom t arrivals) := by
  have small := iaStart_small c
  have start : c.off + 56 ≤ c.iaStart := by
    unfold Client.iaStart
    omega
  induction arrivals generalizing a t with
  | nil =>
    obtain ⟨_,_,none_⟩ := brings.more (by omega)
    cases none_
  | cons arrival arrivals more =>
    have filled := buffered.filled (by omega) brings
    have step : a.onReadyRead h arrival = ((a.arrived arrival.bytes).fillBuf h (a.arrived arrival.bytes).roomFor).processVC h arrival.memory := by
      rw [buffered.onReadyRead brings]
      unfold dispatch
      rw [show (a.arrived arrival.bytes).state = .foundInfoHash from state]
    show Passed h c ((a.onReadyRead h arrival).run h arrivals) ↔ Early h c (min (t + arrival.bytes.length) 1244 :: _)
    have inBuf := filled.buffered
    obtain ⟨unread,buf,next,eq⟩ := filled.same
    rw [step,eq]
    rw [eq] at inBuf
    by_cases less : min (t + arrival.bytes.length) 1244 < c.off + 54
    · have waits : processVC h arrival.memory {a with unread,buf,next} = {a with unread,buf,next} := by
        unfold processVC
        rw [startRc4_on (a := {a with unread,buf,next}) on]
        refine decryptVC_short ?_
        rw [inBuf.length]
        show _ < a.req1Off + 54
        omega
      rw [waits,early_skip less]
      exact more inBuf off infoHash on state (by omega) brings.next
    · exact processVC_run allowed full arrival.memory inBuf off infoHash (.inr on) state (by omega) arrivals brings.next

theorem hashAt_bytes (front rest : List UInt8) (hash : Hash) : hashAt (front ++ (hash.bytes ++ rest)) front.length = hash := by
  funext i
  unfold hashAt Hash.bytes
  rw [List.getD_append_right _ _ _ _ (Nat.le_add_right _ _),Nat.add_sub_cancel_left,List.getD_append _ _ _ _ (by rw [List.length_ofFn]; exact i.2),
    List.getD_eq_getElem _ _ (by rw [List.length_ofFn]; exact i.2),List.getElem_ofFn]

theorem skey_read (inside : c.off + 40 ≤ b) : hashAt ((c.opened h 0).take b) (c.off + 20) = (c.req2 h).xor (c.req3 h) := by
  obtain ⟨rest,shape⟩ := @opened_shape h c b 0 (Nat.zero_le _) inside
  have front : c.front h = (c.ya ++ (c.padA ++ (c.req1 h).bytes)) ++ ((c.req2 h).xor (c.req3 h)).bytes := by
    unfold Client.front
    simp only [List.append_assoc]
  have length : (c.ya ++ (c.padA ++ (c.req1 h).bytes)).length = c.off + 20 := by
    rw [List.length_append,List.length_append,bytes_length,c.ya_length]
    unfold Client.off
    omega
  have read := hashAt_bytes (c.ya ++ (c.padA ++ (c.req1 h).bytes)) (c.plain.take 0 ++ rest) ((c.req2 h).xor (c.req3 h))
  rw [length,← List.append_assoc,← front,← shape] at read
  exact read

theorem bytes_injective {one two : Hash} (same : one.bytes = two.bytes) : one = two := List.ofFn_injective same

theorem findInfoHash_eq (valid : Valid h c) : findInfoHash h (c.req2 h) = some c.infoHash := by
  unfold findInfoHash
  cases found : h.infoHashes.find? fun hash => decide ((h.generate (req2Tag ++ hash.bytes)).bytes = (c.req2 h).bytes) with
  | none =>
    have none_ := List.find?_eq_none.mp found c.infoHash valid.known
    exact absurd (decide_eq_true rfl) none_
  | some hash =>
    have holds := List.find?_some found
    have same : (h.generate (req2Tag ++ hash.bytes)).bytes = (c.req2 h).bytes := of_decide_eq_true holds
    rw [valid.hashes hash (List.mem_of_find?_eq_some found) (bytes_injective same)]

theorem calculateSKey_run (allowed : h.unencryptedConnectionsAllowed = true) (full : BigEndian.size (c.secret h) = 96) (valid : Valid h c)
    (m : Memory) (buffered : Buffered h c t 0 a) (off : a.req1Off = c.off) (on : a.ourRc4 = none) (enough : c.off + 40 ≤ min t 1244)
    (arrivals : List Arrival) (brings : Brings h c t arrivals) :
    Passed h c ((a.calculateSKey h m).run h arrivals) ↔ Early h c (min t 1244 :: sizesFrom t arrivals) := by
  have small := iaStart_small c
  have skey : (hashAt a.buf (a.req1Off + 20)).xor (h.generate (tagged req3Tag a.s m.calculateSKey)) = c.req2 h := by
    have room : 100 ≤ m.calculateSKey.1.length := Nat.le_of_eq m.calculateSKey.2.symm
    unfold tagged
    rw [buffered.buf,off,skey_read enough,buffered.s,tagged_full full rfl room]
    exact xor_xor _ _
  have step : a.calculateSKey h m = {a with infoHash := c.infoHash,state := .foundInfoHash}.processVC h m := by
    unfold calculateSKey
    rw [if_neg (by rw [off,buffered.length]; omega),skey,findInfoHash_eq valid]
  have inBuf : Buffered h c t 0 {a with infoHash := c.infoHash,state := .foundInfoHash} :=
    ⟨buffered.sock,buffered.buf,buffered.s,buffered.unread,buffered.reinserted,buffered.enc,buffered.handshake,buffered.decrypted,
      buffered.inside,buffered.upTo,buffered.ahead⟩
  rw [step]
  by_cases less : min t 1244 < c.off + 54
  · have start : c.off + 56 ≤ c.iaStart := by
      unfold Client.iaStart
      omega
    have waits : processVC h m {a with infoHash := c.infoHash,state := .foundInfoHash} =
        {a with infoHash := c.infoHash,state := .foundInfoHash,ourRc4 := some ⟨c.key h,0⟩} := by
      unfold processVC
      rw [startRc4_off (a := {a with infoHash := c.infoHash,state := .foundInfoHash}) full on buffered.s rfl]
      refine decryptVC_short ?_
      show a.buf.length < a.req1Off + 54
      rw [buffered.length]
      omega
    rw [waits,early_skip less]
    refine foundInfoHash_run (a := {a with infoHash := c.infoHash,state := .foundInfoHash,ourRc4 := some ⟨c.key h,0⟩}) allowed full ?_ off rfl rfl rfl
      (by omega) arrivals brings
    exact ⟨buffered.sock,buffered.buf,buffered.s,buffered.unread,buffered.reinserted,buffered.enc,buffered.handshake,buffered.decrypted,
      buffered.inside,buffered.upTo,buffered.ahead⟩
  · exact processVC_run allowed full m inBuf off rfl (.inl on) rfl (by omega) arrivals brings

theorem foundReq1_run (allowed : h.unencryptedConnectionsAllowed = true) (full : BigEndian.size (c.secret h) = 96) (valid : Valid h c)
    (buffered : Buffered h c t 0 a) (off : a.req1Off = c.off) (on : a.ourRc4 = none) (state : a.state = .foundReq1) (short : t < c.off + 40)
    (arrivals : List Arrival) (brings : Brings h c t arrivals) : Passed h c (a.run h arrivals) ↔ Early h c (sizesFrom t arrivals) := by
  have small := iaStart_small c
  have start : c.off + 56 ≤ c.iaStart := by
    unfold Client.iaStart
    omega
  induction arrivals generalizing a t with
  | nil =>
    obtain ⟨_,_,none_⟩ := brings.more (by omega)
    cases none_
  | cons arrival arrivals more =>
    have filled := buffered.filled (by omega) brings
    have step : a.onReadyRead h arrival = ((a.arrived arrival.bytes).fillBuf h (a.arrived arrival.bytes).roomFor).calculateSKey h arrival.memory := by
      rw [buffered.onReadyRead brings]
      unfold dispatch
      rw [show (a.arrived arrival.bytes).state = .foundReq1 from state]
    show Passed h c ((a.onReadyRead h arrival).run h arrivals) ↔ Early h c (min (t + arrival.bytes.length) 1244 :: _)
    have inBuf := filled.buffered
    have same : ((a.arrived arrival.bytes).fillBuf h (a.arrived arrival.bytes).roomFor).req1Off = c.off ∧
        ((a.arrived arrival.bytes).fillBuf h (a.arrived arrival.bytes).roomFor).ourRc4 = none ∧
        ((a.arrived arrival.bytes).fillBuf h (a.arrived arrival.bytes).roomFor).state = .foundReq1 := by
      obtain ⟨unread,buf,next,eq⟩ := filled.same
      rw [eq]
      exact ⟨off,on,state⟩
    rw [step]
    generalize (a.arrived arrival.bytes).fillBuf h (a.arrived arrival.bytes).roomFor = x at *
    by_cases less : min (t + arrival.bytes.length) 1244 < c.off + 40
    · have waits : x.calculateSKey h arrival.memory = x := by
        unfold calculateSKey
        rw [if_pos (by rw [same.1,inBuf.length]; omega)]
      rw [waits,early_skip (by omega)]
      exact more inBuf same.1 same.2.1 same.2.2 (by omega) brings.next
    · exact calculateSKey_run allowed full valid arrival.memory inBuf same.1 same.2.1 (by omega) arrivals brings.next

theorem window_eq (inside : i + 20 ≤ b) : (((c.opened h 0).take b).drop i).take 20 = ((c.stream h).drop i).take 20 := by
  rw [List.drop_take,List.take_take,Nat.min_eq_left (by omega)]
  rfl

theorem window_off : ((c.stream h).drop c.off).take 20 = (c.req1 h).bytes := by
  have shape : c.stream h = (c.ya ++ c.padA) ++ ((c.req1 h).bytes ++ (((c.req2 h).xor (c.req3 h)).bytes ++ c.cipher h)) := by
    unfold Client.stream Client.opened Client.front
    simp only [List.append_assoc,List.take_zero,List.nil_append,List.drop_zero]
  rw [shape,List.drop_left' (by rw [List.length_append,c.ya_length]; rfl),List.take_left' (bytes_length _)]

-- The search finds the hash once it is there with a byte behind it.
theorem req1At_eq (valid : Valid h c) (buffered : Buffered h c t 0 a) :
    a.req1At (c.req1 h) = if c.off + 21 ≤ min t 1244 then some c.off else none := by
  have length := buffered.length
  have low : 96 ≤ c.off := by
    unfold Client.off
    omega
  unfold req1At
  rw [length,buffered.buf]
  split
  · rename_i there
    have window : decide ((((c.opened h 0).take (min t 1244)).drop c.off).take 20 = (c.req1 h).bytes) = true :=
      decide_eq_true ((window_eq (by omega)).trans window_off)
    rw [show min t 1244 - 20 - 96 = (c.off - 96) + (min t 1244 - 20 - c.off) by omega,← List.range'_append_1,List.find?_append,
      show 96 + (c.off - 96) = c.off by omega,show min t 1244 - 20 - c.off = (min t 1244 - 21 - c.off) + 1 by omega,List.range'_succ]
    have none_ : (List.range' 96 (c.off - 96)).find? (fun i => decide ((((c.opened h 0).take (min t 1244)).drop i).take 20 = (c.req1 h).bytes)) = none := by
      apply List.find?_eq_none.mpr
      intro i mem
      have range := List.mem_range'_1.mp mem
      rw [window_eq (by omega),decide_eq_true_iff]
      exact valid.first i range.1 (by omega)
    rw [none_,Option.none_or]
    exact List.find?_cons_of_pos window
  · apply List.find?_eq_none.mpr
    intro i mem
    have range := List.mem_range'_1.mp mem
    rw [window_eq (by omega),decide_eq_true_iff]
    exact valid.first i range.1 (by omega)

theorem unbroken_skip (less : b < c.off + 21) : Unbroken h c (b :: sizes) ↔ b ≤ 608 ∧ Unbroken h c sizes := by
  constructor
  · rintro ⟨search,early⟩
    have here := search b List.mem_cons_self
    exact ⟨by omega,fun x mem => search x (List.mem_cons_of_mem _ mem),(early_skip (by omega)).mp early⟩
  · rintro ⟨upTo,search,early⟩
    refine ⟨fun x mem => ?_,(early_skip (by omega)).mpr early⟩
    rcases List.mem_cons.mp mem with rfl | later
    · exact .inl upTo
    · exact search x later

theorem unbroken_found (there : c.off + 21 ≤ min t 1244) :
    Unbroken h c (min t 1244 :: sizesFrom t arrivals) ↔ Early h c (min t 1244 :: sizesFrom t arrivals) := by
  constructor
  · exact fun unbroken => unbroken.early
  · intro early
    refine ⟨fun x mem => .inr ?_,early⟩
    rcases List.mem_cons.mp mem with rfl | later
    · exact there
    · exact Nat.le_trans there (sizesFrom_ge arrivals later)

theorem findReq1_run (allowed : h.unencryptedConnectionsAllowed = true) (full : BigEndian.size (c.secret h) = 96) (valid : Valid h c)
    (m : Memory) (buffered : Buffered h c t 0 a) (on : a.ourRc4 = none) (arrivals : List Arrival) (brings : Brings h c t arrivals)
    (waiting : t < c.off + 21 → (Passed h c (a.run h arrivals) ↔ Unbroken h c (sizesFrom t arrivals))) :
    Passed h c ((a.findReq1 h m).run h arrivals) ↔ Unbroken h c (min t 1244 :: sizesFrom t arrivals) := by
  have small := iaStart_small c
  have start : c.off + 56 ≤ c.iaStart := by
    unfold Client.iaStart
    omega
  have low : 96 ≤ c.off := by
    unfold Client.off
    omega
  have length := buffered.length
  have hash : h.generate (tagged req1Tag a.s m.findReq1) = c.req1 h := by
    have room : 100 ≤ m.findReq1.1.length := Nat.le_of_eq m.findReq1.2.symm
    unfold tagged
    rw [buffered.s,tagged_full full rfl room]
    rfl
  unfold findReq1
  rw [length,hash,req1At_eq valid buffered]
  by_cases there : c.off + 21 ≤ min t 1244
  · rw [if_neg (by omega),if_pos there,unbroken_found there]
    have inBuf : Buffered h c t 0 {a with state := .foundReq1,req1Off := c.off} :=
      ⟨buffered.sock,buffered.buf,buffered.s,buffered.unread,buffered.reinserted,buffered.enc,buffered.handshake,buffered.decrypted,
        buffered.inside,buffered.upTo,buffered.ahead⟩
    show Passed h c ((calculateSKey h m {a with state := .foundReq1,req1Off := c.off}).run h arrivals) ↔ _
    by_cases less : min t 1244 < c.off + 40
    · have waits : calculateSKey h m {a with state := .foundReq1,req1Off := c.off} = {a with state := .foundReq1,req1Off := c.off} := by
        unfold calculateSKey
        rw [if_pos (by show c.off + 40 > a.buf.length; omega)]
      rw [waits,early_skip (by omega)]
      exact foundReq1_run allowed full valid inBuf rfl on rfl (by omega) arrivals brings
    · exact calculateSKey_run allowed full valid m inBuf rfl on (by omega) arrivals brings
  · rw [if_neg there,unbroken_skip (by omega),← waiting (by omega)]
    by_cases few : min t 1244 < 116
    · rw [if_pos few]
      exact (and_iff_right (by omega)).symm
    · rw [if_neg few]
      show Passed h c ((if min t 1244 > 608 then a.failed else a).run h arrivals) ↔ _
      by_cases many : min t 1244 > 608
      · rw [if_pos many]
        exact iff_of_false (not_passed_of_closed rfl arrivals) (by omega)
      · rw [if_neg many]
        exact (and_iff_right (by omega)).symm

theorem waitingForReq1_run (allowed : h.unencryptedConnectionsAllowed = true) (full : BigEndian.size (c.secret h) = 96) (valid : Valid h c)
    (buffered : Buffered h c t 0 a) (on : a.ourRc4 = none) (state : a.state = .waitingForReq1) (short : t < c.off + 21)
    (arrivals : List Arrival) (brings : Brings h c t arrivals) : Passed h c (a.run h arrivals) ↔ Unbroken h c (sizesFrom t arrivals) := by
  have small := iaStart_small c
  have start : c.off + 56 ≤ c.iaStart := by
    unfold Client.iaStart
    omega
  induction arrivals generalizing a t with
  | nil =>
    obtain ⟨_,_,none_⟩ := brings.more (by omega)
    cases none_
  | cons arrival arrivals more =>
    have filled := buffered.filled (by omega) brings
    have step : a.onReadyRead h arrival = ((a.arrived arrival.bytes).fillBuf h (a.arrived arrival.bytes).roomFor).findReq1 h arrival.memory := by
      rw [buffered.onReadyRead brings]
      unfold dispatch
      rw [show (a.arrived arrival.bytes).state = .waitingForReq1 from state]
    show Passed h c ((a.onReadyRead h arrival).run h arrivals) ↔ Unbroken h c (min (t + arrival.bytes.length) 1244 :: _)
    have inBuf := filled.buffered
    obtain ⟨unread,buf,next,eq⟩ := filled.same
    rw [step]
    rw [eq] at inBuf ⊢
    exact findReq1_run allowed full valid arrival.memory inBuf on arrivals brings.next fun less => more inBuf on state less brings.next

theorem fillBuf_s (a : EncryptedServerAuthenticate) (s ba : Nat) : fillBuf h {a with s} ba = {a.fillBuf h ba with s} := by
  unfold fillBuf readData
  dsimp only
  split
  · rfl
  · rfl

theorem secret_read (inside : 96 ≤ b) : dhSecret h.xb (fromBuffer ((c.opened h 0).take b) 96) = c.secret h := by
  have shape : c.opened h 0 = c.ya ++ ((c.padA ++ ((c.req1 h).bytes ++ ((c.req2 h).xor (c.req3 h)).bytes)) ++ c.cipher h) := by
    unfold Client.opened Client.front
    simp only [List.append_assoc,List.take_zero,List.nil_append,List.drop_zero]
  have key : ((c.opened h 0).take b).take 96 = c.ya.take 96 := by
    rw [List.take_take,Nat.min_eq_left inside,shape,List.take_append_of_le_length (Nat.le_of_eq c.ya_length.symm)]
  unfold Client.secret fromBuffer
  rw [key]

end Phases

-- However the stream is cut, as long as the first arrival has the public key: the
-- handshake passes the client on exactly when no cut falls in one of the gaps.
theorem fragmentation_iff (h : Host) (c : Client) (allowed : h.unencryptedConnectionsAllowed = true) (valid : Valid h c)
    (full : 256 ^ 95 ≤ c.secret h) (arrival : Arrival) (arrivals : List Arrival) (cut : Brings h c 0 (arrival :: arrivals))
    (first : 96 ≤ arrival.bytes.length) :
    Passed h c (EncryptedServerAuthenticate.new.run h (arrival :: arrivals)) ↔ Unbroken h c (sizesFrom 0 (arrival :: arrivals)) := by
  have fills : BigEndian.size (c.secret h) = 96 := size_eq full (powerMod_lt _ _)
  have begun : Buffered h c 0 0 {EncryptedServerAuthenticate.new with s := c.secret h} :=
    ⟨rfl,by simp [EncryptedServerAuthenticate.new],rfl,by simp [EncryptedServerAuthenticate.new],rfl,rfl,rfl,rfl,Nat.zero_le _,Nat.zero_le _,.inl rfl⟩
  have filled := begun.filled (by decide) cut
  have size : (EncryptedServerAuthenticate.new.arrived arrival.bytes).roomFor = min arrival.bytes.length 1244 := by
    unfold roomFor bytesAvailable arrived EncryptedServerAuthenticate.new maxSeaBufSize
    simp only [List.nil_append,List.length_nil]
    split <;> omega
  have step : EncryptedServerAuthenticate.new.onReadyRead h arrival =
      ((EncryptedServerAuthenticate.new.arrived arrival.bytes).fillBuf h (EncryptedServerAuthenticate.new.arrived arrival.bytes).roomFor).firstRead
        h arrival.memory := by
    have available : (EncryptedServerAuthenticate.new.arrived arrival.bytes).bytesAvailable ≠ 0 := by
      show ([] ++ arrival.bytes).length + 0 ≠ 0
      rw [List.nil_append]
      omega
    unfold EncryptedServerAuthenticate.onReadyRead readyRead
    rw [if_neg (by decide),if_neg available]
    unfold dispatch
    show (if (decide (_ ≤ 68) && _) = true then _ else _) = _
    rw [size,if_neg (by simp; omega)]
  have same : fillBuf h (arrived {EncryptedServerAuthenticate.new with s := c.secret h} arrival.bytes)
        (arrived {EncryptedServerAuthenticate.new with s := c.secret h} arrival.bytes).roomFor =
      {(EncryptedServerAuthenticate.new.arrived arrival.bytes).fillBuf h (EncryptedServerAuthenticate.new.arrived arrival.bytes).roomFor with
        s := c.secret h} :=
    fillBuf_s (EncryptedServerAuthenticate.new.arrived arrival.bytes) (c.secret h) (EncryptedServerAuthenticate.new.arrived arrival.bytes).roomFor
  have inBuf := filled.buffered
  have none_ : ((EncryptedServerAuthenticate.new.arrived arrival.bytes).fillBuf h
      (EncryptedServerAuthenticate.new.arrived arrival.bytes).roomFor).ourRc4 = none := by
    obtain ⟨unread,buf,next,eq⟩ := filled.same
    rw [same] at eq
    exact congrArg EncryptedServerAuthenticate.ourRc4 eq
  rw [same,Nat.zero_add] at inBuf
  have brings := cut.next
  rw [Nat.zero_add] at brings
  show Passed h c ((EncryptedServerAuthenticate.new.onReadyRead h arrival).run h arrivals) ↔
    Unbroken h c (min (0 + arrival.bytes.length) 1244 :: sizesFrom (0 + arrival.bytes.length) arrivals)
  rw [step,Nat.zero_add]
  generalize (EncryptedServerAuthenticate.new.arrived arrival.bytes).fillBuf h (EncryptedServerAuthenticate.new.arrived arrival.bytes).roomFor = y at *
  have buf : y.buf = (c.opened h 0).take (min arrival.bytes.length 1244) := inBuf.buf
  have long : y.buf.length ≥ 96 := by
    have length := inBuf.length
    change y.buf.length = _ at length
    omega
  have read : y.firstRead h arrival.memory = findReq1 h arrival.memory {y with s := c.secret h,state := .waitingForReq1} := by
    unfold firstRead handleYA
    rw [if_pos long,buf,secret_read (by omega)]
  rw [read]
  have next : Buffered h c arrival.bytes.length 0 {y with s := c.secret h,state := .waitingForReq1} :=
    ⟨inBuf.sock,inBuf.buf,inBuf.s,inBuf.unread,inBuf.reinserted,inBuf.enc,inBuf.handshake,inBuf.decrypted,inBuf.inside,inBuf.upTo,inBuf.ahead⟩
  exact findReq1_run allowed fills valid arrival.memory next none_ arrivals brings fun less =>
    waitingForReq1_run allowed fills valid next none_ rfl less arrivals brings

-- A client, with SHA1 and RC4 as they are for its bytes.
def sampleYA : List UInt8 :=
  [128,1,4,7,10,13,16,19,22,25,28,31,34,37,40,43,46,49,52,55,58,61,64,67,70,73,76,79,82,85,88,91,
    94,97,100,103,106,109,112,115,118,121,124,127,130,133,136,139,142,145,148,151,154,157,160,163,166,169,172,175,178,181,184,187,
    190,193,196,199,202,205,208,211,214,217,220,223,226,229,232,235,238,241,244,247,250,253,0,3,6,9,12,15,18,21,24,27]

def sampleKeystream : List UInt8 :=
  [2,167,251,139,117,24,6,134,239,250,83,61,188,127,221,151,17,81,229,129,56,17,137,236,19,190,2,215,101,153,239,121,
    210,242,245,46,182,252,46,58,191,54,159,60,191,67,255,168,246,246,54,38,168,34,143,233,162,184,128,131,254,227,106,92,
    97,102,253,115,5,45,182,7,64,7,101,139,112,148,106,153,85,215,178,61,96,144,193,84,29]

def hashOf (bytes : List UInt8) : Hash := fun i => bytes.getD i 0

def sampleGenerate (data : List UInt8) : Hash :=
  if data = req1Tag ++ sampleYA then hashOf [7,110,85,214,143,255,21,30,242,71,101,249,121,72,54,249,237,149,255,62]
  else if data = req2Tag ++ List.replicate 20 7 then hashOf [74,144,148,127,129,10,184,22,208,217,181,55,11,43,29,221,222,81,29,119]
  else if data = req3Tag ++ sampleYA then hashOf [59,139,216,47,154,67,179,216,166,137,33,23,162,6,206,48,83,27,117,119]
  else if data = [107,101,121,65] ++ sampleYA ++ List.replicate 20 7 then hashOf [41,19,135,8,216,232,199,188,95,127,157,237,178,21,247,80,228,33,223,123]
  else hashOf []

def sampleHost : Host where
  generate := sampleGenerate
  xb := 1
  infoHashes := [fun _ => 7]
  unencryptedConnectionsAllowed := true
  keystream _ i := sampleKeystream.getD i 0

-- IA is a whole handshake, and a message follows it.
def sampleClient : Client where
  ya := sampleYA
  padA := []
  infoHash := fun _ => 7
  provide := 3
  padC := []
  ia := [19,66,105,116,84,111,114,114,101,110,116,32,112,114,111,116,111,99,111,108] ++ List.replicate 8 0 ++ List.replicate 20 7 ++ List.replicate 20 45
  payload := [0,0,0,1,2]
  ya_length := by decide
  padA_length := by decide
  provide_lt := by decide
  padC_length := by decide
  ia_length := by decide

theorem sample_valid : Valid sampleHost sampleClient where
  known := List.mem_singleton.mpr rfl
  hashes _ mem _ := List.mem_singleton.mp mem
  first _ low high := absurd low (Nat.not_le.mpr high)

theorem sample_length : (sampleClient.stream sampleHost).length = 225 := by
  rw [stream_length,plain_length]
  rfl

-- n bytes of the stream from place t on.
def sampleRead (t n : Nat) : Arrival := ⟨((sampleClient.stream sampleHost).drop t).take n,.unlike⟩

theorem sampleRead_length (inside : t + n ≤ 225) : (sampleRead t n).bytes.length = n := by
  unfold sampleRead
  rw [List.length_take,List.length_drop,sample_length]
  omega

theorem sampleRead_append (t n : Nat) : (sampleRead t n).bytes ++ (sampleClient.stream sampleHost).drop (t + n) = (sampleClient.stream sampleHost).drop t := by
  unfold sampleRead
  rw [← List.drop_drop]
  exact List.take_append_drop n _

-- A cut in the hash that ends PadA, and one in the middle of IA.
theorem cut_twice_passed : Passed sampleHost sampleClient
    (EncryptedServerAuthenticate.new.run sampleHost [sampleRead 0 100,sampleRead 100 70,sampleRead 170 55]) := by
  have length (t n : Nat) (inside : t + n ≤ 225) : (sampleRead t n).bytes.length = n := sampleRead_length inside
  have cut : Brings sampleHost sampleClient 0 [sampleRead 0 100,sampleRead 100 70,sampleRead 170 55] := by
    refine ⟨Nat.zero_le _,?_,fun arrival mem => List.ne_nil_of_length_pos ?_⟩
    · have last : (sampleClient.stream sampleHost).drop 225 = [] := List.drop_eq_nil_of_le (Nat.le_of_eq sample_length)
      have second := sampleRead_append 100 70
      rw [← sampleRead_append 170 55,last] at second
      rw [← sampleRead_append 0 100,← second]
      rfl
    · rcases List.mem_cons.mp mem with rfl | mem
      · exact (length 0 100 (by decide)).symm ▸ by decide
      · rcases List.mem_cons.mp mem with rfl | mem
        · exact (length 100 70 (by decide)).symm ▸ by decide
        · rw [List.mem_singleton.mp mem,length 170 55 (by decide)]
          decide
  have sizes : sizesFrom 0 [sampleRead 0 100,sampleRead 100 70,sampleRead 170 55] = [100,170,225] := by
    simp only [sizesFrom,length 0 100 (by decide),length 100 70 (by decide),length 170 55 (by decide)]
    rfl
  refine (fragmentation_iff sampleHost sampleClient rfl sample_valid (by decide +kernel) _ _ cut (by rw [length 0 100 (by decide)]; decide)).mpr ?_
  rw [sizes]
  refine ⟨by decide,⟨?_,⟨?_,⟨by decide,by decide,?_⟩⟩⟩⟩
  · rintro b ⟨⟩
    decide
  · rintro b ⟨⟩
    decide
  · rintro b ⟨⟩
    exact .inl (by decide)

-- A cut right behind len(PadC): the head is decrypted again with the next bytes.
theorem cut_behind_head_fails : Brings sampleHost sampleClient 0
      [⟨(sampleClient.stream sampleHost).take 150,.unlike⟩,⟨(sampleClient.stream sampleHost).drop 150,.unlike⟩] ∧
    ¬ Passed sampleHost sampleClient (EncryptedServerAuthenticate.new.run sampleHost
      [⟨(sampleClient.stream sampleHost).take 150,.unlike⟩,⟨(sampleClient.stream sampleHost).drop 150,.unlike⟩]) := by
  have length := sample_length
  refine ⟨⟨Nat.zero_le _,by simp,?_⟩,?_⟩
  · intro arrival mem
    rcases List.mem_cons.mp mem with rfl | mem
    · exact List.ne_nil_of_length_pos (by rw [List.length_take]; omega)
    · rw [List.mem_singleton.mp mem]
      exact List.ne_nil_of_length_pos (by rw [List.length_drop]; omega)
  · intro passed
    have closed : (EncryptedServerAuthenticate.new.run sampleHost
        [⟨(sampleClient.stream sampleHost).take 150,.unlike⟩,⟨(sampleClient.stream sampleHost).drop 150,.unlike⟩]).sock = false := by
      decide +kernel
    have sock := passed.sock
    rw [closed] at sock
    cases sock

end KtorrentStream.Mse
