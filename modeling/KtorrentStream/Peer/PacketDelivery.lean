import KtorrentStream.Net.PacketStream
import KtorrentStream.Mse.ReadPath
import KtorrentStream.Peer.PacketFraming
set_option autoImplicit true

namespace KtorrentStream.Peer
open KtorrentStream.Util KtorrentStream.Lib KtorrentStream.Download KtorrentStream.Net KtorrentStream.Mse

-- RC4 at a place of its key stream: it decrypts as it encrypts.
def rc4 (key : Nat → UInt8) (pos : Nat) (byte : UInt8) : UInt8 × Nat := (byte ^^^ key pos,pos + 1)

-- EncryptedPacketSocket::preProcess; enc is the place, none for no encryption.
def encryptor (key : Nat → UInt8) : Cipher (Option Nat) where
  encrypt enc data := ((decrypt (rc4 key) enc data).2,(decrypt (rc4 key) enc data).1)
  encrypt_length enc data := by
    cases enc with
    | none => rfl
    | some pos => exact transduce_length pos data

-- The reading side of a socket that is monitored, and the reader of its peer.
structure TrafficShapedSocket where
  enc : Option Nat
  unread : List UInt8
  closed : Bool
  rdr : Reading

namespace TrafficShapedSocket

def outputBufferSize : Nat := 16393

-- EncryptedPacketSocket::postProcess, and rdr->onDataReady.
def handle (key : Nat → UInt8) (s : TrafficShapedSocket) (data : List UInt8) : Option TrafficShapedSocket :=
  (s.rdr.step (.onDataReady (decrypt (rc4 key) s.enc data).1)).map fun rdr =>
    {s with enc := (decrypt (rc4 key) s.enc data).2,rdr := rdr}

-- How much is asked for, where br bytes are read and ba are said to be there.
def toRead (max br ba : Nat) : Nat :=
  let tr := min ba outputBufferSize
  if max ≠ 0 ∧ uint32 (tr + br) > max then uint32Sub max br else tr

-- The loop of read. The list has what recv gives, call after call; behind it nothing
-- is there. None: the reader leaves its buffers.
def readLoop (key : Nat → UInt8) (max : Nat) : List Delivery → Nat → Nat → TrafficShapedSocket → Option (Nat × TrafficShapedSocket)
  | [],br,_,s => some (br,s)
  | d :: rest,br,ba,s =>
    if (br < max ∨ max = 0) ∧ 0 < ba then
      match d with
      | .nothing => some (br,s)
      | .amount n =>
        let ret := min (min n (toRead max br ba)) s.unread.length
        if ret = 0 then some (br,{s with closed := true})
        else do
          let s ← {s with unread := s.unread.drop ret}.handle key (s.unread.take ret)
          readLoop key max rest (uint32 (br + ret)) (uint32Sub ba ret) s
    else some (br,s)

-- ba is what the device says that it has.
def read (key : Nat → UInt8) (max ba : Nat) (recvs : List Delivery) (s : TrafficShapedSocket) : Option (Nat × TrafficShapedSocket) :=
  if s.closed then some (0,s)
  else readLoop key max recvs 0 (if ba = 0 then if max > 0 then max else outputBufferSize else ba) s

end TrafficShapedSocket

-- Two peers that have shaken hands, and how much of what the one has sent is carried
-- to the other.
structure Wire where
  sender : PacketSocket (Option Nat)
  carried : Nat
  receiver : TrafficShapedSocket

namespace Wire
open PacketSocket

def start (enc : Option Nat) (most : Nat) : Wire := ⟨.create enc,0,enc,[],false,⟨.new most,[]⟩⟩

inductive Event
  | call (c : Call)
  | arrive (n : Nat)
  | read (max ba : UInt32) (recvs : List Delivery)
  | update

def onTheWay (w : Wire) : List UInt8 := (wire w.sender.log).drop w.carried

def step (key : Nat → UInt8) (w : Wire) : Event → Option Wire
  | .call c => (w.sender.call (encryptor key) c).map fun sender => {w with sender := sender}
  | .arrive n => some {w with
      carried := w.carried + (w.onTheWay.take n).length
      receiver := {w.receiver with unread := w.receiver.unread ++ w.onTheWay.take n}}
  | .read max ba recvs => (w.receiver.read key max.toNat ba.toNat recvs).map fun (_,receiver) => {w with receiver := receiver}
  | .update => (w.receiver.rdr.step .update).map fun rdr => {w with receiver := {w.receiver with rdr := rdr}}

-- The packet of a call to addPacket, and what the log has of it; a reject that the socket
-- adds by itself is none.
def Event.packet : Event → Option Packet
  | .call (.addPacket packet) => some packet
  | _ => none

def handedOver : PacketSocket.Event → Option Packet
  | .added p none => some p.packet
  | _ => none

def given (w : Wire) : List Packet := w.sender.log.filterMap handedOver

-- What a packet says behind its length.
def payload (p : Queued) : List UInt8 := p.packet.data.drop 4

-- The packets that were handed to the receiving peer are those that were taken from the
-- queues, in their order and none twice.
structure Delivers (w : Wire) : Prop where
  ok : w.receiver.rdr.reader.error = false
  handled : w.receiver.rdr.handled <+: (selected w.sender.log).map payload
  queues : InOrder w.sender
  once : (selected w.sender.log).Nodup
  complete : w.carried = (wire w.sender.log).length → w.receiver.unread = [] →
    (sent w.sender.log).map payload <+: w.receiver.rdr.handled ++ w.receiver.rdr.reader.update.2

end Wire

-- The cipher

-- The other side gets back what was encrypted, and is at the same place.
theorem decrypt_twice (key : Nat → UInt8) (enc : Option Nat) (data : List UInt8) :
    decrypt (rc4 key) enc (decrypt (rc4 key) enc data).1 = (data,(decrypt (rc4 key) enc data).2) := by
  cases enc with
  | none => rfl
  | some pos =>
      unfold decrypt
      dsimp only
      induction data generalizing pos with
      | nil => rfl
      | cons byte rest ih =>
          have tail := ih (pos + 1)
          simp only [Prod.mk.injEq,Option.some.injEq] at tail
          simp only [transduce,rc4,UInt8.xor_assoc,UInt8.xor_self,UInt8.xor_zero,Prod.mk.injEq,List.cons.injEq,true_and]
          exact ⟨tail.1,congrArg some tail.2⟩

theorem encryptAll_eq (key : Nat → UInt8) (enc : Option Nat) (packets : List (List UInt8)) :
    (encryptor key).encryptAll enc packets = (decrypt (rc4 key) enc packets.flatten).1 := by
  induction packets generalizing enc with
  | nil => cases enc <;> rfl
  | cons data rest ih =>
      rw [List.flatten_cons,decrypt_append,Cipher.encryptAll,ih]
      rfl

theorem decrypt_prefix (key : Nat → UInt8) (enc : Option Nat) (before : a <+: b) : (decrypt (rc4 key) enc a).1 <+: (decrypt (rc4 key) enc b).1 := by
  obtain ⟨rest,rfl⟩ := before
  rw [decrypt_append]
  exact List.prefix_append _ _

-- The sender

-- The packets that come to the log on the way are no longer than the receiver allows, and
-- those that addPacket was called with are given.
def Grows (most : Nat) (packets : List Packet) (s s' : PacketSocket σ) : Prop :=
  ∃ events, s'.log = s.log ++ events ∧ (∀ p ∈ PacketSocket.added events, p.packet.size ≤ most + 4) ∧ events.filterMap Wire.handedOver = packets

namespace Grows
open PacketSocket

theorem same (log : s'.log = s.log) : Grows most [] s s' := ⟨[],by rw [log,List.append_nil],fun _ never => (by cases never),rfl⟩

theorem trans (first : Grows most packets s s') (second : Grows most [] s' s'') : Grows most packets s s'' := by
  obtain ⟨events,log,small,given⟩ := first
  obtain ⟨events',log',small',none_⟩ := second
  refine ⟨events ++ events',by rw [log',log,List.append_assoc],?_,by rw [List.filterMap_append,given,none_,List.append_nil]⟩
  intro p was
  rw [added,List.filterMap_append,List.mem_append] at was
  rcases was with was | was
  · exact small p was
  · exact small' p was

theorem addPacket (small : packet.size ≤ most + 4) (rejects : Option Nat) :
    Grows most (if rejects = none then [packet] else []) s (s.addPacket packet rejects) := by
  refine ⟨[.added ⟨s.count,packet⟩ rejects],rfl,fun p was => ?_,by cases rejects <;> rfl⟩
  have here : p = ⟨s.count,packet⟩ := by simpa [added] using was
  rw [here]
  exact small

theorem silent (log : s'.log = s.log ++ [e]) (none_ : e.addition = none) : Grows most [] s s' := by
  cases e with
  | added p rejects => cases none_
  | _ => exact ⟨_,log,fun _ never => (by cases never),rfl⟩

theorem send (p : Queued) (maxToSend accept : Nat) : Grows most [] s (s.send p maxToSend accept).2 := silent rfl rfl

theorem onData (p : Queued) (ret : Nat) : Grows most [] s (s.onData p ret) := by
  apply same
  unfold PacketSocket.onData
  split <;> rfl

theorem popFront (p : Queued) : Grows most [] s (s.popFront p) := by
  unfold PacketSocket.popFront
  split
  · exact silent rfl rfl
  · exact silent rfl rfl

theorem selectPacket (cipher : Cipher σ) : Grows most [] s (s.selectPacket cipher) := by
  unfold PacketSocket.selectPacket
  split
  · exact same rfl
  · exact silent rfl rfl

theorem writeLoop (cipher : Cipher σ) (max : Nat) (accepts : List Nat) (written : Nat) (s : PacketSocket σ) :
    Grows most [] s (s.writeLoop cipher max accepts written).2 := by
  induction accepts generalizing s written with
  | nil => exact same rfl
  | cons accept accepts more =>
      unfold PacketSocket.writeLoop
      split
      · exact same rfl
      · split
        · generalize (if max = 0 then 0 else max - written) = limit
          dsimp only
          split
          · split
            · exact (((send _ _ _).trans (onData _ _)).trans (popFront _)).trans ((selectPacket cipher).trans (more _ _))
            · exact (send _ _ _).trans (onData _ _)
          · exact send _ _ _
        · exact same rfl

theorem write (cipher : Cipher σ) (connecting : Bool) (max : Nat) (accepts : List Nat) : Grows most [] s (s.write cipher connecting max accepts).2 := by
  unfold PacketSocket.write
  split
  · exact same rfl
  · split
    · exact writeLoop cipher max accepts 0 s
    · exact (selectPacket cipher).trans (writeLoop cipher max accepts 0 _)

theorem erase (p : Queued) (reject : Bool) : Grows most [] s (s.erase p reject) := silent rfl rfl

theorem queueReject (large : 13 ≤ most) (queued : s.queueReject p reject = some s') : Grows most [] s s' := by
  unfold PacketSocket.queueReject at queued
  split at queued
  · split at queued
    · rename_i packet made
      cases queued
      have small : packet.size ≤ most + 4 := by
        unfold makeRejectOfPiece at made
        split at made
        · cases made
          show 17 ≤ most + 4
          omega
        · cases made
      exact addPacket small (some p.id)
    · cases queued
  · cases queued
    exact same rfl

theorem clearPiece (large : 13 ≤ most) (p : Queued) (cleared : s.clearPiece reject p = some s') : Grows most [] s s' := by
  unfold PacketSocket.clearPiece at cleared
  split at cleared
  · obtain ⟨between,queued,rfl⟩ := Option.map_eq_some_iff.mp cleared
    exact (queueReject large queued).trans (erase p reject)
  · cases cleared
    exact same rfl

theorem skipPiece (large : 13 ≤ most) (p : Queued) (skipped : s.skipPiece req reject p = some s') : Grows most [] s s' := by
  unfold PacketSocket.skipPiece at skipped
  split at skipped
  · exact (erase p reject).trans (queueReject large skipped)
  · cases skipped
    exact same rfl

theorem turns {turn : PacketSocket σ → Queued → Option (PacketSocket σ)} (each : ∀ s p s', turn s p = some s' → Grows most [] s s') (ps : List Queued)
    (done : ps.foldlM turn s = some s') : Grows most [] s s' := by
  induction ps generalizing s with
  | nil =>
      cases done
      exact same rfl
  | cons p rest more =>
      obtain ⟨between,turned,rest_⟩ := Option.bind_eq_some_iff.mp done
      exact (each s p between turned).trans (more rest_)

theorem call (large : 13 ≤ most) (cipher : Cipher σ) (c : Call) (small : ∀ packet, c = .addPacket packet → packet.size ≤ most + 4)
    (called : s.call cipher c = some s') : Grows most (Wire.Event.call c).packet.toList s s' := by
  cases c with
  | addPacket packet =>
      cases called
      exact addPacket (small packet rfl) none
  | write connecting max accepts =>
      cases called
      exact write cipher connecting max accepts
  | doNotSendPiece req reject => exact turns (fun s p s' => skipPiece large p) _ called
  | clearPieces reject => exact turns (fun s p s' => clearPiece large p) _ called

end Grows

-- The receiver

-- Of the bytes all some are read, decrypted and given to the reader, and the others wait.
def Received (key : Nat → UInt8) (start : Option Nat) (most : Nat) (all : List UInt8) (s : TrafficShapedSocket) : Prop :=
  ∃ consumed, all = consumed ++ s.unread ∧ s.enc = (decrypt (rc4 key) start consumed).2 ∧
    Consistent most s.rdr.handled (decrypt (rc4 key) start consumed).1 s.rdr.reader

namespace Received
variable {key : Nat → UInt8} {start : Option Nat}

theorem arrive (received : Received key start most all s) (more : List UInt8) :
    Received key start most (all ++ more) {s with unread := s.unread ++ more} := by
  obtain ⟨consumed,glue,enc,consistent⟩ := received
  exact ⟨consumed,by rw [glue,List.append_assoc],enc,consistent⟩

theorem update (received : Received key start most all s) : ∃ rdr, s.rdr.step .update = some rdr ∧ Received key start most all {s with rdr := rdr} := by
  obtain ⟨consumed,glue,enc,consistent⟩ := received
  exact ⟨_,rfl,consumed,glue,enc,(update_spec consistent).1⟩

theorem handle (received : Received key start most all s) (n : Nat) (fits : Fits most (s.unread.take n)) :
    ∃ s', {s with unread := s.unread.drop n}.handle key (s.unread.take n) = some s' ∧ Received key start most all s' := by
  obtain ⟨consumed,glue,enc,consistent⟩ := received
  have plain : Fits most (decrypt (rc4 key) s.enc (s.unread.take n)).1 := by
    unfold Fits at *
    rw [decrypt_length]
    exact fits
  obtain ⟨reader,read,consistent'⟩ := onDataReady_spec consistent plain
  refine ⟨{s with unread := s.unread.drop n,enc := (decrypt (rc4 key) s.enc (s.unread.take n)).2,rdr := {s.rdr with reader := reader}},?_,
    consumed ++ s.unread.take n,?_,?_,?_⟩
  · unfold TrafficShapedSocket.handle Reading.step
    simp only [read,Option.map_some]
  · rw [glue,List.append_assoc,List.take_append_drop]
  · rw [decrypt_append,← enc]
  · rw [decrypt_append,← enc]
    exact consistent'

theorem toRead_le {max : Nat} (ba : Nat) (going : br < max ∨ max = 0) (bound : max < 4294967296) : TrafficShapedSocket.toRead max br ba ≤ TrafficShapedSocket.outputBufferSize := by
  unfold TrafficShapedSocket.toRead
  dsimp only
  split
  · rename_i limited
    rcases going with below | none_
    · have wrap : uint32 (min ba TrafficShapedSocket.outputBufferSize + br) ≤ _ := Nat.mod_le _ _
      rw [uint32Sub_of_le (by omega) bound]
      omega
    · exact absurd none_ limited.1
  · omega

theorem readLoop (room : most + TrafficShapedSocket.outputBufferSize ≤ 4294967296) (received : Received key start most all s) (max : Nat)
    (bound : max < 4294967296) (recvs : List Delivery) (br ba : Nat) :
    ∃ br' s', s.readLoop key max recvs br ba = some (br',s') ∧ Received key start most all s' := by
  induction recvs generalizing s br ba with
  | nil => exact ⟨br,s,rfl,received⟩
  | cons d rest ih =>
      unfold TrafficShapedSocket.readLoop
      split
      · rename_i going
        cases d with
        | nothing => exact ⟨br,s,rfl,received⟩
        | amount n =>
            dsimp only
            split
            · exact ⟨br,_,rfl,received⟩
            · have small := toRead_le ba going.1 bound
              have fits : Fits most (s.unread.take (min (min n (TrafficShapedSocket.toRead max br ba)) s.unread.length)) := by
                unfold Fits
                rw [List.length_take]
                unfold TrafficShapedSocket.outputBufferSize at *
                omega
              obtain ⟨s',handled,received'⟩ := handle received _ fits
              rw [handled]
              exact ih received' _ _
      · exact ⟨br,s,rfl,received⟩

theorem read (room : most + TrafficShapedSocket.outputBufferSize ≤ 4294967296) (received : Received key start most all s) (max : Nat)
    (bound : max < 4294967296) (ba : Nat) (recvs : List Delivery) : ∃ br s', s.read key max ba recvs = some (br,s') ∧ Received key start most all s' := by
  unfold TrafficShapedSocket.read
  split
  · exact ⟨0,s,rfl,received⟩
  · exact readLoop room received max bound recvs _ _

end Received

-- The two peers

structure Carried (key : Nat → UInt8) (start : Option Nat) (most : Nat) (w : Wire) : Prop where
  sound : PacketSocket.Sound (encryptor key) start w.sender
  sized : ∀ p ∈ PacketSocket.added w.sender.log, p.packet.size ≤ most + 4
  within : w.carried ≤ (PacketSocket.wire w.sender.log).length
  received : Received key start most ((PacketSocket.wire w.sender.log).take w.carried) w.receiver

namespace Carried
open PacketSocket
variable {key : Nat → UInt8} {start : Option Nat} {w : Wire}

theorem start_carried (key : Nat → UInt8) (start : Option Nat) (most : Nat) : Carried key start most (Wire.start start most) where
  sound := .create (encryptor key) start
  sized _ never := by cases never
  within := Nat.le_refl 0
  received := ⟨[],rfl,by cases start <;> rfl,by cases start <;> exact .start most⟩

theorem call (carried : Carried key start most w) (large : 13 ≤ most) (c : Call)
    (sendable : ∀ packet, c = .addPacket packet → Sendable packet ∧ packet.size ≤ most + 4) :
    ∃ w', w.step key (.call c) = some w' ∧ Carried key start most w' ∧ w'.given = w.given ++ (Wire.Event.call c).packet.toList := by
  obtain ⟨sender,called,sound⟩ := carried.sound.call c fun packet same => (sendable packet same).1
  obtain ⟨events,log,small,given⟩ := Grows.call large (encryptor key) c (fun packet same => (sendable packet same).2) called
  have longer : wire sender.log = wire w.sender.log ++ wire events := by
    rw [log,wire,List.flatMap_append]
    rfl
  refine ⟨{w with sender := sender},congrArg (Option.map _) called,⟨sound,?_,?_,?_⟩,?_⟩
  · intro p was
    rw [log,added,List.filterMap_append,List.mem_append] at was
    rcases was with was | was
    · exact carried.sized p was
    · exact small p was
  · show w.carried ≤ _
    rw [longer,List.length_append]
    exact Nat.le_add_right_of_le carried.within
  · show Received key start most ((wire sender.log).take w.carried) w.receiver
    rw [longer,List.take_append_of_le_length carried.within]
    exact carried.received
  · show sender.log.filterMap Wire.handedOver = _
    rw [log,List.filterMap_append,given]
    rfl

theorem arrive (carried : Carried key start most w) (n : Nat) :
    ∃ w', w.step key (.arrive n) = some w' ∧ Carried key start most w' ∧ w'.given = w.given := by
  refine ⟨_,rfl,⟨carried.sound,carried.sized,?_,?_⟩,rfl⟩
  · have within := carried.within
    show w.carried + (w.onTheWay.take n).length ≤ (wire w.sender.log).length
    unfold Wire.onTheWay
    rw [List.length_take,List.length_drop]
    omega
  · have more := carried.received.arrive (w.onTheWay.take n)
    show Received key start most ((wire w.sender.log).take (w.carried + (w.onTheWay.take n).length)) _
    have exactly : w.onTheWay.take n = w.onTheWay.take (w.onTheWay.take n).length := List.prefix_iff_eq_take.mp (List.take_prefix n _)
    rw [List.take_add]
    show Received key start most (_ ++ w.onTheWay.take (w.onTheWay.take n).length) _
    rw [← exactly]
    exact more

theorem step (carried : Carried key start most w) (large : 13 ≤ most) (room : most + TrafficShapedSocket.outputBufferSize ≤ 4294967296)
    (event : Wire.Event) (sendable : ∀ packet, event = .call (.addPacket packet) → Sendable packet ∧ packet.size ≤ most + 4) :
    ∃ w', w.step key event = some w' ∧ Carried key start most w' ∧ w'.given = w.given ++ event.packet.toList := by
  have same : w.given = w.given ++ [] := (List.append_nil _).symm
  cases event with
  | call c => exact carried.call large c fun packet same => sendable packet (congrArg _ same)
  | arrive n =>
      obtain ⟨w',done,carried',given⟩ := carried.arrive n
      exact ⟨w',done,carried',given.trans same⟩
  | read max ba recvs =>
      obtain ⟨br,receiver,done,received⟩ := carried.received.read room max.toNat max.toNat_lt ba.toNat recvs
      refine ⟨{w with receiver := receiver},?_,⟨carried.sound,carried.sized,carried.within,received⟩,same⟩
      exact congrArg (Option.map fun result => {w with receiver := result.2}) done
  | update =>
      obtain ⟨rdr,done,received⟩ := carried.received.update
      refine ⟨{w with receiver := {w.receiver with rdr := rdr}},?_,⟨carried.sound,carried.sized,carried.within,received⟩,same⟩
      exact congrArg (Option.map fun rdr => {w with receiver := {w.receiver with rdr := rdr}}) done

theorem run (carried : Carried key start most w) (large : 13 ≤ most) (room : most + TrafficShapedSocket.outputBufferSize ≤ 4294967296)
    (events : List Wire.Event) (sendable : ∀ packet, .call (.addPacket packet) ∈ events → Sendable packet ∧ packet.size ≤ most + 4) :
    ∃ w', events.foldlM (Wire.step key) w = some w' ∧ Carried key start most w' ∧ w'.given = w.given ++ events.filterMap Wire.Event.packet := by
  induction events generalizing w with
  | nil => exact ⟨w,rfl,carried,(List.append_nil _).symm⟩
  | cons event rest ih =>
      obtain ⟨between,first,carried',given⟩ := carried.step large room event fun packet same => sendable packet (by simp [same])
      obtain ⟨last,others,done,given'⟩ := ih carried' fun packet member => sendable packet (List.mem_cons_of_mem _ member)
      refine ⟨last,?_,done,?_⟩
      · rw [List.foldlM_cons,first]
        exact others
      · rw [given',given,List.append_assoc,List.filterMap_cons]
        cases event.packet <;> rfl

-- What packets say one behind the other is read back packet by packet.
theorem messages (carried : Carried key start most w) (ps : List Queued) (were : ∀ p ∈ ps, p ∈ added w.sender.log) :
    (framing most).messages (ps.map (·.packet.data)).flatten = ps.map Wire.payload ∧ (framing most).oversize (ps.map (·.packet.data)).flatten = false := by
  have made : ∀ packet ∈ ps.map Queued.packet, Constructed packet ∧ packet.size ≤ most + 4 := by
    intro packet member
    obtain ⟨p,of,rfl⟩ := List.mem_map.mp member
    exact ⟨(carried.sound.kept.sendable p (were p of)).1,carried.sized p (were p of)⟩
  have framed := constructed_messages made
  rwa [List.flatMap_map,List.map_map,List.flatMap_def] at framed

-- What was encrypted packet by packet and is decrypted as one stream is what it was.
theorem plain (key : Nat → UInt8) (start : Option Nat) (packets : List (List UInt8)) :
    (decrypt (rc4 key) start ((encryptor key).encryptAll start packets)).1 = packets.flatten := by
  rw [encryptAll_eq,decrypt_twice]

theorem delivers (carried : Carried key start most w) : w.Delivers := by
  obtain ⟨consumed,glue,_,consistent⟩ := carried.received
  have whole := carried.sound.whole
  obtain ⟨all,never⟩ := carried.messages _ fun p => carried.sound.kept.selected_added
  have before : consumed <+: wire w.sender.log := (glue ▸ List.prefix_append consumed _).trans (List.take_prefix _ _)
  obtain ⟨rest,ahead⟩ := plain key start _ ▸ decrypt_prefix key start (before.trans whole.in_selected)
  obtain ⟨fewer,sooner⟩ := Framing.messages_prefix (framing most) (decrypt (rc4 key) start consumed).1 rest
  rw [ahead] at fewer sooner
  have ok : w.receiver.rdr.reader.error = false := by
    rw [consistent.error_iff,← Bool.not_eq_true]
    intro over_
    rw [sooner over_] at never
    cases never
  refine ⟨ok,?_,carried.sound.intact.inOrder,whole.once,?_⟩
  · rw [← all]
    exact consistent.handled_isPrefix.trans fewer
  · intro everything nothing
    rw [everything,List.take_length,nothing,List.append_nil] at glue
    subst glue
    obtain ⟨rest,ahead⟩ := plain key start _ ▸ decrypt_prefix key start whole.sent_in
    rw [(update_spec consistent).2.2 ok,← (carried.messages _ fun p => carried.sound.kept.sent_added).1,← ahead]
    exact (Framing.messages_prefix _ _ rest).1

end Carried

theorem maxPacketLen_bounds (numChunks : Nat) : 16393 ≤ maxPacketLen numChunks ∧ maxPacketLen numChunks ≤ numChunks / 8 + 16393 := by
  unfold maxPacketLen
  dsimp only
  constructor
  · split <;> split <;> omega
  · split <;> split <;> omega

-- However the calls on the one side, the bytes between the two and the reads and updates
-- on the other follow on each other, encrypted or not. The packets that come through are
-- those that addPacket was called with, and rejects.
theorem packets_delivered (key : Nat → UInt8) (start : Option Nat) (chunks : numChunks * 20 < 2147483648) (events : List Wire.Event)
    (sendable : ∀ packet, .call (.addPacket packet) ∈ events → Sendable packet ∧ packet.size ≤ uint32 (10 * maxPacketLen numChunks) + 4) :
    ∃ w, events.foldlM (Wire.step key) (Wire.start start (uint32 (10 * maxPacketLen numChunks))) = some w ∧ w.Delivers ∧
      w.given = events.filterMap Wire.Event.packet := by
  obtain ⟨large,small⟩ := maxPacketLen_bounds numChunks
  rw [uint32_of_lt (by omega)] at sendable ⊢
  have room : 10 * maxPacketLen numChunks + TrafficShapedSocket.outputBufferSize ≤ 4294967296 := by
    unfold TrafficShapedSocket.outputBufferSize
    omega
  obtain ⟨w,ran,carried,given⟩ := (Carried.start_carried key start _).run (by omega) room events sendable
  exact ⟨w,ran,carried.delivers,given⟩

-- A choke and a piece, which is taken while the choke is still being sent.
theorem choke_and_piece_delivered : ∃ w, [Wire.Event.call (.addPacket ⟨0,[0,0,0,1,0],5⟩),.call (.write false 0 [3]),
      .call (.addPacket ⟨7,[0,0,0,10,7,0,0,0,3,0,0,128,0,9],14⟩),.arrive 2,.read 0 0 [.amount 5],.update,.call (.write false 0 [100,100]),
      .arrive 9,.read 4 9 [.amount 1,.amount 8,.nothing],.update,.arrive 100,.read 0 8 [.amount 100],.update].foldlM
        (Wire.step fun pos => pos.toUInt8 * 7) (Wire.start (some 3) (uint32 (10 * maxPacketLen 40))) = some w ∧ w.Delivers ∧
    w.given = [⟨0,[0,0,0,1,0],5⟩,⟨7,[0,0,0,10,7,0,0,0,3,0,0,128,0,9],14⟩] := by
  apply packets_delivered (fun pos => pos.toUInt8 * 7) (some 3) (by decide)
  intro packet member
  simp only [List.mem_cons,Wire.Event.call.injEq,PacketSocket.Call.addPacket.injEq,List.not_mem_nil,or_false,reduceCtorEq,false_or] at member
  rcases member with rfl | rfl
  · have made : Packet.ofType 0 = some ⟨0,[0,0,0,1,0],5⟩ := rfl
    exact ⟨⟨.ofType made,fun type => by cases type⟩,by decide⟩
  · have made : Packet.ofPiece 3 32768 1 [9] = some ⟨7,[0,0,0,10,7,0,0,0,3,0,0,128,0,9],14⟩ := rfl
    exact ⟨⟨.ofPiece made,fun _ => ⟨_,_,_,_,made⟩⟩,by decide⟩

end KtorrentStream.Peer
