import KtorrentStream.Utp.FlowControl
set_option autoImplicit true

namespace KtorrentStream.Utp
open KtorrentStream.Lib KtorrentStream.Util

-- How many of the distances after d and below top have their bit set in the mask.
def ackedAfter (mask : SelectiveAck) (d top : Nat) : Nat :=
  (List.range top).countP fun e => d < e && acked mask (UInt16.ofNat e)

theorem ackedAfter_succ (mask : SelectiveAck) (d top : Nat) :
    ackedAfter mask d (top + 1) = ackedAfter mask d top + (if d < top && acked mask (UInt16.ofNat top) then 1 else 0) := by
  rw [ackedAfter,List.range_succ,List.countP_append,List.countP_singleton]
  rfl

theorem ackedAfter_zero (mask : SelectiveAck) (before : top ≤ d + 1) : ackedAfter mask d top = 0 := by
  rw [ackedAfter,List.countP_eq_zero]
  intro e small
  have bound := List.mem_range.mp small
  simp only [Bool.and_eq_true,decide_eq_true_eq,not_and]
  intro after
  omega

theorem ackedAfter_mono (mask : SelectiveAck) (d : Nat) (shorter : top ≤ top') : ackedAfter mask d top ≤ ackedAfter mask d top' := by
  induction shorter with
  | refl => exact Nat.le_refl _
  | step _ ih =>
      rw [ackedAfter_succ]
      exact Nat.le_trans ih (Nat.le_add_right _ _)

-- The scan stops at the third bit it finds: three bits lie after d if and only if
-- this one does.
theorem lostFrom_iff (mask : SelectiveAck) (d top count : Nat) (few : count < 3) (short : top ≤ 65536) :
    d < (lostFrom mask top count).toNat ↔ 3 ≤ count + ackedAfter mask d top := by
  induction top generalizing count with
  | zero =>
      rw [ackedAfter_zero mask (by omega)]
      show d < 0 ↔ _
      omega
  | succ top ih =>
      have value : (UInt16.ofNat top).toNat = top := by
        rw [UInt16.toNat_ofNat']
        omega
      rw [lostFrom,ackedAfter_succ]
      cases bit : acked mask (UInt16.ofNat top) with
      | false =>
          simp only [Bool.false_eq_true,if_false,Bool.and_false,Nat.add_zero]
          exact ih count few (by omega)
      | true =>
          simp only [if_true,Bool.and_true,decide_eq_true_eq]
          obtain after | before := Nat.lt_or_ge d top
          · rw [if_pos after]
            split
            · rw [value]
              omega
            · rw [ih (count + 1) (by omega) (by omega)]
              omega
          · have none : ackedAfter mask d top = 0 := ackedAfter_zero mask (by omega)
            rw [none,if_neg (Nat.not_lt.mpr before)]
            split
            · rw [value]
              omega
            · rw [ih (count + 1) (by omega) (by omega),none]
              omega

-- The scan starts at 8 * length - 1, two below the last bit of the mask.
theorem lost_iff (mask : SelectiveAck) (d : UInt16) : d < lost mask ↔ 3 ≤ ackedAfter mask d.toNat (mask.length.toNat * 8) := by
  have bound := mask.length.toNat_lt
  rw [UInt16.lt_iff_toNat_lt,lost,lostFrom_iff mask d.toNat _ 0 (by omega) (by omega),Nat.zero_add]

-- The calls of retransmit that are made for the packets of a list, one after the
-- other. A packet that the transmitter does not take stays as it is.
inductive Retransmits (now : UInt64) : World → List UnackedPacket → List Bool → World → List UnackedPacket → Prop where
  | done : Retransmits now w [] [] w []
  | passed (rest : Retransmits now w packets calls w' packets') :
      Retransmits now w (p :: packets) (false :: calls) w' (p :: packets')
  | taken (result : retransmit p.packet p.seqNr w = .ok packet w₁) (rest : Retransmits now w₁ packets calls w' packets') :
      Retransmits now w (p :: packets) (true :: calls) w'
        ({p with packet,sendTime := now,retransmitted := true} :: packets')
  | refused (result : retransmit p.packet p.seqNr w = .error .transmissionError w₁)
      (rest : Retransmits now w₁ packets calls w' packets') :
      Retransmits now w (p :: packets) (true :: calls) w' (p :: packets')

theorem Retransmits.append (first : Retransmits now w packets calls w₁ packets')
    (rest : Retransmits now w₁ later calls' w₂ later') :
    Retransmits now w (packets ++ later) (calls ++ calls') w₂ (packets' ++ later') := by
  induction first with
  | done => exact rest
  | passed _ ih => exact .passed (ih rest)
  | taken result _ ih => exact .taken result (ih rest)
  | refused result _ ih => exact .refused result (ih rest)

theorem Retransmits.none (now : UInt64) (w : World) (packets : List UnackedPacket) :
    Retransmits now w packets (packets.map fun _ => false) w packets := by
  induction packets with
  | nil => exact .done
  | cons p rest ih => exact .passed ih

theorem Retransmits.length (ran : Retransmits now w packets calls w' packets') : calls.length = packets.length := by
  induction ran with
  | done => rfl
  | passed _ ih => exact congrArg (· + 1) ih
  | taken _ _ ih => exact congrArg (· + 1) ih
  | refused _ _ ih => exact congrArg (· + 1) ih

-- A packet may be transmitted again if it has not been yet, or has waited for the
-- timeout.
def UnackedPacket.due (p : UnackedPacket) (now : UInt64) (timeout : UInt32) : Bool :=
  !p.retransmitted || now - p.sendTime > timeout.toUInt64

def firstRule (hdr : Header) (count : UInt32) (p : UnackedPacket) : Bool :=
  count ≥ 3 && p.seqNr.toNat == hdr.ackNr.toNat + 1

def maskRule (hdr : Header) (sack : Option SelectiveAck) (p : UnackedPacket) : Bool :=
  match sack with
  | none => false
  | some mask => p.seqNr - hdr.ackNr < lost mask

def lostCalls (hdr : Header) (sack : Option SelectiveAck) (count : UInt32) (now : UInt64) (timeout : UInt32) :
    List UnackedPacket → List Bool
  | [] => []
  | p :: rest =>
      ((firstRule hdr count p || maskRule hdr sack p) && p.due now timeout) ::
        rest.map fun p => maskRule hdr sack p && p.due now timeout

structure Untouched (w w' : World) : Prop where
  remoteWnd : w'.conn.remoteWnd = w.conn.remoteWnd
  timeout : w'.conn.stats.timeout = w.conn.stats.timeout

theorem Untouched.trans (ab : Untouched a b) (bc : Untouched b c) : Untouched a c :=
  ⟨bc.remoteWnd.trans ab.remoteWnd,bc.timeout.trans ab.timeout⟩

theorem transmit_untouched (datagram : List UInt8) : Moves Untouched (transmit datagram) := by
  intro w
  refine wp_mono (transmit_spec datagram w) ?_ ?_
  · rintro _ w' rfl
    exact ⟨rfl,rfl⟩
  · rintro e w' ⟨_,_,rfl⟩
    exact ⟨rfl,rfl⟩

theorem sendDataPacket_untouched (packet : PacketBuffer) (seqNr : UInt16) (now : TimeValue) :
    Moves Untouched (sendDataPacket packet seqNr now) := by
  intro w
  simp only [sendDataPacket,getConn,modifyStats,modifyConn,wp_bind,wp_get,wp_pure,wp_modify]
  split
  · exact ⟨rfl,rfl⟩
  · exact ⟨rfl,rfl⟩
  · rw [wp_bind]
    refine wp_mono (transmit_untouched _ _) (fun _ w' moved => ?_) (fun _ w' moved => ⟨moved.remoteWnd,moved.timeout⟩)
    exact ⟨moved.remoteWnd,moved.timeout⟩

theorem retransmit_untouched (packet : PacketBuffer) (seqNr : UInt16) : Moves Untouched (retransmit packet seqNr) := by
  refine Moves.bind Untouched.trans (fun w => ⟨rfl,rfl⟩) fun now => ?_
  refine Moves.bind Untouched.trans (sendDataPacket_untouched packet seqNr now) fun filled => ?_
  exact Moves.bind Untouched.trans (fun w => ⟨rfl,rfl⟩) fun _ w => ⟨rfl,rfl⟩

-- With room in front of its payload, only the transmitter can stop a packet.
theorem retransmit_roomy {packet : PacketBuffer} (roomy : packet.Roomy) (seqNr : UInt16) (w : World) :
    wp (retransmit packet seqNr) (fun _ _ => True) (fun e _ => e = .transmissionError) w := by
  obtain ⟨off,payload,room⟩ := roomy
  simp only [retransmit,timeNow,wp_bind,wp_get,wp_set,wp_pure]
  refine wp_mono (sendDataPacket_spec packet seqNr _ _ payload ?_) (fun _ _ _ => trivial) (fun _ _ failed => failed.1)
  have bound := extensionLength_le w.conn
  show 20 + w.conn.extensionLength.toNat ≤ off
  omega

theorem retransmitLost_calls (now : UInt64) (p : UnackedPacket) (w : World) :
    wp (retransmitLost now p) (fun p' w' => Retransmits now w [p] [true] w' [p'] ∧ Untouched w w')
      (fun _ _ => ¬ p.packet.Roomy) w := by
  have untouched := retransmit_untouched p.packet p.seqNr w
  have stopped := fun roomy : p.packet.Roomy => retransmit_roomy roomy p.seqNr w
  rw [retransmitLost,wp_tryCatch,wp_bind]
  rw [wp] at untouched ⊢
  cases result : retransmit p.packet p.seqNr w with
  | ok packet w' =>
      rw [result] at untouched
      exact ⟨.taken result .done,untouched⟩
  | error e w' =>
      rw [result] at untouched
      cases e with
      | transmissionError => exact ⟨.refused result .done,untouched⟩
      | undefined =>
          intro roomy
          cases wp_error (stopped roomy) result

theorem wp_lostCondition : wp (lostCondition now p) Q E w ↔ Q (p.due now w.conn.stats.timeout) w := Iff.rfl

theorem lostLoop_calls (mask : SelectiveAck) (packets : List UnackedPacket) (w : World) :
    wp (lostLoop hdr.ackNr (lost mask) now packets)
      (fun result w' =>
        Retransmits now w packets (packets.map fun p => maskRule hdr (some mask) p && p.due now w.conn.stats.timeout) w' result.1 ∧
        Untouched w w' ∧ result.2 = (packets.map fun p => maskRule hdr (some mask) p && p.due now w.conn.stats.timeout).any id)
      (fun _ _ => ∃ p ∈ packets, ¬ p.packet.Roomy) w := by
  induction packets generalizing w with
  | nil => exact ⟨.done,⟨rfl,rfl⟩,rfl⟩
  | cons p rest ih =>
      have deeper : (∃ q ∈ rest, ¬ q.packet.Roomy) → ∃ q ∈ p :: rest, ¬ q.packet.Roomy :=
        fun ⟨q,among,cramped⟩ => ⟨q,List.mem_cons_of_mem p among,cramped⟩
      rw [lostLoop,wp_bind,wp_lostCondition]
      split
      · rename_i chosen
        have call : (maskRule hdr (some mask) p && p.due now w.conn.stats.timeout) = true := by
          rw [maskRule,decide_eq_true chosen.1,chosen.2]
          rfl
        rw [wp_bind]
        refine wp_mono (retransmitLost_calls now p w) ?_ (fun _ _ cramped => ⟨p,List.mem_cons_self,cramped⟩)
        rintro p' w₁ ⟨here,untouched⟩
        rw [wp_bind]
        refine wp_mono (ih w₁) ?_ (fun _ _ cramped => deeper cramped)
        rintro ⟨rest',lost⟩ w₂ ⟨there,untouched',_⟩
        rw [untouched.timeout] at there
        refine ⟨?_,untouched.trans untouched',?_⟩
        · rw [List.map_cons,call]
          exact here.append there
        · rw [List.map_cons,call]
          rfl
      · rename_i spared
        have call : (maskRule hdr (some mask) p && p.due now w.conn.stats.timeout) = false := by
          rw [Bool.and_eq_false_iff]
          by_contra both
          simp only [not_or,Bool.not_eq_false] at both
          exact spared ⟨of_decide_eq_true both.1,both.2⟩
        rw [wp_bind]
        refine wp_mono (ih w) ?_ (fun _ _ cramped => deeper cramped)
        rintro ⟨rest',lost⟩ w₂ ⟨there,untouched,any⟩
        refine ⟨?_,untouched,?_⟩
        · rw [List.map_cons,call]
          exact .passed there
        · rw [List.map_cons,call]
          exact any

theorem maskRule_spared (unmasked : ∀ mask, sack = some mask → ¬ lost mask > 0) (p : UnackedPacket) : maskRule hdr sack p = false := by
  cases sack with
  | none => rfl
  | some mask =>
      have zero := UInt16.le_zero_iff.mp (UInt16.not_lt.mp (unmasked mask rfl))
      rw [maskRule,zero,decide_eq_false_iff_not]
      exact UInt16.not_lt_zero

theorem mask_calls {finish : List UnackedPacket × Bool → Act Unit} (hdr : Header) (sack : Option SelectiveAck)
    (packets : List UnackedPacket) (w : World)
    (finished : ∀ packets' w',
      Retransmits now w packets (packets.map fun p => maskRule hdr sack p && p.due now w.conn.stats.timeout) w' packets' →
      Untouched w w' →
      wp (finish (packets',(packets.map fun p => maskRule hdr sack p && p.due now w.conn.stats.timeout).any id)) Q E w')
    (cramped : ∀ e w', (∃ p ∈ packets, ¬ p.packet.Roomy) → E e w') :
    wp (match sack with
        | none => do
            let result ← pure (packets,false)
            finish result
        | some mask =>
            if lost mask > 0 then do
              let result ← lostLoop hdr.ackNr (lost mask) now packets
              finish result
            else do
              let result ← pure (packets,false)
              finish result) Q E w := by
  have spared : (∀ mask, sack = some mask → ¬ lost mask > 0) → wp (finish (packets,false)) Q E w := by
    intro unmasked
    have same := finished packets w
    simp only [maskRule_spared unmasked,Bool.false_and] at same
    have none : (packets.map fun _ => false).any id = false := by simp
    rw [none] at same
    exact same (.none now w packets) ⟨rfl,rfl⟩
  cases sack with
  | none => exact spared (by rintro mask ⟨⟩)
  | some mask =>
      dsimp only
      split
      · rw [wp_bind]
        refine wp_mono (lostLoop_calls mask packets w) ?_ cramped
        rintro ⟨packets',_⟩ w' ⟨ran,untouched,rfl⟩
        exact finished packets' w' ran untouched
      · rename_i unmasked
        exact spared (by rintro _ ⟨⟩; exact unmasked)

theorem firstLost_calls (p : UnackedPacket) (rest : List UnackedPacket) (w : World) :
    wp (firstLost hdr now count (p :: rest))
      (fun result w' => ∃ front calls,
        p :: rest = front ++ result.2.1 ∧ Retransmits now w front calls w' result.1 ∧ Untouched w w' ∧ result.2.2 = calls.any id ∧
        ∀ sack, lostCalls hdr sack count now w.conn.stats.timeout (p :: rest) =
          calls ++ result.2.1.map fun p => maskRule hdr sack p && p.due now w.conn.stats.timeout)
      (fun _ _ => ¬ p.packet.Roomy) w := by
  rw [firstLost]
  split
  · rename_i follows
    have rule : firstRule hdr count p = true := by
      rw [firstRule,decide_eq_true follows.1,follows.2]
      simp
    rw [wp_bind,wp_lostCondition]
    split
    · rename_i due
      rw [wp_bind]
      refine wp_mono (retransmitLost_calls now p w) ?_ (fun _ _ cramped => cramped)
      rintro p' w' ⟨ran,untouched⟩
      refine ⟨[p],[true],rfl,ran,untouched,rfl,fun sack => ?_⟩
      rw [lostCalls,rule,due]
      rfl
    · rename_i waiting
      refine ⟨[p],[false],rfl,.passed .done,⟨rfl,rfl⟩,rfl,fun sack => ?_⟩
      rw [lostCalls,Bool.eq_false_iff.mpr waiting,Bool.and_false]
      rfl
  · rename_i other
    have rule : firstRule hdr count p = false := by
      rw [firstRule,Bool.and_eq_false_iff]
      by_contra both
      simp only [not_or,Bool.not_eq_false,decide_eq_true_eq,beq_iff_eq] at both
      exact other both
    refine ⟨[],[],rfl,.done,⟨rfl,rfl⟩,rfl,fun sack => ?_⟩
    rw [lostCalls,rule,Bool.false_or]
    rfl

-- The calls are those of lostCalls, and max_window shrinks if there is one.
theorem checkLostPackets_calls (hdr : Header) (sack : Option SelectiveAck) (w : World) :
    wp (checkLostPackets hdr sack)
      (fun _ w' => ∃ w₂ packets' calls,
        calls = lostCalls hdr sack w.conn.remoteWnd.lastAckReceiveCount (w.clock w.ticks).toTimeStamp w.conn.stats.timeout
          w.conn.remoteWnd.unackedPackets ∧
        Retransmits (w.clock w.ticks).toTimeStamp {w with ticks := w.ticks + 1} w.conn.remoteWnd.unackedPackets calls w₂ packets' ∧
        Untouched w w₂ ∧
        w' = {w₂ with conn := {w₂.conn with remoteWnd := {w.conn.remoteWnd with
          unackedPackets := packets'
          maxWindow := if calls.any id then UInt32.ofNat ((78 * w.conn.remoteWnd.maxWindow.toNat + 50) / 100)
            else w.conn.remoteWnd.maxWindow}}})
      (fun _ _ => ∃ p ∈ w.conn.remoteWnd.unackedPackets, ¬ p.packet.Roomy) w := by
  simp only [checkLostPackets,timeNow,getConn,modifyRemote,modifyConn,wp_bind,wp_get,wp_set,wp_pure]
  cases packets : w.conn.remoteWnd.unackedPackets with
  | nil =>
      refine mask_calls hdr sack [] _ ?_ ?_
      · rintro _ w' ⟨⟩ untouched
        refine ⟨_,[],[],rfl,.done,⟨rfl,rfl⟩,rfl⟩
      · rintro _ _ ⟨p,none,_⟩
        cases none
  | cons p rest =>
      refine wp_mono (firstLost_calls p rest _) ?_ (fun _ _ cramped => ⟨p,List.mem_cons_self,cramped⟩)
      rintro ⟨first,later,lostFirst⟩ w₁ ⟨front,calls,divided,ran,untouched,any,whole⟩
      refine mask_calls hdr sack later w₁ ?_ ?_
      · rintro later' w₂ ran' untouched'
        rw [untouched.timeout] at ran'
        have kept := untouched.trans untouched'
        refine ⟨w₂,first ++ later',_,rfl,?_,⟨kept.remoteWnd,kept.timeout⟩,?_⟩
        · rw [whole sack,divided]
          exact ran.append ran'
        · have window : w₂.conn.remoteWnd = w.conn.remoteWnd := kept.remoteWnd
          rw [whole sack,List.any_append,← any,← untouched.timeout,← window]
      · rintro _ _ ⟨q,among,cramped⟩
        exact ⟨q,divided ▸ List.mem_append_right front among,cramped⟩

-- last_ack_receive_count and the whole window after a packet has been taken in.
def RemoteWindow.heard (r : RemoteWindow) (hdr : Header) : UInt32 :=
  if hdr.ackNr = r.lastAckNr then
    if hdr.type = stState then r.lastAckReceiveCount + 1 else r.lastAckReceiveCount
  else 1

def RemoteWindow.noting (r : RemoteWindow) (hdr : Header) (sack : Option SelectiveAck) : RemoteWindow where
  curWindow := (ackPackets hdr sack r.unackedPackets).1.foldl (fun cur p => cur - UInt32.ofNat p.packet.payloadSize) r.curWindow
  maxWindow := r.maxWindow
  wndSize := hdr.wndSize
  unackedPackets := (ackPackets hdr sack r.unackedPackets).2
  lastAckNr := hdr.ackNr
  lastAckReceiveCount := r.heard hdr

def Connection.timed (c : Connection) (now : UInt64) (gone : List UnackedPacket) : Connection :=
  gone.foldl (fun c p => c.updateRTT (now - p.sendTime).toUInt32 (UInt32.ofNat p.packet.payloadSize)) c

theorem timed_remoteWnd (c : Connection) (now : UInt64) (gone : List UnackedPacket) (remoteWnd : RemoteWindow) :
    {Connection.timed {c with remoteWnd} now gone with remoteWnd := remoteWnd'} =
      {c.timed now gone with remoteWnd := remoteWnd'} := by
  induction gone generalizing c with
  | nil => rfl
  | cons p gone ih => exact ih (c.updateRTT (now - p.sendTime).toUInt32 (UInt32.ofNat p.packet.payloadSize))

def World.noted (w : World) (hdr : Header) (sack : Option SelectiveAck) : World :=
  {w with
    ticks := w.ticks + 1
    advertised := hdr.wndSize
    conn := {w.conn.timed (w.clock w.ticks).toTimeStamp (ackPackets hdr sack w.conn.remoteWnd.unackedPackets).1 with
      remoteWnd := w.conn.remoteWnd.noting hdr sack}}

theorem remotePacketReceived_eq (hdr : Header) (sack : Option SelectiveAck) (w : World) :
    remotePacketReceived hdr sack w =
      (if (w.noted hdr sack).conn.remoteWnd.unackedPackets.isEmpty then pure () else checkLostPackets hdr sack) (w.noted hdr sack) := by
  have counted : (if hdr.ackNr = w.conn.remoteWnd.lastAckNr then
        if hdr.type = stState then
          {w.conn.remoteWnd with lastAckReceiveCount := w.conn.remoteWnd.lastAckReceiveCount + 1}
        else w.conn.remoteWnd
      else {w.conn.remoteWnd with lastAckNr := hdr.ackNr,lastAckReceiveCount := 1}) =
      {w.conn.remoteWnd with lastAckNr := hdr.ackNr,lastAckReceiveCount := w.conn.remoteWnd.heard hdr} := by
    rw [RemoteWindow.heard]
    split
    · rename_i again
      rw [again]
      split <;> rfl
    · rfl
  simp only [remotePacketReceived,modifyRemote,modifyConn]
  show (do
    if (← getConn).remoteWnd.unackedPackets.isEmpty then return
    checkLostPackets hdr sack : Act Unit) _ = _
  dsimp only
  rw [counted]
  exact congrArg (fun conn => (if conn.remoteWnd.unackedPackets.isEmpty then pure () else checkLostPackets hdr sack : Act Unit)
    {w with ticks := w.ticks + 1,advertised := hdr.wndSize,conn}) (timed_remoteWnd w.conn _ _ _)

-- The calls of retransmit between two worlds, for the packets that the first one is
-- left with: nothing else is given to the transmitter.
def Calls (w : World) (packets : List UnackedPacket) (calls : List Bool) (w' : World) : Prop :=
  ∃ now w₁ w₂, Retransmits now w₁ packets calls w₂ w'.conn.remoteWnd.unackedPackets ∧
    (w₁.sent = w.sent ∧ w₁.refused = w.refused ∧ w₁.attempts = w.attempts) ∧
    (w'.sent = w₂.sent ∧ w'.refused = w₂.refused ∧ w'.attempts = w₂.attempts)

theorem noted_calls (hdr : Header) (sack : Option SelectiveAck) (w : World) :
    wp (remotePacketReceived hdr sack)
      (fun _ w' => Calls w (ackPackets hdr sack w.conn.remoteWnd.unackedPackets).2
        (lostCalls hdr sack (w.conn.remoteWnd.heard hdr) (w.clock (w.ticks + 1)).toTimeStamp (w.noted hdr sack).conn.stats.timeout
          (ackPackets hdr sack w.conn.remoteWnd.unackedPackets).2) w')
      (fun _ _ => ∃ p ∈ w.conn.remoteWnd.unackedPackets, ¬ p.packet.Roomy) w := by
  rw [wp,remotePacketReceived_eq]
  show wp (if _ then _ else _) _ _ (w.noted hdr sack)
  split
  · rename_i none
    have empty : (ackPackets hdr sack w.conn.remoteWnd.unackedPackets).2 = [] := List.isEmpty_iff.mp none
    rw [wp_pure,empty]
    refine ⟨0,w,w,?_,⟨rfl,rfl,rfl⟩,rfl,rfl,rfl⟩
    show Retransmits 0 w [] [] w (ackPackets hdr sack w.conn.remoteWnd.unackedPackets).2
    rw [empty]
    exact .done
  · refine wp_mono (checkLostPackets_calls hdr sack (w.noted hdr sack)) ?_ ?_
    · rintro _ w' ⟨w₂,packets',calls,rfl,ran,_,rfl⟩
      exact ⟨_,_,w₂,ran,⟨rfl,rfl,rfl⟩,rfl,rfl,rfl⟩
    · rintro _ _ ⟨p,among,cramped⟩
      exact ⟨p,(ackPackets_left _ _ _).subset among,cramped⟩

-- The rule for the packet at place i of the list: three bits of the mask are set
-- after its own, or it is the first one, follows ack_nr, and ack_nr has come three
-- times.
def Lost (hdr : Header) (sack : Option SelectiveAck) (count : UInt32) (i : Nat) (p : UnackedPacket) : Prop :=
  (∃ mask, sack = some mask ∧ 3 ≤ ackedAfter mask (p.seqNr - hdr.ackNr).toNat (8 * mask.length.toNat + 2)) ∨
  (i = 0 ∧ p.seqNr = hdr.ackNr + 1 ∧ count ≥ 3)

-- The two highest bits of the mask are needed to reach three, and the packet is not
-- found by its place.
def NeedsTopBits (hdr : Header) (sack : Option SelectiveAck) (count : UInt32) (i : Nat) (p : UnackedPacket) : Prop :=
  (∃ mask, sack = some mask ∧ 3 ≤ ackedAfter mask (p.seqNr - hdr.ackNr).toNat (8 * mask.length.toNat + 2) ∧
    ackedAfter mask (p.seqNr - hdr.ackNr).toNat (8 * mask.length.toNat) < 3) ∧
  ¬ (i = 0 ∧ p.seqNr = hdr.ackNr + 1 ∧ hdr.ackNr ≠ 65535 ∧ count ≥ 3)

-- The packet has the number 0 and follows 65535, and the mask does not help.
def NeedsWrap (hdr : Header) (sack : Option SelectiveAck) (count : UInt32) (i : Nat) (p : UnackedPacket) : Prop :=
  (i = 0 ∧ p.seqNr = 0 ∧ hdr.ackNr = 65535 ∧ count ≥ 3) ∧
  ∀ mask, sack = some mask → ackedAfter mask (p.seqNr - hdr.ackNr).toNat (8 * mask.length.toNat) < 3

theorem lostCalls_at {packets : List UnackedPacket} (present : packets[i]? = some p) (fresh : p.retransmitted = false) :
    (lostCalls hdr sack count now timeout packets)[i]? = some ((i == 0 && firstRule hdr count p) || maskRule hdr sack p) := by
  have due : p.due now timeout = true := by
    rw [UnackedPacket.due,fresh]
    rfl
  cases packets with
  | nil => cases present
  | cons q rest =>
      cases i with
      | zero =>
          cases present
          simp only [lostCalls,List.getElem?_cons_zero,due,Bool.and_true,beq_self_eq_true,Bool.true_and]
      | succ i =>
          rw [List.getElem?_cons_succ] at present
          simp only [lostCalls,List.getElem?_cons_succ,List.getElem?_map,present,Option.map_some,due,Bool.and_true]
          rfl

theorem maskRule_iff (hdr : Header) (sack : Option SelectiveAck) (p : UnackedPacket) :
    maskRule hdr sack p = true ↔
      ∃ mask, sack = some mask ∧ 3 ≤ ackedAfter mask (p.seqNr - hdr.ackNr).toNat (8 * mask.length.toNat) := by
  cases sack with
  | none => simp [maskRule]
  | some mask =>
      rw [maskRule,decide_eq_true_eq,lost_iff,Nat.mul_comm]
      simp

-- The comparison of ints misses nothing but the step from 65535 to 0.
theorem firstRule_iff (hdr : Header) (count : UInt32) (p : UnackedPacket) :
    firstRule hdr count p = true ↔ p.seqNr = hdr.ackNr + 1 ∧ hdr.ackNr ≠ 65535 ∧ count ≥ 3 := by
  have bound := hdr.ackNr.toNat_lt
  have bound' := p.seqNr.toNat_lt
  have last : hdr.ackNr ≠ 65535 ↔ hdr.ackNr.toNat ≠ 65535 := UInt16.toNat_inj.symm.not
  have one : (1 : UInt16).toNat = 1 := rfl
  have next : p.seqNr = hdr.ackNr + 1 ↔ p.seqNr.toNat = (hdr.ackNr.toNat + 1) % 65536 := by
    rw [← UInt16.toNat_inj,UInt16.toNat_add,one]
  rw [firstRule,Bool.and_eq_true,decide_eq_true_eq,beq_iff_eq,next,last]
  constructor
  · rintro ⟨enough,follows⟩
    exact ⟨by omega,by omega,enough⟩
  · rintro ⟨follows,inner,enough⟩
    exact ⟨enough,by omega⟩

theorem called_iff (hdr : Header) (sack : Option SelectiveAck) (count : UInt32) (i : Nat) (p : UnackedPacket) :
    ((((i == 0 && firstRule hdr count p) || maskRule hdr sack p) = true) ↔ Lost hdr sack count i p) ↔
      ¬ (NeedsTopBits hdr sack count i p ∨ NeedsWrap hdr sack count i p) := by
  generalize distance : (p.seqNr - hdr.ackNr).toNat = d
  have found := maskRule_iff hdr sack p
  have more : (∃ mask, sack = some mask ∧ 3 ≤ ackedAfter mask d (8 * mask.length.toNat)) →
      ∃ mask, sack = some mask ∧ 3 ≤ ackedAfter mask d (8 * mask.length.toNat + 2) :=
    fun ⟨mask,given,enough⟩ => ⟨mask,given,Nat.le_trans enough (ackedAfter_mono mask d (by omega))⟩
  have few : (∀ mask, sack = some mask → ackedAfter mask d (8 * mask.length.toNat) < 3) ↔
      ¬ ∃ mask, sack = some mask ∧ 3 ≤ ackedAfter mask d (8 * mask.length.toNat) := by
    simp only [not_exists,not_and,Nat.not_le]
  have top : (∃ mask, sack = some mask ∧ 3 ≤ ackedAfter mask d (8 * mask.length.toNat + 2) ∧
        ackedAfter mask d (8 * mask.length.toNat) < 3) ↔
      (∃ mask, sack = some mask ∧ 3 ≤ ackedAfter mask d (8 * mask.length.toNat + 2)) ∧
        ¬ ∃ mask, sack = some mask ∧ 3 ≤ ackedAfter mask d (8 * mask.length.toNat) := by
    rw [← few]
    cases sack <;> simp
  have wrap : hdr.ackNr = 65535 → (p.seqNr = 0 ↔ p.seqNr = hdr.ackNr + 1) := by
    intro last
    rw [last]
    rfl
  rw [distance] at found
  rw [Bool.or_eq_true,Bool.and_eq_true,beq_iff_eq,firstRule_iff,found,Lost,NeedsTopBits,NeedsWrap,distance,top,few]
  generalize (∃ mask, sack = some mask ∧ 3 ≤ ackedAfter mask d (8 * mask.length.toNat)) = low at *
  generalize (∃ mask, sack = some mask ∧ 3 ≤ ackedAfter mask d (8 * mask.length.toNat + 2)) = all at *
  constructor
  · intro agree
    rintro (⟨⟨enough,unseen⟩,other⟩ | ⟨⟨first,zero,last,count⟩,unseen⟩)
    · obtain found | seen := agree.mpr (.inl enough)
      · exact other found
      · exact unseen seen
    · obtain ⟨_,_,inner,_⟩ | seen := agree.mpr (.inr ⟨first,(wrap last).mp zero,count⟩)
      · exact inner last
      · exact unseen seen
  · intro spared
    constructor
    · rintro (⟨first,follows,_,count⟩ | seen)
      · exact .inr ⟨first,follows,count⟩
      · exact .inl (more seen)
    · intro rule
      by_contra missed
      have unseen : ¬ low := fun seen => missed (.inr seen)
      apply spared
      obtain enough | ⟨first,follows,count⟩ := rule
      · exact .inl ⟨⟨enough,unseen⟩,fun found => missed (.inl found)⟩
      · by_cases last : hdr.ackNr = 65535
        · exact .inr ⟨⟨first,(wrap last).mpr follows,last,count⟩,unseen⟩
        · exact absurd (.inl ⟨first,follows,last,count⟩) missed

-- For every packet that an acknowledgement leaves on the list.
theorem loss_detection (hdr : Header) (sack : Option SelectiveAck) (w : World) :
    wp (remotePacketReceived hdr sack)
      (fun _ w' => ∃ calls, Calls w (ackPackets hdr sack w.conn.remoteWnd.unackedPackets).2 calls w' ∧
        ∀ i p, (ackPackets hdr sack w.conn.remoteWnd.unackedPackets).2[i]? = some p → p.retransmitted = false →
          ((calls[i]? = some true ↔ Lost hdr sack (w.conn.remoteWnd.heard hdr) i p) ↔
            ¬ (NeedsTopBits hdr sack (w.conn.remoteWnd.heard hdr) i p ∨ NeedsWrap hdr sack (w.conn.remoteWnd.heard hdr) i p)))
      (fun _ _ => ∃ p ∈ w.conn.remoteWnd.unackedPackets, ¬ p.packet.Roomy) w := by
  refine wp_mono (noted_calls hdr sack w) ?_ (fun _ _ cramped => cramped)
  intro _ w' made
  refine ⟨_,made,?_⟩
  intro i p present fresh
  rw [lostCalls_at present fresh,Option.some_inj]
  exact called_iff hdr sack _ i p

-- Nine packets in flight, and a mask of one byte that says that 7, 8 and 9 have come.
def topBits : SelectiveAck := ⟨0,1,[224],rfl⟩

def topBitsHeader : Header := ⟨1,stState,selectiveAckId,8,0,0,5000,1,1⟩

def nineInFlight : World := performAll shakenHands.sender (List.replicate 9 (.send [1]))

theorem top_bits_overlooked :
    (∃ p, (ackPackets topBitsHeader (some topBits) nineInFlight.conn.remoteWnd.unackedPackets).2[0]? = some p ∧
      p.retransmitted = false ∧ Lost topBitsHeader (some topBits) (nineInFlight.conn.remoteWnd.heard topBitsHeader) 0 p) ∧
    (after (remotePacketReceived topBitsHeader (some topBits)) nineInFlight).attempts = nineInFlight.attempts ∧
    (after (remotePacketReceived topBitsHeader (some topBits)) nineInFlight).conn.remoteWnd.unackedPackets.map
      (fun p => (p.seqNr,p.retransmitted)) = [(2,false),(3,false),(4,false),(5,false),(6,false),(7,false)] := by
  have first : ((ackPackets topBitsHeader (some topBits) nineInFlight.conn.remoteWnd.unackedPackets).2[0]?).map
      (fun p => (p.seqNr,p.retransmitted)) = some (2,false) := by decide +kernel
  refine ⟨?_,by decide +kernel,by decide +kernel⟩
  obtain ⟨p,present,same⟩ := Option.map_eq_some_iff.mp first
  obtain ⟨number,fresh⟩ := Prod.mk.inj same
  refine ⟨p,present,fresh,.inl ⟨topBits,rfl,?_⟩⟩
  rw [number]
  decide

end KtorrentStream.Utp
