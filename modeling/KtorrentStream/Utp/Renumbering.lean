import KtorrentStream.Utp.LossDetection
import KtorrentStream.Utp.SelectiveAck
set_option autoImplicit true

namespace KtorrentStream.Utp
open KtorrentStream.Lib KtorrentStream.Util

-- The same state with all sequence numbers k higher.
def UnackedPacket.shift (k : UInt16) (p : UnackedPacket) : UnackedPacket := {p with seqNr := p.seqNr + k}

def RemoteWindow.shift (k : UInt16) (r : RemoteWindow) : RemoteWindow :=
  {r with unackedPackets := r.unackedPackets.map (UnackedPacket.shift k),lastAckNr := r.lastAckNr + k}

def World.shift (k : UInt16) (w : World) : World := {w with conn := {w.conn with remoteWnd := w.conn.remoteWnd.shift k}}

def Header.shift (k : UInt16) (hdr : Header) : Header := {hdr with ackNr := hdr.ackNr + k}

-- A packet and its counterpart, and so for what is transmitted of them. The buffers
-- keep the headers of the last transmission, so only their payloads are the same.
structure Renumbered (k : UInt16) (p p' : UnackedPacket) : Prop where
  seqNr : p'.seqNr = p.seqNr + k
  payload : p'.packet.payload = p.packet.payload
  payloadBytes : p'.packet.payloadBytes = p.packet.payloadBytes
  sendTime : p'.sendTime = p.sendTime
  retransmitted : p'.retransmitted = p.retransmitted

def RenumberedData (k : UInt16) (bytes bytes' : List UInt8) : Prop :=
  ∃ parser, parse bytes = .accepted parser ∧
    parse bytes' = .accepted {parser with header := {parser.header with seqNr := parser.header.seqNr + k}} ∧
    bytes'.drop parser.dataOffset = bytes.drop parser.dataOffset

-- Two logs have gone on from the same one, entry by entry alike.
def GrowAlike (R : α → α → Prop) (base log log' : List α) : Prop :=
  ∃ new new', log = base ++ new ∧ log' = base ++ new' ∧ List.Forall₂ R new new'

-- What the call does to the shifted state is the shift of what it does to the state:
-- w is the world before, done and done' are the worlds after.
structure Invisible (k : UInt16) (w done done' : World) : Prop where
  packets : List.Forall₂ (Renumbered k) done.conn.remoteWnd.unackedPackets done'.conn.remoteWnd.unackedPackets
  lastAckNr : done'.conn.remoteWnd.lastAckNr = done.conn.remoteWnd.lastAckNr + k
  lastAckReceiveCount : done'.conn.remoteWnd.lastAckReceiveCount = done.conn.remoteWnd.lastAckReceiveCount
  curWindow : done'.conn.remoteWnd.curWindow = done.conn.remoteWnd.curWindow
  maxWindow : done'.conn.remoteWnd.maxWindow = done.conn.remoteWnd.maxWindow
  wndSize : done'.conn.remoteWnd.wndSize = done.conn.remoteWnd.wndSize
  stats : done'.conn.stats = done.conn.stats
  attempts : done'.attempts = done.attempts
  sent : GrowAlike (RenumberedData k) w.sent done.sent done'.sent
  refused : GrowAlike (fun r r' => RenumberedData k r.datagram r'.datagram) w.refused done.refused done'.refused

-- The two comparisons that are not made modulo 65536. A packet exactly 32768 after
-- ack_nr counts as acknowledged when ack_nr is the larger number.
def Turns (k ackNr : UInt16) : Prop := ¬ (ackNr < 32768 ↔ ackNr + k < 32768)

def Opposite (hdr : Header) (sack : Option SelectiveAck) (packets : List UnackedPacket) : Prop :=
  ∃ earlier p later, packets = earlier ++ p :: later ∧ p.seqNr = hdr.ackNr + 32768 ∧
    (sack = none → ∀ q ∈ earlier, seqNrCmpSE q.seqNr hdr.ackNr)

-- And the packet after 65535 is not taken for the first lost one. That shows where
-- the rule is asked for, nothing in the mask finds the packet, and it may be
-- transmitted again.
def PassesWrap (k : UInt16) (hdr : Header) (sack : Option SelectiveAck) (w : World) : Prop :=
  ¬ (hdr.ackNr = 65535 ↔ hdr.ackNr + k = 65535) ∧
  ∃ p, (ackPackets hdr sack w.conn.remoteWnd.unackedPackets).2.head? = some p ∧ p.seqNr = hdr.ackNr + 1 ∧
    w.conn.remoteWnd.heard hdr ≥ 3 ∧ (∀ mask, sack = some mask → ¬ 1 < lost mask) ∧
    p.due (w.clock (w.ticks + 1)).toTimeStamp (w.noted hdr sack).conn.stats.timeout

-- The walk of packetReceived over the list, with the two tests as parameters.
def sift (before : α → Bool) (masked : Option (α → Bool)) : List α → List α × List α
  | [] => ([],[])
  | p :: rest =>
      if before p then (p :: (sift before masked rest).1,(sift before masked rest).2)
      else match masked with
        | none => ([],p :: rest)
        | some mask =>
            if mask p then (p :: (sift before masked rest).1,(sift before masked rest).2)
            else ((sift before masked rest).1,p :: (sift before masked rest).2)

theorem ackPackets_sift (hdr : Header) (sack : Option SelectiveAck) (packets : List UnackedPacket) :
    ackPackets hdr sack packets = sift (fun p => seqNrCmpSE p.seqNr hdr.ackNr)
      (sack.map fun mask p => acked mask (p.seqNr - hdr.ackNr)) packets := by
  induction packets with
  | nil => rfl
  | cons p rest ih =>
      cases sack with
      | none => simp only [ackPackets,sift,ih,Option.map_none]
      | some mask => simp only [ackPackets,sift,ih,Option.map_some]

theorem sift_map (f : α → β) (before : β → Bool) (masked : Option (β → Bool)) (l : List α) :
    sift before masked (l.map f) =
      ((sift (fun a => before (f a)) (masked.map fun mask a => mask (f a)) l).1.map f,
        (sift (fun a => before (f a)) (masked.map fun mask a => mask (f a)) l).2.map f) := by
  induction l with
  | nil => rfl
  | cons a rest ih =>
      simp only [List.map_cons,sift,ih]
      split
      · rfl
      · cases masked with
        | none => rfl
        | some mask =>
            simp only [Option.map_some]
            split <;> rfl

-- The walk comes to an element on which two tests disagree.
inductive Differs (before before' : α → Bool) (masked : Option (α → Bool)) : List α → Prop where
  | here {p : α} {rest : List α} (differ : before p ≠ before' p) : Differs before before' masked (p :: rest)
  | later {p : α} {rest : List α} (on : masked = none → before p = true) (reached : Differs before before' masked rest) :
      Differs before before' masked (p :: rest)

theorem sift_congr {before before' : α → Bool} {masked : Option (α → Bool)} (same : ¬ Differs before before' masked l) :
    sift before' masked l = sift before masked l := by
  induction l with
  | nil => rfl
  | cons p rest ih =>
      have here : before' p = before p := by
        by_contra differ
        exact same (.here (Ne.symm differ))
      have deeper : (masked = none → before p = true) → sift before' masked rest = sift before masked rest :=
        fun on => ih fun differs => same (.later on differs)
      simp only [sift,here]
      split
      · rename_i yes
        rw [deeper fun _ => yes]
      · cases masked with
        | none => rfl
        | some mask => simp only [deeper nofun]

theorem sift_length (before : α → Bool) (masked : Option (α → Bool)) (l : List α) : (sift before masked l).2.length ≤ l.length := by
  induction l with
  | nil => exact Nat.le_refl _
  | cons p rest ih =>
      simp only [sift]
      split
      · exact Nat.le_succ_of_le ih
      · cases masked with
        | none => exact Nat.le_refl _
        | some mask =>
            dsimp only
            split
            · exact Nat.le_succ_of_le ih
            · exact Nat.succ_le_succ ih

-- Where one test takes more, and the mask none of that, it leaves fewer.
theorem sift_fewer {before before' : α → Bool} {masked : Option (α → Bool)} (more : ∀ p, before' p = true → before p = true)
    (unmasked : ∀ mask p, masked = some mask → before p = true → before' p = false → mask p = false) (l : List α) :
    (sift before masked l).2.length ≤ (sift before' masked l).2.length ∧
    (Differs before before' masked l → (sift before masked l).2.length < (sift before' masked l).2.length) := by
  induction l with
  | nil => exact ⟨Nat.le_refl _,nofun⟩
  | cons p rest ih =>
      obtain ⟨most,fewer⟩ := ih
      cases taken : before p with
      | true =>
          cases taken' : before' p with
          | true =>
              simp only [sift,taken,taken',if_true]
              refine ⟨most,fun differs => ?_⟩
              cases differs with
              | here differ => exact absurd (taken.trans taken'.symm) differ
              | later _ rest => exact fewer rest
          | false =>
              have strict : (sift before masked rest).2.length < (sift before' masked (p :: rest)).2.length := by
                simp only [sift,taken',Bool.false_eq_true,if_false]
                cases masks : masked with
                | none => exact Nat.lt_succ_of_le (sift_length before none rest)
                | some mask =>
                    simp only [unmasked mask p masks taken taken',Bool.false_eq_true,if_false]
                    rw [masks] at most
                    exact Nat.lt_succ_of_le most
              have rest : (sift before masked (p :: rest)).2 = (sift before masked rest).2 := by
                simp only [sift,taken,if_true]
              rw [rest]
              exact ⟨Nat.le_of_lt strict,fun _ => strict⟩
      | false =>
          have taken' : before' p = false := by
            by_contra yes
            rw [more p (Bool.not_eq_false _ ▸ yes)] at taken
            cases taken
          have here : ¬ before p ≠ before' p := fun differ => differ (taken.trans taken'.symm)
          simp only [sift,taken,taken',Bool.false_eq_true,if_false]
          cases masked with
          | none =>
              refine ⟨Nat.le_refl _,fun differs => ?_⟩
              cases differs with
              | here differ => exact absurd differ here
              | later on _ =>
                  rw [on rfl] at taken
                  cases taken
          | some mask =>
              dsimp only
              split
              · refine ⟨most,fun differs => ?_⟩
                cases differs with
                | here differ => exact absurd differ here
                | later _ rest => exact fewer rest
              · refine ⟨Nat.succ_le_succ most,fun differs => ?_⟩
                cases differs with
                | here differ => exact absurd differ here
                | later _ rest => exact Nat.succ_lt_succ (fewer rest)

theorem Differs.symm {before before' : α → Bool} {masked : Option (α → Bool)} (differs : Differs before before' masked l) :
    Differs before' before masked l := by
  induction differs with
  | here differ => exact .here differ.symm
  | @later p rest on _ ih =>
      by_cases same : before p = before' p
      · exact .later (fun none => same ▸ on none) ih
      · exact .here (Ne.symm same)

theorem seqNrCmpSE_iff (a b : UInt16) : seqNrCmpSE a b = true ↔ b - a < 32768 ∨ (b - a = 32768 ∧ b < 32768) := by
  have bound := a.toNat_lt
  have bound' := b.toNat_lt
  have half : (32768 : UInt16).toNat = 32768 := rfl
  rw [seqNrCmpSE,← UInt16.toNat_inj]
  simp only [seqNrDistance,UInt16.le_iff_toNat_le,gt_iff_lt,UInt16.lt_iff_toNat_lt,UInt16.toNat_sub,half]
  split <;> rw [decide_eq_true_eq] <;> omega

theorem shift_sub (a b k : UInt16) : (a + k) - (b + k) = a - b := by
  apply UInt16.toNat_inj.mp
  have bound := a.toNat_lt
  have bound' := b.toNat_lt
  have bound'' := k.toNat_lt
  simp only [UInt16.toNat_sub,UInt16.toNat_add]
  omega

-- The test changes for a packet just opposite ack_nr, and for no other.
theorem seqNrCmpSE_shift (a b k : UInt16) :
    seqNrCmpSE a b ≠ seqNrCmpSE (a + k) (b + k) ↔ a = b + 32768 ∧ Turns k b := by
  have opposite : b - a = 32768 ↔ a = b + 32768 := by
    rw [← UInt16.toNat_inj,← UInt16.toNat_inj,UInt16.toNat_sub,UInt16.toNat_add]
    have bound := a.toNat_lt
    have bound' := b.toNat_lt
    have half : (32768 : UInt16).toNat = 32768 := rfl
    omega
  rw [Turns,← opposite,ne_eq,Bool.eq_iff_iff,seqNrCmpSE_iff,seqNrCmpSE_iff,shift_sub]
  by_cases near : b - a < 32768
  · have other : b - a ≠ 32768 := by
      intro far
      rw [far] at near
      exact UInt16.lt_irrefl _ near
    simp [near,other]
  · by_cases far : b - a = 32768
    · simp [far]
    · simp [near,far]

theorem differs_iff (k : UInt16) (hdr : Header) (sack : Option SelectiveAck) (packets : List UnackedPacket) :
    Differs (fun p => seqNrCmpSE p.seqNr hdr.ackNr) (fun p => seqNrCmpSE (p.seqNr + k) (hdr.ackNr + k))
      (sack.map fun mask p => acked mask (p.seqNr - hdr.ackNr)) packets ↔ Turns k hdr.ackNr ∧ Opposite hdr sack packets := by
  constructor
  · intro differs
    induction differs with
    | @here p rest differ =>
        obtain ⟨opposite,turns⟩ := (seqNrCmpSE_shift _ _ _).mp differ
        exact ⟨turns,[],p,rest,rfl,opposite,fun _ q none => absurd none List.not_mem_nil⟩
    | @later p rest on _ ih =>
        obtain ⟨turns,earlier,q,later,rfl,opposite,before⟩ := ih
        refine ⟨turns,p :: earlier,q,later,rfl,opposite,?_⟩
        rintro rfl x among
        obtain rfl | among := List.mem_cons.mp among
        · exact on rfl
        · exact before rfl x among
  · rintro ⟨turns,earlier,p,later,rfl,opposite,before⟩
    induction earlier with
    | nil => exact .here ((seqNrCmpSE_shift _ _ _).mpr ⟨opposite,turns⟩)
    | cons q earlier ih =>
        refine .later ?_ (ih fun none x among => before none x (List.mem_cons_of_mem q among))
        intro none
        exact before (Option.map_eq_none_iff.mp none) q List.mem_cons_self

theorem ackPackets_shift (k : UInt16) (hdr : Header) (sack : Option SelectiveAck) (packets : List UnackedPacket) :
    ackPackets (hdr.shift k) sack (packets.map (UnackedPacket.shift k)) =
      ((sift (fun p => seqNrCmpSE (p.seqNr + k) (hdr.ackNr + k))
          (sack.map fun mask p => acked mask (p.seqNr - hdr.ackNr)) packets).1.map (UnackedPacket.shift k),
        (sift (fun p => seqNrCmpSE (p.seqNr + k) (hdr.ackNr + k))
          (sack.map fun mask p => acked mask (p.seqNr - hdr.ackNr)) packets).2.map (UnackedPacket.shift k)) := by
  rw [ackPackets_sift,sift_map,Option.map_map]
  simp only [Header.shift,UnackedPacket.shift,Function.comp_def,shift_sub]

section
variable {k : UInt16} {hdr : Header} {sack : Option SelectiveAck} {packets : List UnackedPacket}

theorem acks_agree (apart : ¬ (Turns k hdr.ackNr ∧ Opposite hdr sack packets)) :
    ackPackets (hdr.shift k) sack (packets.map (UnackedPacket.shift k)) =
      ((ackPackets hdr sack packets).1.map (UnackedPacket.shift k),(ackPackets hdr sack packets).2.map (UnackedPacket.shift k)) := by
  rw [← differs_iff] at apart
  rw [ackPackets_shift,sift_congr apart,ackPackets_sift hdr]

theorem acks_differ (turns : Turns k hdr.ackNr) (opposite : Opposite hdr sack packets) :
    (ackPackets (hdr.shift k) sack (packets.map (UnackedPacket.shift k))).2.length ≠ (ackPackets hdr sack packets).2.length := by
  have differs := (differs_iff k hdr sack packets).mpr ⟨turns,opposite⟩
  have far : ∀ mask (p : UnackedPacket), (sack.map fun mask p => acked mask (p.seqNr - hdr.ackNr)) = some mask →
      seqNrCmpSE p.seqNr hdr.ackNr ≠ seqNrCmpSE (p.seqNr + k) (hdr.ackNr + k) → mask p = false := by
    intro mask p marked differ
    obtain ⟨bits,_,rfl⟩ := Option.map_eq_some_iff.mp marked
    rw [Bool.eq_false_iff]
    intro set
    dsimp only at set
    rw [((seqNrCmpSE_shift _ _ _).mp differ).1,UInt16.add_comm,UInt16.add_sub_cancel] at set
    have limit := ((acked_iff bits _).mp set).2.1
    have bound := bits.length.toNat_lt
    have half : (32768 : UInt16).toNat = 32768 := rfl
    omega
  rw [ackPackets_shift,ackPackets_sift hdr,List.length_map]
  by_cases low : hdr.ackNr < 32768
  · have high : ¬ hdr.ackNr + k < 32768 := fun low' => turns ⟨fun _ => low',fun _ => low⟩
    refine Nat.ne_of_gt ((sift_fewer ?_ ?_ packets).2 differs)
    · intro p taken
      rw [seqNrCmpSE_iff,shift_sub] at taken
      exact (seqNrCmpSE_iff _ _).mpr (.inl (taken.resolve_right fun high' => high high'.2))
    · intro mask p marked taken taken'
      exact far mask p marked (by rw [taken,taken']; decide)
  · have high : hdr.ackNr + k < 32768 := by
      by_contra high
      exact turns ⟨fun low' => absurd low' low,fun low' => absurd low' high⟩
    refine Nat.ne_of_lt ((sift_fewer ?_ ?_ packets).2 differs.symm)
    · intro p taken
      rw [seqNrCmpSE_iff] at taken
      rw [seqNrCmpSE_iff,shift_sub]
      exact .inl (taken.resolve_right fun low' => low low'.2)
    · intro mask p marked taken taken'
      exact far mask p marked (by rw [taken,taken']; decide)

theorem heard_shift (k : UInt16) (r : RemoteWindow) (hdr : Header) : (r.shift k).heard (hdr.shift k) = r.heard hdr := by
  have same : (hdr.shift k).ackNr = (r.shift k).lastAckNr ↔ hdr.ackNr = r.lastAckNr := UInt16.add_left_inj k
  rw [RemoteWindow.heard,RemoteWindow.heard]
  by_cases again : hdr.ackNr = r.lastAckNr
  · rw [if_pos again,if_pos (same.mpr again)]
    rfl
  · rw [if_neg again,if_neg fun equal => again (same.mp equal)]

theorem foldl_shift (k : UInt16) (gone : List UnackedPacket) (cur : UInt32) :
    (gone.map (UnackedPacket.shift k)).foldl (fun cur p => cur - UInt32.ofNat p.packet.payloadSize) cur =
      gone.foldl (fun cur p => cur - UInt32.ofNat p.packet.payloadSize) cur := by
  rw [List.foldl_map]
  rfl

theorem timed_shift (k : UInt16) (c : Connection) (now : UInt64) (gone : List UnackedPacket) :
    c.timed now (gone.map (UnackedPacket.shift k)) = c.timed now gone := by
  rw [Connection.timed,List.foldl_map]
  rfl

theorem noted_shift {w : World} (apart : ¬ (Turns k hdr.ackNr ∧ Opposite hdr sack w.conn.remoteWnd.unackedPackets)) :
    (w.shift k).noted (hdr.shift k) sack = (w.noted hdr sack).shift k := by
  have agree := acks_agree apart
  have window : (w.conn.remoteWnd.shift k).noting (hdr.shift k) sack = (w.conn.remoteWnd.noting hdr sack).shift k := by
    rw [RemoteWindow.noting,heard_shift]
    simp only [RemoteWindow.shift] at agree ⊢
    rw [agree,foldl_shift]
    rfl
  let time := (w.clock w.ticks).toTimeStamp
  let gone := (ackPackets hdr sack w.conn.remoteWnd.unackedPackets).1
  have conn : {Connection.timed {w.conn with remoteWnd := w.conn.remoteWnd.shift k} time gone with
        remoteWnd := (w.conn.remoteWnd.noting hdr sack).shift k} =
      {w.conn.timed time gone with remoteWnd := (w.conn.remoteWnd.noting hdr sack).shift k} := timed_remoteWnd _ _ _ _
  have gone' : (ackPackets (hdr.shift k) sack (w.conn.remoteWnd.shift k).unackedPackets).1 = gone.map (UnackedPacket.shift k) :=
    congrArg Prod.fst agree
  rw [World.noted]
  simp only [World.shift]
  rw [gone',timed_shift,window,conn]
  rfl

theorem maskRule_shift (k : UInt16) (hdr : Header) (sack : Option SelectiveAck) (p : UnackedPacket) :
    maskRule (hdr.shift k) sack (p.shift k) = maskRule hdr sack p := by
  cases sack with
  | none => rfl
  | some mask => simp only [maskRule,Header.shift,UnackedPacket.shift,shift_sub]

-- Whether the first packet is retransmitted depends on k just where ack_nr or its
-- shift is 65535.
theorem firstCall_shift (k : UInt16) (hdr : Header) (sack : Option SelectiveAck) (count : UInt32) (p : UnackedPacket) :
    (firstRule (hdr.shift k) count (p.shift k) || maskRule (hdr.shift k) sack (p.shift k)) ≠
        (firstRule hdr count p || maskRule hdr sack p) ↔
      ¬ (hdr.ackNr = 65535 ↔ hdr.ackNr + k = 65535) ∧ p.seqNr = hdr.ackNr + 1 ∧ count ≥ 3 ∧
        ∀ mask, sack = some mask → ¬ 1 < lost mask := by
  have shifted : firstRule (hdr.shift k) count (p.shift k) = true ↔
      p.seqNr = hdr.ackNr + 1 ∧ hdr.ackNr + k ≠ 65535 ∧ count ≥ 3 := by
    have follows : p.seqNr + k = hdr.ackNr + k + 1 ↔ p.seqNr = hdr.ackNr + 1 := by
      rw [UInt16.add_assoc,UInt16.add_comm k 1,← UInt16.add_assoc,UInt16.add_left_inj]
    rw [firstRule_iff,← follows]
    rfl
  have plain := firstRule_iff hdr count p
  rw [maskRule_shift]
  by_cases follows : p.seqNr = hdr.ackNr + 1
  · have seen : maskRule hdr sack p = true ↔ ∃ mask, sack = some mask ∧ 1 < lost mask := by
      have one : p.seqNr - hdr.ackNr = 1 := by rw [follows,UInt16.add_comm,UInt16.add_sub_cancel]
      cases sack with
      | none => simp [maskRule]
      | some mask => simp [maskRule,one]
    cases marked : maskRule hdr sack p with
    | true =>
        obtain ⟨mask,given,seen⟩ := seen.mp marked
        simp only [Bool.or_true]
        exact ⟨fun differ => absurd rfl differ,fun differ => absurd seen (differ.2.2.2 mask given)⟩
    | false =>
        have unseen : ∀ mask, sack = some mask → ¬ 1 < lost mask := by
          intro mask given late
          rw [seen.mpr ⟨mask,given,late⟩] at marked
          cases marked
        rw [Bool.or_false,Bool.or_false,ne_eq,Bool.eq_iff_iff,shifted,plain]
        by_cases enough : count ≥ 3
        · simp only [follows,enough,and_true,true_and,ne_eq]
          constructor
          · exact fun differ => ⟨fun same => differ (not_congr same).symm,unseen⟩
          · exact fun differ same => differ.1 (not_iff_not.mp same).symm
        · simp [enough]
  · have none : firstRule hdr count p = false := Bool.eq_false_iff.mpr fun yes => follows (plain.mp yes).1
    have none' : firstRule (hdr.shift k) count (p.shift k) = false := Bool.eq_false_iff.mpr fun yes => follows (shifted.mp yes).1
    rw [none,none']
    exact ⟨fun differ => absurd rfl differ,fun differ => absurd differ.2.1 follows⟩

end

theorem GrowAlike.refl (R : α → α → Prop) (base : List α) : GrowAlike R base base base :=
  ⟨[],[],(List.append_nil _).symm,(List.append_nil _).symm,.nil⟩

theorem GrowAlike.concat (alike : GrowAlike R base log log') (last : R a a') : GrowAlike R base (log ++ [a]) (log' ++ [a']) := by
  obtain ⟨new,new',rfl,rfl,related⟩ := alike
  exact ⟨new ++ [a],new' ++ [a'],List.append_assoc _ _ _,List.append_assoc _ _ _,List.rel_append related (.cons last .nil)⟩

-- The worlds during the two calls. Only the remote windows differ, and the numbers
-- in what has been transmitted since.
structure Alike (k : UInt16) (base w w' : World) : Prop where
  conn : w'.conn = {w.conn with remoteWnd := w'.conn.remoteWnd}
  clock : w'.clock = w.clock
  ticks : w'.ticks = w.ticks
  accepts : w'.accepts = w.accepts
  attempts : w'.attempts = w.attempts
  sent : GrowAlike (RenumberedData k) base.sent w.sent w'.sent
  refused : GrowAlike (fun r r' => RenumberedData k r.datagram r'.datagram) base.refused w.refused w'.refused

theorem datagram_renumbered (k : UInt16) (c : Connection) (type : Fin 16) (seqNr ackNr : UInt16) (now : TimeValue) (payload : List UInt8) :
    RenumberedData k (c.datagram type seqNr ackNr now payload) (c.datagram type (seqNr + k) ackNr now payload) :=
  ⟨_,parse_datagram c type seqNr ackNr now payload,parse_datagram c type (seqNr + k) ackNr now payload,
    (datagram_payload _ _ _ _ _ _).trans (datagram_payload _ _ _ _ _ _).symm⟩

-- The world after a retransmission that was taken, and after one that was not.
def World.resent (w : World) (datagram : List UInt8) : World :=
  {w with
    ticks := w.ticks + 2
    attempts := w.attempts + 1
    sent := w.sent ++ [datagram]
    conn := {w.conn with
      lastPacketSent := w.clock w.ticks
      stats := {w.conn.stats with
        lastWindowSizeTransmitted := w.conn.localWnd.windowSpace
        packetsSent := w.conn.stats.packetsSent + 1
        absoluteTimeout := (w.clock (w.ticks + 1)).addMilliSeconds w.conn.stats.timeout}}}

def World.turnedDown (w : World) (datagram : List UInt8) : World :=
  {w with
    ticks := w.ticks + 1
    attempts := w.attempts + 1
    refused := w.refused ++ [Refusal.mk w.conn.stats.seqNr datagram]
    conn := {w.conn with stats := {w.conn.stats with lastWindowSizeTransmitted := w.conn.localWnd.windowSpace}}}

def World.retransmission (w : World) (p : UnackedPacket) : List UInt8 :=
  w.conn.datagram stData p.seqNr w.conn.localWnd.lastSeqNr (w.clock w.ticks) p.packet.payloadBytes

theorem retransmit_exact (p : UnackedPacket) (roomy : p.packet.Roomy) (w : World) :
    wp (retransmit p.packet p.seqNr)
      (fun filled w' => w.accepts w.attempts = true ∧ w' = w.resent (w.retransmission p) ∧
        filled.payload = p.packet.payload ∧ filled.payloadBytes = p.packet.payloadBytes)
      (fun e w' => w.accepts w.attempts = false ∧ e = .transmissionError ∧ w' = w.turnedDown (w.retransmission p)) w := by
  obtain ⟨off,payload,room⟩ := roomy
  have space : Header.size + w.conn.extensionLength.toNat ≤ off := by
    have bound := extensionLength_le w.conn
    show 20 + w.conn.extensionLength.toNat ≤ off
    omega
  obtain ⟨packet',set_up,data,payload',bytes⟩ := p.packet.setHeader_data
    (w.conn.header stData p.seqNr w.conn.localWnd.lastSeqNr (w.clock w.ticks)) w.conn.extensionLength w.conn.extensionBytes payload
    (extensionLength_le _) (extensionBytes_length _) space
  simp only [retransmit,sendDataPacket,transmit,startTimer,timeNow,getConn,modifyStats,modifyConn,wp_bind,wp_get,wp_set,wp_pure,wp_modify,
    set_up]
  split
  · rename_i taken
    refine ⟨taken,?_,payload'.trans payload.symm,bytes⟩
    rw [data]
    rfl
  · rename_i refused
    refine ⟨Bool.eq_false_iff.mpr refused,rfl,?_⟩
    rw [data]
    rfl

section
variable {k : UInt16} {base w w' w₁ w₁' : World} {packets packets' : List UnackedPacket}

theorem Alike.retransmission (alike : Alike k base w w') (same : Renumbered k p p') :
    RenumberedData k (w.retransmission p) (w'.retransmission p') := by
  rw [World.retransmission,World.retransmission,alike.conn,alike.clock,alike.ticks,same.seqNr,same.payloadBytes]
  exact datagram_renumbered k w.conn stData p.seqNr _ _ _

theorem Alike.resent (alike : Alike k base w w') (same : RenumberedData k bytes bytes') : Alike k base (w.resent bytes) (w'.resent bytes') where
  conn := by
    simp only [World.resent]
    rw [alike.conn,alike.clock,alike.ticks]
  clock := alike.clock
  ticks := congrArg (· + 2) alike.ticks
  accepts := alike.accepts
  attempts := congrArg (· + 1) alike.attempts
  sent := alike.sent.concat same
  refused := alike.refused

theorem Alike.turnedDown (alike : Alike k base w w') (same : RenumberedData k bytes bytes') :
    Alike k base (w.turnedDown bytes) (w'.turnedDown bytes') where
  conn := by
    simp only [World.turnedDown]
    rw [alike.conn]
  clock := alike.clock
  ticks := congrArg (· + 1) alike.ticks
  accepts := alike.accepts
  attempts := congrArg (· + 1) alike.attempts
  sent := alike.sent
  refused := alike.refused.concat same

theorem Renumbered.roomy (same : Renumbered k p p') (roomy : p.packet.Roomy) : p'.packet.Roomy := by
  obtain ⟨off,payload,room⟩ := roomy
  exact ⟨off,same.payload.trans payload,room⟩

-- The same calls, made for packets that correspond, have the same outcomes.
theorem Retransmits.alike (ran : Retransmits now w packets calls w₁ packets₁) (ran' : Retransmits now w' packets' calls w₁' packets₁')
    (alike : Alike k base w w') (same : List.Forall₂ (Renumbered k) packets packets') (roomy : ∀ p ∈ packets, p.packet.Roomy) :
    Alike k base w₁ w₁' ∧ List.Forall₂ (Renumbered k) packets₁ packets₁' := by
  induction ran generalizing w' packets' packets₁' with
  | done =>
      cases same
      cases ran'
      exact ⟨alike,.nil⟩
  | passed _ ih =>
      cases same with
      | cons here there =>
          cases ran' with
          | passed rest' =>
              obtain ⟨alike',there'⟩ := ih rest' alike there fun p among => roomy p (List.mem_cons_of_mem _ among)
              exact ⟨alike',.cons here there'⟩
  | @taken w packet₁ _ packets calls w₂ packets₂ p result _ ih =>
      cases same with
      | cons here there =>
          have space := roomy p List.mem_cons_self
          obtain ⟨accepts,rfl,payload,bytes⟩ := wp_ok (retransmit_exact p space _) result
          cases ran' with
          | taken result' rest' =>
              obtain ⟨_,rfl,payload',bytes'⟩ := wp_ok (retransmit_exact _ (here.roomy space) _) result'
              obtain ⟨alike',there'⟩ := ih rest' (alike.resent (alike.retransmission here)) there
                fun q among => roomy q (List.mem_cons_of_mem _ among)
              refine ⟨alike',.cons ⟨here.seqNr,?_,?_,rfl,rfl⟩ there'⟩
              · exact payload'.trans (here.payload.trans payload.symm)
              · exact bytes'.trans (here.payloadBytes.trans bytes.symm)
          | refused result' _ =>
              have refused := (wp_error (retransmit_exact _ (here.roomy space) _) result').1
              rw [alike.accepts,alike.attempts,accepts] at refused
              cases refused
  | @refused w _ packets calls w₂ packets₂ p result _ ih =>
      cases same with
      | cons here there =>
          have space := roomy p List.mem_cons_self
          obtain ⟨refuses,_,rfl⟩ := wp_error (retransmit_exact p space _) result
          cases ran' with
          | taken result' _ =>
              have accepts := (wp_ok (retransmit_exact _ (here.roomy space) _) result').1
              rw [alike.accepts,alike.attempts,refuses] at accepts
              cases accepts
          | refused result' rest' =>
              obtain ⟨_,_,rfl⟩ := wp_error (retransmit_exact _ (here.roomy space) _) result'
              obtain ⟨alike',there'⟩ := ih rest' (alike.turnedDown (alike.retransmission here)) there
                fun q among => roomy q (List.mem_cons_of_mem _ among)
              exact ⟨alike',.cons here there'⟩

theorem Retransmits.kept_length (ran : Retransmits now w packets calls w₁ packets₁) : packets₁.length = packets.length := by
  induction ran with
  | done => rfl
  | passed _ ih => exact congrArg (· + 1) ih
  | taken _ _ ih => exact congrArg (· + 1) ih
  | refused _ _ ih => exact congrArg (· + 1) ih

theorem Retransmits.attempts (ran : Retransmits now w packets calls w₁ packets₁) (roomy : ∀ p ∈ packets, p.packet.Roomy) :
    w₁.attempts = w.attempts + calls.count true := by
  induction ran with
  | done => rfl
  | passed _ ih =>
      rw [ih fun p among => roomy p (List.mem_cons_of_mem _ among)]
      rfl
  | taken result _ ih =>
      obtain ⟨_,rfl,_⟩ := wp_ok (retransmit_exact _ (roomy _ List.mem_cons_self) _) result
      rw [ih fun p among => roomy p (List.mem_cons_of_mem _ among),List.count_cons_self]
      show _ + 1 + _ = _
      omega
  | refused result _ ih =>
      obtain ⟨_,_,rfl⟩ := wp_error (retransmit_exact _ (roomy _ List.mem_cons_self) _) result
      rw [ih fun p among => roomy p (List.mem_cons_of_mem _ among),List.count_cons_self]
      show _ + 1 + _ = _
      omega

end
section
variable {k : UInt16} {hdr : Header} {sack : Option SelectiveAck} {w : World}

def World.relisted (w : World) (r : RemoteWindow) (packets : List UnackedPacket) (calls : List Bool) : World :=
  {w with conn := {w.conn with remoteWnd := {r with
    unackedPackets := packets
    maxWindow := if calls.any id then UInt32.ofNat ((78 * r.maxWindow.toNat + 50) / 100) else r.maxWindow}}}

theorem received_empty (none : (w.noted hdr sack).conn.remoteWnd.unackedPackets = []) :
    after (remotePacketReceived hdr sack) w = w.noted hdr sack := by
  rw [after,remotePacketReceived_eq,if_pos (List.isEmpty_iff.mpr none)]
  rfl

theorem received_checked (some_left : (w.noted hdr sack).conn.remoteWnd.unackedPackets ≠ [])
    (roomy : ∀ p ∈ w.conn.remoteWnd.unackedPackets, p.packet.Roomy) :
    ∃ w₂ packets calls,
      calls = lostCalls hdr sack (w.conn.remoteWnd.heard hdr) (w.clock (w.ticks + 1)).toTimeStamp (w.noted hdr sack).conn.stats.timeout
        (ackPackets hdr sack w.conn.remoteWnd.unackedPackets).2 ∧
      Retransmits (w.clock (w.ticks + 1)).toTimeStamp {w.noted hdr sack with ticks := w.ticks + 2}
        (ackPackets hdr sack w.conn.remoteWnd.unackedPackets).2 calls w₂ packets ∧
      after (remotePacketReceived hdr sack) w = w₂.relisted (w.noted hdr sack).conn.remoteWnd packets calls := by
  have spec := checkLostPackets_calls hdr sack (w.noted hdr sack)
  rw [after,remotePacketReceived_eq,if_neg fun empty => some_left (List.isEmpty_iff.mp empty)]
  rw [wp] at spec
  cases result : checkLostPackets hdr sack (w.noted hdr sack) with
  | ok _ w' =>
      rw [result] at spec
      obtain ⟨w₂,packets,calls,called,ran,_,rfl⟩ := spec
      exact ⟨w₂,packets,calls,called,ran,rfl⟩
  | error e w' =>
      rw [result] at spec
      obtain ⟨p,among,cramped⟩ := spec
      exact absurd (roomy p ((ackPackets_left _ _ _).subset among)) cramped

theorem received_length (roomy : ∀ p ∈ w.conn.remoteWnd.unackedPackets, p.packet.Roomy) :
    (after (remotePacketReceived hdr sack) w).conn.remoteWnd.unackedPackets.length =
      (ackPackets hdr sack w.conn.remoteWnd.unackedPackets).2.length := by
  by_cases empty : (w.noted hdr sack).conn.remoteWnd.unackedPackets = []
  · rw [received_empty empty]
    rfl
  · obtain ⟨w₂,packets,calls,_,ran,result⟩ := received_checked empty roomy
    rw [result]
    exact ran.kept_length

theorem shift_renumbered (k : UInt16) (packets : List UnackedPacket) :
    List.Forall₂ (Renumbered k) packets (packets.map (UnackedPacket.shift k)) := by
  rw [List.forall₂_map_right_iff]
  exact List.forall₂_same.mpr fun p _ => ⟨rfl,rfl,rfl,rfl,rfl⟩

theorem shift_roomy {packets : List UnackedPacket} (roomy : ∀ p ∈ packets, p.packet.Roomy) :
    ∀ p ∈ packets.map (UnackedPacket.shift k), p.packet.Roomy := by
  intro p' among
  obtain ⟨p,old,rfl⟩ := List.mem_map.mp among
  exact roomy p old

theorem noted_alike (k : UInt16) (w : World) (hdr : Header) (sack : Option SelectiveAck) (ticks : Nat) :
    Alike k w {w.noted hdr sack with ticks} {(w.noted hdr sack).shift k with ticks} :=
  ⟨rfl,rfl,rfl,rfl,rfl,.refl _ w.sent,.refl _ w.refused⟩

theorem Alike.invisible {w₂ w₂' : World} (alike : Alike k w w₂ w₂') (same : List.Forall₂ (Renumbered k) packets packets')
    (r : RemoteWindow) (calls : List Bool) :
    Invisible k w (w₂.relisted r packets calls) (w₂'.relisted (r.shift k) packets' calls) := by
  have stats := congrArg Connection.stats alike.conn
  exact ⟨same,rfl,rfl,rfl,rfl,rfl,stats,alike.attempts,alike.sent,alike.refused⟩

-- The shift changes no call but perhaps the first one.
theorem lostCalls_shift (k : UInt16) (hdr : Header) (sack : Option SelectiveAck) (count : UInt32) (now : UInt64) (timeout : UInt32)
    (p : UnackedPacket) (rest : List UnackedPacket) :
    ∃ call call' later, lostCalls hdr sack count now timeout (p :: rest) = call :: later ∧
      lostCalls (hdr.shift k) sack count now timeout ((p :: rest).map (UnackedPacket.shift k)) = call' :: later ∧
      (call' ≠ call ↔ (¬ (hdr.ackNr = 65535 ↔ hdr.ackNr + k = 65535) ∧ p.seqNr = hdr.ackNr + 1 ∧ count ≥ 3 ∧
        ∀ mask, sack = some mask → ¬ 1 < lost mask) ∧ p.due now timeout = true) := by
  refine ⟨_,(firstRule (hdr.shift k) count (p.shift k) || maskRule (hdr.shift k) sack (p.shift k)) && p.due now timeout,
    rest.map fun p => maskRule hdr sack p && p.due now timeout,rfl,?_,?_⟩
  · rw [List.map_cons,lostCalls,List.map_map]
    simp only [Function.comp_def,maskRule_shift]
    rfl
  · rw [← firstCall_shift]
    cases p.due now timeout <;> simp

theorem wrap_invisible (k : UInt16) (hdr : Header) (sack : Option SelectiveAck) (w : World)
    (roomy : ∀ p ∈ w.conn.remoteWnd.unackedPackets, p.packet.Roomy) :
    Invisible k w (after (remotePacketReceived hdr sack) w) (after (remotePacketReceived (hdr.shift k) sack) (w.shift k)) ↔
      ¬ (Turns k hdr.ackNr ∧ Opposite hdr sack w.conn.remoteWnd.unackedPackets) ∧ ¬ PassesWrap k hdr sack w := by
  by_cases apart : Turns k hdr.ackNr ∧ Opposite hdr sack w.conn.remoteWnd.unackedPackets
  · refine ⟨fun invisible => ?_,fun fine => absurd apart fine.1⟩
    have lengths := invisible.packets.length_eq
    rw [received_length roomy,received_length (shift_roomy roomy)] at lengths
    exact absurd lengths.symm (acks_differ apart.1 apart.2)
  · have shifted := noted_shift apart
    by_cases empty : (w.noted hdr sack).conn.remoteWnd.unackedPackets = []
    · have empty' : ((w.shift k).noted (hdr.shift k) sack).conn.remoteWnd.unackedPackets = [] := by
        rw [shifted]
        exact List.map_eq_nil_iff.mpr empty
      rw [received_empty empty,received_empty empty',shifted]
      refine ⟨fun _ => ⟨apart,?_⟩,fun _ => ?_⟩
      · rintro ⟨_,p,first,_⟩
        have none : (ackPackets hdr sack w.conn.remoteWnd.unackedPackets).2 = [] := empty
        rw [none] at first
        cases first
      · exact ⟨shift_renumbered k _,rfl,rfl,rfl,rfl,rfl,rfl,rfl,.refl _ _,.refl _ _⟩
    · have some_left : ((w.shift k).noted (hdr.shift k) sack).conn.remoteWnd.unackedPackets ≠ [] := by
        rw [shifted]
        exact fun none => empty (List.map_eq_nil_iff.mp none)
      obtain ⟨w₂,packets,calls,called,ran,result⟩ := received_checked empty roomy
      obtain ⟨w₂',packets',calls',called',ran',result'⟩ := received_checked some_left (shift_roomy roomy)
      have left : (ackPackets (hdr.shift k) sack (w.shift k).conn.remoteWnd.unackedPackets).2 =
          (ackPackets hdr sack w.conn.remoteWnd.unackedPackets).2.map (UnackedPacket.shift k) := congrArg Prod.snd (acks_agree apart)
      have count : (w.shift k).conn.remoteWnd.heard (hdr.shift k) = w.conn.remoteWnd.heard hdr := heard_shift k _ _
      rw [left,count,shifted] at called'
      rw [left,shifted] at ran'
      rw [shifted] at result'
      rw [result,result']
      have roomy_left : ∀ p ∈ (ackPackets hdr sack w.conn.remoteWnd.unackedPackets).2, p.packet.Roomy :=
        fun p among => roomy p ((ackPackets_left _ _ _).subset among)
      cases packets_left : (ackPackets hdr sack w.conn.remoteWnd.unackedPackets).2 with
      | nil => exact absurd packets_left empty
      | cons p rest =>
          rw [packets_left] at called ran called' ran' roomy_left
          obtain ⟨call,call',later,whole,whole',differ⟩ := lostCalls_shift k hdr sack (w.conn.remoteWnd.heard hdr)
            (w.clock (w.ticks + 1)).toTimeStamp (w.noted hdr sack).conn.stats.timeout p rest
          have passes : PassesWrap k hdr sack w ↔ call' ≠ call := by
            rw [PassesWrap,packets_left,differ,List.head?_cons]
            constructor
            · rintro ⟨last,q,first,follows,enough,unseen,due⟩
              obtain rfl := Option.some.inj first
              exact ⟨⟨last,follows,enough,unseen⟩,due⟩
            · rintro ⟨⟨last,follows,enough,unseen⟩,due⟩
              exact ⟨last,p,rfl,follows,enough,unseen,due⟩
          have calls_eq : calls = call :: later := called.trans whole
          have calls_eq' : calls' = call' :: later := called'.trans whole'
          rw [calls_eq] at ran ⊢
          rw [calls_eq'] at ran' ⊢
          rw [passes,not_not]
          constructor
          · -- one call more or less is one attempt more or less
            intro invisible
            refine ⟨apart,?_⟩
            have attempts : w₂'.attempts = w₂.attempts := invisible.attempts
            rw [ran.attempts roomy_left,ran'.attempts fun q among => shift_roomy roomy_left q among] at attempts
            have counts := Nat.add_left_cancel attempts
            rw [List.count_cons,List.count_cons] at counts
            cases call <;> cases call' <;> simp at counts ⊢
          · rintro ⟨_,same⟩
            rw [same] at ran' ⊢
            obtain ⟨alike,renumbered⟩ := ran.alike ran' (noted_alike k w hdr sack (w.ticks + 2)) (shift_renumbered k _) roomy_left
            exact alike.invisible renumbered _ _

end
-- The packet 2 is in flight, and the other side says for the third time that 1 was the
-- last one. With 65534 more, that is 0 after 65535.
def repeatedAck : Header := ⟨1,stState,0,8,0,0,5000,1,1⟩

def askedTwice : World :=
  performAll shakenHands.sender [.send [1],.handlePacket ⟨repeatedAck,none,20⟩ ⟨repeatedAck.write,by rw [Header.write_length]; decide⟩]

theorem wrap_is_visible :
    ¬ Invisible 65534 askedTwice (after (remotePacketReceived repeatedAck none) askedTwice)
      (after (remotePacketReceived (repeatedAck.shift 65534) none) (askedTwice.shift 65534)) := by
  have differ : (after (remotePacketReceived (repeatedAck.shift 65534) none) (askedTwice.shift 65534)).attempts ≠
      (after (remotePacketReceived repeatedAck none) askedTwice).attempts := by decide +kernel
  exact fun invisible => differ invisible.attempts

theorem wrap_invisible_below :
    Invisible 5 askedTwice (after (remotePacketReceived repeatedAck none) askedTwice)
      (after (remotePacketReceived (repeatedAck.shift 5) none) (askedTwice.shift 5)) := by
  have offsets : ∀ off ∈ askedTwice.conn.remoteWnd.unackedPackets.map fun p => p.packet.payload, ∃ n, off = some n ∧ 26 ≤ n := by
    have only : (askedTwice.conn.remoteWnd.unackedPackets.map fun p => p.packet.payload) = [some 1499] := by decide +kernel
    rw [only]
    intro off among
    exact ⟨1499,List.mem_singleton.mp among,by decide⟩
  refine (wrap_invisible 5 repeatedAck none askedTwice ?_).mpr ⟨?_,?_⟩
  · exact fun p among => offsets _ (List.mem_map_of_mem among)
  · rintro ⟨turns,_⟩
    exact turns (by decide)
  · rintro ⟨last,_⟩
    exact last (by decide)

end KtorrentStream.Utp
