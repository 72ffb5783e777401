import KtorrentStream.Lib.Along
import KtorrentStream.Utp.LossDetection
set_option autoImplicit true

namespace KtorrentStream.Utp
open KtorrentStream.Lib

namespace RemoteWindow

-- qRound(0.78 * max_window), when packets were lost.
def shrink (r : RemoteWindow) : RemoteWindow := {r with maxWindow := UInt32.ofNat ((78 * r.maxWindow.toNat + 50) / 100)}

def collapse (r : RemoteWindow) : RemoteWindow := {r with maxWindow := minPacketSize}

end RemoteWindow

-- checkLostPackets shrinks the window once if it retransmits anything, and timeout
-- collapses it.
theorem checkLostPackets_shrinks (hdr : Header) (sack : Option SelectiveAck) (w : World) :
    wp (checkLostPackets hdr sack)
      (fun _ w' => w'.conn.remoteWnd.maxWindow = w.conn.remoteWnd.maxWindow ∨
        w'.conn.remoteWnd.maxWindow = w.conn.remoteWnd.shrink.maxWindow)
      (fun _ _ => ∃ p ∈ w.conn.remoteWnd.unackedPackets, ¬ p.packet.Roomy) w := by
  refine wp_mono (checkLostPackets_calls hdr sack w) ?_ (fun _ _ cramped => cramped)
  rintro _ w' ⟨w₂,packets,calls,_,_,_,rfl⟩
  change (if calls.any id then _ else _) = _ ∨ (if calls.any id then _ else _) = _
  split
  · exact .inr rfl
  · exact .inl rfl

theorem timeoutLoop_untouched (now : UInt64) (packets : List UnackedPacket) : Moves Untouched (timeoutLoop now packets) := by
  have refl : ∀ w, Untouched w w := fun w => ⟨rfl,rfl⟩
  induction packets with
  | nil => exact Moves.pure refl _
  | cons p rest ih =>
      rw [timeoutLoop]
      refine Moves.bind Untouched.trans (fun w => refl w) fun due => ?_
      split
      · refine Moves.bind Untouched.trans (Moves.tryCatch Untouched.trans ?_ ?_) fun sent => ?_
        · refine Moves.bind Untouched.trans (retransmit_untouched p.packet p.seqNr) fun packet => ?_
          exact Moves.bind Untouched.trans (fun w => ⟨rfl,rfl⟩) fun now w => refl w
        · intro e
          cases e with
          | transmissionError => exact Moves.pure refl none
          | undefined => exact Moves.throw refl Fault.undefined
        · cases sent with
          | none => exact Moves.pure refl _
          | some p' => exact Moves.bind Untouched.trans ih fun _ w => refl w
      · exact Moves.bind Untouched.trans ih fun _ w => refl w

theorem remoteTimeout_collapses (w : World) :
    wp remoteTimeout (fun _ w' => w'.conn.remoteWnd.maxWindow = w.conn.remoteWnd.collapse.maxWindow) (fun _ _ => True) w := by
  simp only [remoteTimeout,timeNow,modifyRemote,modifyConn,getConn,wp_bind,wp_get,wp_set,wp_modify,wp_pure]
  refine wp_mono (timeoutLoop_untouched _ _ _) ?_ (fun _ _ _ => trivial)
  intro packets w₂ untouched
  exact congrArg RemoteWindow.maxWindow untouched.remoteWnd

-- What changes max_window: the rounded gain of a delay measurement, a loss and a
-- timeout.
inductive WindowEvent where
  | updateWindowSize (d : Int)
  | lost
  | timeout

namespace RemoteWindow

def handle (r : RemoteWindow) : WindowEvent → RemoteWindow
  | .updateWindowSize d => r.updateWindowSize d
  | .lost => r.shrink
  | .timeout => r.collapse

-- d is an int, and so is its sum with max_window.
def InRange (r : RemoteWindow) : WindowEvent → Prop
  | .updateWindowSize d => -2147483648 ≤ d ∧ d < 2147483648 ∧ r.maxWindow.toNat + d < 2147483648
  | _ => True

-- The window is not below one packet, and the gain is added to it.
def Usable (r : RemoteWindow) (event : WindowEvent) : Prop :=
  minPacketSize ≤ (r.handle event).maxWindow ∧
    ∀ d, event = .updateWindowSize d → ((r.handle event).maxWindow.toNat : Int) = max 150 (r.maxWindow.toNat + d)

-- The gain does not take more than there is, and a loss finds enough to take from.
def Tame (r : RemoteWindow) : WindowEvent → Prop
  | .updateWindowSize d => 0 ≤ r.maxWindow.toNat + d
  | .lost => 192 ≤ r.maxWindow.toNat
  | .timeout => True

theorem minPacketSize_le (m : UInt32) : minPacketSize ≤ m ↔ 150 ≤ m.toNat := UInt32.le_iff_toNat_le

theorem ofInt_toNat (d : Int) : ((UInt32.ofInt d).toNat : Int) = d % 4294967296 := by
  rw [UInt32.ofInt,UInt32.toNat_ofNat']
  omega

theorem updateWindowSize_toNat (r : RemoteWindow) (d : Int) (inRange : r.InRange (.updateWindowSize d)) :
    ((r.updateWindowSize d).maxWindow.toNat : Int) =
      if r.maxWindow.toNat + d < 0 then r.maxWindow.toNat + d + 4294967296 else max 150 (r.maxWindow.toNat + d) := by
  obtain ⟨low,high,small⟩ := inRange
  have bound := r.maxWindow.toNat_lt
  have value := ofInt_toNat d
  have sum : ((r.maxWindow + UInt32.ofInt d).toNat : Int) =
      if r.maxWindow.toNat + d < 0 then r.maxWindow.toNat + d + 4294967296 else r.maxWindow.toNat + d := by
    rw [UInt32.toNat_add]
    split <;> omega
  have least : r.maxWindow + UInt32.ofInt d < minPacketSize ↔ (r.maxWindow + UInt32.ofInt d).toNat < 150 := UInt32.lt_iff_toNat_lt
  have floor : minPacketSize.toNat = 150 := rfl
  rw [updateWindowSize]
  dsimp only
  by_cases below : r.maxWindow + UInt32.ofInt d < minPacketSize
  · have few := least.mp below
    rw [if_pos below,floor]
    split at sum <;> split <;> omega
  · have many := mt least.mpr below
    rw [if_neg below]
    split at sum <;> split <;> omega

theorem shrink_toNat (r : RemoteWindow) : r.shrink.maxWindow.toNat = (78 * r.maxWindow.toNat + 50) / 100 := by
  have bound := r.maxWindow.toNat_lt
  rw [shrink,UInt32.toNat_ofNat']
  omega

theorem usable_iff (r : RemoteWindow) (event : WindowEvent) (inRange : r.InRange event) : r.Usable event ↔ r.Tame event := by
  rw [Usable,minPacketSize_le]
  cases event with
  | updateWindowSize d =>
      have value := r.updateWindowSize_toNat d inRange
      have low := inRange.1
      constructor
      · intro usable
        have sum := usable.2 d rfl
        change ((r.updateWindowSize d).maxWindow.toNat : Int) = _ at sum
        rw [Tame]
        split at value <;> omega
      · intro tame
        rw [Tame] at tame
        rw [if_neg (by omega)] at value
        refine ⟨?_,?_⟩
        · change 150 ≤ (r.updateWindowSize d).maxWindow.toNat
          omega
        · rintro _ ⟨⟩
          exact value
  | lost =>
      have value := r.shrink_toNat
      change (150 ≤ r.shrink.maxWindow.toNat ∧ _) ↔ 192 ≤ r.maxWindow.toNat
      constructor
      · rintro ⟨least,_⟩
        omega
      · intro tame
        refine ⟨by omega,?_⟩
        rintro _ ⟨⟩
  | timeout =>
      refine ⟨fun _ => trivial,fun _ => ⟨Nat.le_refl 150,?_⟩⟩
      rintro _ ⟨⟩

end RemoteWindow

-- In a run from a new connection the window stays usable exactly if every step is
-- tame.
theorem window_usable_iff (events : List WindowEvent) (inRange : Along RemoteWindow.handle RemoteWindow.InRange .new events) :
    Along RemoteWindow.handle RemoteWindow.Usable .new events ↔ Along RemoteWindow.handle RemoteWindow.Tame .new events := by
  apply Along.congr (I := fun _ => True) inRange trivial
  · exact fun r event _ allowed => r.usable_iff event allowed
  · exact fun _ _ _ _ _ => trivial

theorem window_usable_iff_grown :
    Along RemoteWindow.handle RemoteWindow.Usable .new [.updateWindowSize (-70),.lost] ↔
      Along RemoteWindow.handle RemoteWindow.Tame .new [.updateWindowSize (-70),.lost] :=
  window_usable_iff [.updateWindowSize (-70),.lost] ⟨⟨by decide,by decide,by decide⟩,trivial,trivial⟩

-- A loss after a timeout, and a gain that takes more than the window has.
theorem window_leaves_the_floor :
    ((RemoteWindow.new.handle .timeout).handle .lost).maxWindow = 117 ∧
    ((RemoteWindow.new.handle .timeout).handle (.updateWindowSize (-500))).maxWindow = 4294966946 ∧
    ¬ ∀ events, Along RemoteWindow.handle RemoteWindow.InRange .new events → Along RemoteWindow.handle RemoteWindow.Usable .new events := by
  refine ⟨by decide,by decide,fun always => ?_⟩
  have usable := (always [.timeout,.lost] ⟨trivial,trivial,trivial⟩).2.1.1
  exact absurd usable (by decide)

end KtorrentStream.Utp
