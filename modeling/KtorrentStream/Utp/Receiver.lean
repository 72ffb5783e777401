import KtorrentStream.Utp.Lifecycle
import KtorrentStream.Utp.Window
set_option autoImplicit true

namespace KtorrentStream.Utp
open KtorrentStream.Lib

def Input.payload (input : Input) : List UInt8 := input.packet.data.drop input.dataOff.toNat

-- The packet can be put into the window without confusing sequence numbers.
def Input.Fits (input : Input) (w : LocalWindow) : Prop :=
  seqNrCmpSE input.parser.header.seqNr w.lastSeqNr = false → ¬ w.windowSpace < input.packet.size - input.dataOff →
    input.dataOff ≤ input.packet.size ∧ w.nearFront input.parser.header.seqNr

-- A connection that is past the handshake, with its local window as a reassembly
-- of all that has arrived.
structure Receiver (w : World) (front : Nat) (r : Reassembly UInt8) : Prop where
  state : ConnectionState.connected.rank ≤ w.conn.stats.state.rank
  window : Repr w.conn.localWnd front r
  delivered : w.delivered = r.delivered

-- The ways in which the receiving side of a connection moves on.
inductive Progress (cause : Cause) (w w' : World) (front : Nat) (r : Reassembly UInt8) :
    Nat → Reassembly UInt8 → Prop where
  | idle (window : w'.conn.localWnd = w.conn.localWnd) (arrived : w'.arrived = w.arrived) : Progress cause w w' front r front r
  | stored (handled : cause = .packet i) (data : i.parser.header.type = stData)
      (late : seqNrCmpSE i.parser.header.seqNr w.conn.localWnd.lastSeqNr = false)
      (inside : i.dataOff ≤ i.packet.size) (near : w.conn.localWnd.nearFront i.parser.header.seqNr)
      (missing : r.got (countOf r.last w.conn.localWnd i.parser.header.seqNr) = none) (later : r.last ≤ upTo)
      (space : w'.conn.localWnd.windowSpace.toNat + i.payload.length = w.conn.localWnd.windowSpace.toNat)
      (arrived : w'.arrived = w.arrived ++ [(i.parser.header.seqNr,i.payload)]) :
      Progress cause w w' front r front (r.store (countOf r.last w.conn.localWnd i.parser.header.seqNr) i.payload upTo)
  | read (asked : cause = .recv maxLen) (reads : Reads r r' bytes) (arrived : w'.arrived = w.arrived)
      (space : w.conn.localWnd.windowSpace.toNat ≤ w'.conn.localWnd.windowSpace.toNat) : Progress cause w w' front r front' r'

section
variable {w w' : World} {front : Nat} {r : Reassembly UInt8}

theorem Receiver.idle (receiver : Receiver w front r) (forward : Forward w w') (window : w'.conn.localWnd = w.conn.localWnd)
    (delivered : w'.delivered = w.delivered) (arrived : w'.arrived = w.arrived) :
    ∃ front' r', Receiver w' front' r' ∧ Progress cause w w' front r front' r' :=
  ⟨front,r,⟨Nat.le_trans receiver.state forward.rank,window ▸ receiver.window,delivered.trans receiver.delivered⟩,
    .idle window arrived⟩

theorem Receiver.step (receiver : Receiver w front r) (step : Step cause w w')
    (fits : ∀ i, cause = .packet i → i.parser.header.type = stData → i.Fits w.conn.localWnd) :
    ∃ front' r', Receiver w' front' r' ∧ Progress cause w w' front r front' r' := by
  have forward := step.forward_of
  have ⟨state,window,delivered⟩ := receiver
  cases step with
  | quiet same => exact receiver.idle forward same.localWnd same.delivered same.arrived
  | control _ _ _ _ _ same => exact receiver.idle forward same.localWnd same.delivered same.arrived
  | resent _ _ _ same => exact receiver.idle forward same.localWnd same.delivered same.arrived
  | fresh _ _ _ _ _ _ _ _ _ _ _ _ _ same => exact receiver.idle forward same.localWnd same.delivered same.arrived
  | spilled _ _ _ _ same => exact receiver.idle forward same.localWnd same.delivered same.arrived
  | acked _ _ same => exact receiver.idle forward same.localWnd same.delivered same.arrived
  | refreshed | buffered | forward | fin | drained | cleared => exact receiver.idle forward rfl rfl rfl
  | handshake nr early =>
      exfalso
      obtain synSent | idle := early
      · rw [synSent] at state
        cases state
      · rw [idle] at state
        cases state
  | received i localWnd outcome handled data _ result =>
      have all := packetReceived_repr window (fits i handled data)
      rw [result] at all
      obtain ⟨same,_⟩ | ⟨same,_⟩ | ⟨localWnd',upTo,stored,late,missing,rep,later,_,space,inside,near,_⟩ := all
      · cases same
        exact receiver.idle forward rfl rfl rfl
      · cases same
        exact receiver.idle forward rfl rfl rfl
      · cases stored
        refine ⟨front,_,⟨Nat.le_trans state forward.rank,rep,?_⟩,.stored handled data late inside near missing later ?_ rfl⟩
        · have ahead := (window.countOf_near late near).1
          exact delivered.trans (Reassembly.delivered_store window.valid ahead missing).symm
        · rw [Input.payload,List.length_drop]
          exact space
  | read maxLen localWnd bytes asked result =>
      have any : w.conn.localWnd.incomingPackets ≠ [] := by
        intro none
        simp [LocalWindow.read,none] at result
      obtain ⟨localWnd',front',r',bytes',result',rep,reads,_,amount,_⟩ := read_repr window any maxLen
      cases Option.some.inj (result.symm.trans result')
      refine ⟨front',r',⟨Nat.le_trans state forward.rank,rep,?_⟩,.read asked reads rfl (Nat.le.intro amount.space.symm)⟩
      show w.delivered ++ bytes = r'.delivered
      rw [delivered,reads.delivered]

theorem Receiver.fits_kept (receiver : Receiver w front r) (receiver' : Receiver w' front' r')
    (progress : Progress (.packet i) w w' front r front' r') (fits : i.Fits w.conn.localWnd) : i.Fits w'.conn.localWnd := by
  cases progress with
  | idle window => exact window ▸ fits
  | stored handled _ _ inside near =>
      cases handled
      intro _ _
      refine ⟨inside,?_⟩
      rw [LocalWindow.nearFront,receiver'.window.frontSeqNr,← receiver.window.frontSeqNr]
      exact near
  | read asked => cases asked

theorem Receiver.steps {P : World → Nat → Reassembly UInt8 → Prop} (receiver : Receiver w front r) (start : P w front r)
    (fits : ∀ i, cause = .packet i → i.parser.header.type = stData → i.Fits w.conn.localWnd)
    (preserved : ∀ {w w' front front' r r'}, Receiver w front r → Receiver w' front' r' →
      Progress cause w w' front r front' r' → P w front r → P w' front' r')
    (steps : Steps cause w w') : ∃ front' r', Receiver w' front' r' ∧ P w' front' r' := by
  have along : ∃ front' r', Receiver w' front' r' ∧ P w' front' r' ∧
      ∀ i, cause = .packet i → i.parser.header.type = stData → i.Fits w'.conn.localWnd := by
    induction steps with
    | refl => exact ⟨front,r,receiver,start,fits⟩
    | tail _ step ih =>
        obtain ⟨front₁,r₁,receiver₁,holds,fits₁⟩ := ih
        obtain ⟨front₂,r₂,receiver₂,progress⟩ := receiver₁.step step fits₁
        refine ⟨front₂,r₂,receiver₂,preserved receiver₁ receiver₂ progress holds,?_⟩
        rintro i rfl data
        exact receiver₁.fits_kept receiver₂ progress (fits₁ i rfl data)
  obtain ⟨front',r',receiver',holds,_⟩ := along
  exact ⟨front',r',receiver',holds⟩

end
end KtorrentStream.Utp
