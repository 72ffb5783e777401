import KtorrentStream.Lib.Along
import KtorrentStream.Peer.Availability
import KtorrentStream.Peer.SuperSeederMaps
import Mathlib.Data.List.Nodup
set_option autoImplicit true

namespace KtorrentStream.Peer
open KtorrentStream.Util KtorrentStream.Lib

def Peer.isSeeder (peer : Peer) : Bool := peer.chunksAvailability.allOn

-- A packet changes the counts of the manager, and of the peers the one that sent it.
structure Framed (m m' : PeerManager) : Prop where
  peers : m'.peerMap = m.peerMap
  numChunks : m'.numChunks = m.numChunks
  started : m'.started = m.started

theorem bitSetReceived_framed (m : PeerManager) (bs : BitSet) : Framed m (m.bitSetReceived bs) := by
  rw [PeerManager.bitSetReceived]
  induction List.range bs.numBits generalizing m with
  | nil => exact ⟨rfl,rfl,rfl⟩
  | cons i rest ih =>
      rw [List.foldl_cons]
      have after := ih (if bs.get i then m.have_ i else m)
      refine ⟨after.peers.trans ?_,after.numChunks.trans ?_,after.started.trans ?_⟩ <;> split <;> rfl

theorem handlePacket_framed (m : PeerManager) (peer : Peer) (packet : List UInt8) : Framed m (m.handlePacket peer packet).1 := by
  have same : Framed m m := ⟨rfl,rfl,rfl⟩
  unfold PeerManager.handlePacket
  split
  · exact same
  · split
    · unfold PeerManager.handleHave
      split
      · exact same
      · unfold PeerManager.handleHaveOf
        split
        · exact ⟨rfl,rfl,rfl⟩
        · split <;> exact same
    · unfold PeerManager.handleBitField
      split
      · split <;> exact same
      · exact bitSetReceived_framed m _
    · unfold PeerManager.handleHaveAll
      split
      · exact same
      · exact bitSetReceived_framed m _
    · unfold PeerManager.handleHaveNone
      split
      · exact same
      · exact bitSetReceived_framed m _
    · exact same

theorem ofData_counted (d : List UInt8) (numBits : Nat) : (BitSet.ofData d numBits).Counted := rfl

section
variable (m : PeerManager) (peer : Peer) (packet : List UInt8)

theorem handleHave_set : (m.handleHave peer packet).2.chunksAvailability =
    if packet.length = 5 ∧ readUint32 packet 1 < peer.chunksAvailability.numBits then
      peer.chunksAvailability.set (readUint32 packet 1) true else peer.chunksAvailability := by
  unfold PeerManager.handleHave
  by_cases length : packet.length = 5
  · rw [if_neg (not_not_intro length)]
    unfold PeerManager.handleHaveOf
    dsimp only
    by_cases inside : readUint32 packet 1 < peer.chunksAvailability.numBits
    · rw [if_pos inside,if_pos ⟨length,inside⟩]
    · have neither : ¬ (packet.length = 5 ∧ readUint32 packet 1 < peer.chunksAvailability.numBits) := fun both => inside both.2
      rw [if_neg inside,if_neg neither]
      cases m.loaded <;> rfl
  · rw [if_pos length,if_neg fun both => length both.1]
    rfl

theorem handleBitField_set : (m.handleBitField peer packet).2.chunksAvailability =
    if packet.length = 1 + peer.chunksAvailability.data.length then
      BitSet.ofData (packet.drop 1) peer.chunksAvailability.numBits else peer.chunksAvailability := by
  unfold PeerManager.handleBitField
  by_cases length : packet.length = 1 + peer.chunksAvailability.data.length
  · rw [if_neg (not_not_intro length),if_pos length]
  · rw [if_pos length,if_neg length]
    split <;> rfl

theorem handleHaveAll_set : (m.handleHaveAll peer packet).2.chunksAvailability =
    if packet.length = 1 then peer.chunksAvailability.setAll true else peer.chunksAvailability := by
  unfold PeerManager.handleHaveAll
  by_cases length : packet.length = 1
  · rw [if_neg (not_not_intro length),if_pos length]
  · rw [if_pos length,if_neg length]
    rfl

theorem handleHaveNone_set : (m.handleHaveNone peer packet).2.chunksAvailability =
    if packet.length = 1 then peer.chunksAvailability.setAll false else peer.chunksAvailability := by
  unfold PeerManager.handleHaveNone
  by_cases length : packet.length = 1
  · rw [if_neg (not_not_intro length),if_pos length]
  · rw [if_pos length,if_neg length]
    rfl

end

namespace Swarm

-- What the super seeder is told of a packet, and the set of the peer afterwards.
theorem message_cases (qrand : Nat → Nat) (w : Swarm) (n : Nat) (peer : Peer) (packet : List UInt8) :
    (w.forward qrand n peer packet = some w.superseeder ∧
      (w.manager.handlePacket peer packet).2.chunksAvailability = peer.chunksAvailability) ∨
    (∃ ch, ch < peer.chunksAvailability.numBits ∧
      w.forward qrand n peer packet = w.superseeder.have_ qrand w.manager.peerMap n ch ∧
      (w.manager.handlePacket peer packet).2.chunksAvailability = peer.chunksAvailability.set ch true ∧
      (News peer packet → peer.has ch = false)) ∨
    ∃ bs, bs.numBits = peer.chunksAvailability.numBits ∧ bs.Counted ∧
      w.forward qrand n peer packet = w.superseeder.bitset qrand (w.manager.step (.handlePacket n packet)).peerMap n bs ∧
      (w.manager.handlePacket peer packet).2.chunksAvailability = bs ∧ (News peer packet → ∀ i, peer.has i = false) := by
  unfold forward
  cases alive : peer.killed with
  | true =>
      refine .inl ⟨rfl,?_⟩
      simp [PeerManager.handlePacket,alive]
  | false =>
      simp only [Bool.false_eq_true,if_false]
      split
      · rename_i type
        have handled : w.manager.handlePacket peer packet = w.manager.handleHave peer packet := by
          simp [PeerManager.handlePacket,alive,type]
        rw [handled,handleHave_set]
        split
        · rename_i both
          exact .inr (.inl ⟨_,both.2,rfl,rfl,fun news => news.1 type both.1⟩)
        · exact .inl ⟨rfl,rfl⟩
      · rename_i type
        have handled : w.manager.handlePacket peer packet = w.manager.handleBitField peer packet := by
          simp [PeerManager.handlePacket,alive,type]
        rw [handled,handleBitField_set]
        split
        · rename_i length
          exact .inr (.inr ⟨BitSet.ofData (packet.drop 1) peer.chunksAvailability.numBits,rfl,ofData_counted _ _,rfl,rfl,fun news => news.2.1 type length⟩)
        · exact .inl ⟨rfl,rfl⟩
      · rename_i type
        have handled : w.manager.handlePacket peer packet = w.manager.handleHaveAll peer packet := by
          simp [PeerManager.handlePacket,alive,type]
        rw [handled,handleHaveAll_set]
        split
        · rename_i length
          exact .inr (.inr ⟨peer.chunksAvailability.setAll true,rfl,BitSet.setAll_counted _ _,rfl,rfl,fun news => news.2.2 (.inl type) length⟩)
        · exact .inl ⟨rfl,rfl⟩
      · rename_i type
        have handled : w.manager.handlePacket peer packet = w.manager.handleHaveNone peer packet := by
          simp [PeerManager.handlePacket,alive,type]
        rw [handled,handleHaveNone_set]
        split
        · rename_i length
          exact .inr (.inr ⟨peer.chunksAvailability.setAll false,rfl,BitSet.setAll_counted _ _,rfl,rfl,fun news => news.2.2 (.inr type) length⟩)
        · exact .inl ⟨rfl,rfl⟩
      · rename_i have_ bitField all none_
        have handled : w.manager.handlePacket peer packet = (w.manager,peer) := by
          unfold PeerManager.handlePacket
          rw [if_neg (by rw [alive]; exact Bool.false_ne_true)]
          split
          · rename_i type
            exact absurd type have_
          · rename_i type
            exact absurd type bitField
          · rename_i type
            exact absurd type all
          · rename_i type
            exact absurd type none_
          · rfl
        rw [handled]
        exact .inl ⟨rfl,rfl⟩

theorem message_peers (m : PeerManager) (found : m.peerMap.find n = some peer) (k : Nat) :
    (m.step (.handlePacket n packet)).peerMap.find k = if k = n then some (m.handlePacket peer packet).2 else m.peerMap.find k := by
  have peers := (handlePacket_framed m peer packet).peers
  simp only [PeerManager.step,found]
  rw [peers,PtrMap.find_modify]
  split
  · rename_i same
    rw [same,found]
    rfl
  · rfl

-- What holds in every run.
structure Sound (w : Swarm) : Prop where
  measured : Measured w.manager.numChunks w.manager.peerMap
  counter : w.superseeder.numChunks = w.manager.numChunks
  paired : w.superseeder.Paired w.manager.peerMap
  started : w.manager.started = true

-- As long as nobody has become a seeder the super seeder counts what its manager counts.
structure Tallied (w : Swarm) : Prop where
  some_ : 0 < w.manager.numChunks
  counted : Counted w.manager
  sized : Sized w.manager
  none_ : w.superseeder.numSeeders = 0
  same : ∀ i, w.superseeder.chunkCounter.get i = w.manager.cnt.get i
  leechers : ∀ n peer, w.manager.peerMap.find n = some peer → peer.isSeeder = false

-- The packet says something new, and does not make a seeder of the peer.
def Steady (w : Swarm) : SwarmEvent → Prop
  | .message n packet => ∀ peer, w.manager.peerMap.find n = some peer → peer.killed = false →
      News peer packet ∧ (w.manager.handlePacket peer packet).2.isSeeder = false
  | _ => True

theorem message_measured {m : PeerManager} {peer : Peer} (measured : Measured numChunks m.peerMap) (found : m.peerMap.find n = some peer)
    (sized : (m.handlePacket peer packet).2.chunksAvailability.numBits = peer.chunksAvailability.numBits)
    (counted : (m.handlePacket peer packet).2.chunksAvailability.Counted) :
    Measured numChunks (m.step (.handlePacket n packet)).peerMap := by
  intro k other there
  rw [message_peers m found] at there
  split at there
  · cases there
    exact ⟨sized.trans (measured n peer found).1,counted⟩
  · exact measured k other there

-- What the super seeder makes of a packet, and how many more have a chunk now.
theorem forward_spec (qrand : Nat → Nat) {w : Swarm} (sound : Sound w) (found : w.manager.peerMap.find n = some peer) (packet : List UInt8) :
    ∃ s', w.forward qrand n peer packet = some s' ∧ s'.Paired (w.manager.step (.handlePacket n packet)).peerMap ∧
      s'.numChunks = w.superseeder.numChunks ∧ Measured w.manager.numChunks (w.manager.step (.handlePacket n packet)).peerMap ∧
      (peer.isSeeder = false → (w.manager.handlePacket peer packet).2.isSeeder = false → News peer packet →
        s'.numSeeders = w.superseeder.numSeeders ∧ ∀ i, s'.chunkCounter.get i + (peer.has i).toNat =
          w.superseeder.chunkCounter.get i + ((w.manager.handlePacket peer packet).2.has i).toNat) := by
  obtain ⟨length,counted⟩ := sound.measured n peer found
  have connected (k : Nat) (there : (w.manager.peerMap.find k).isSome = true) :
      ((w.manager.step (.handlePacket n packet)).peerMap.find k).isSome = true := by
    rw [message_peers w.manager found]
    split
    · rfl
    · exact there
  have measured : Measured w.superseeder.numChunks w.manager.peerMap := sound.counter.symm ▸ sound.measured
  obtain ⟨told,same⟩ | ⟨ch,inside,told,set_,unknown⟩ | ⟨bs,bits,exact_,told,set_,unknown⟩ := message_cases qrand w n peer packet
  · refine ⟨_,told,sound.paired.mono connected,rfl,message_measured sound.measured found (by rw [same]) (by rw [same]; exact counted),?_⟩
    intro _ _ _
    refine ⟨rfl,fun i => ?_⟩
    rw [Peer.has,Peer.has,same]
  · obtain ⟨s',done,paired,counter,seeders⟩ := SuperSeeder.have_spec qrand measured sound.paired found ch
    refine ⟨s',told.trans done,paired.mono connected,?_,?_,?_⟩
    · rw [SuperSeeder.numChunks,counter,ChunkCounter.inc_length,SuperSeeder.numChunks]
    · refine message_measured sound.measured found ?_ ?_
      · rw [set_,BitSet.set_numBits]
      · rw [set_]
        exact BitSet.set_counted counted ch true
    · intro leecher _ news
      refine ⟨seeders leecher,fun i => ?_⟩
      have known : ch < w.superseeder.chunkCounter.cnt.length := inside.trans_eq (length.trans sound.counter.symm)
      rw [counter,ChunkCounter.inc_get,Peer.has,Peer.has,set_,BitSet.set_get]
      by_cases here : ch = i
      · subst here
        have off : peer.chunksAvailability.get ch = false := unknown news
        rw [if_pos ⟨rfl,known⟩,if_pos ⟨rfl,inside⟩,off]
        rfl
      · rw [if_neg fun both => here both.1,if_neg fun both => here both.1,Nat.add_zero]
  · have there : (w.manager.step (.handlePacket n packet)).peerMap.find n = some (w.manager.handlePacket peer packet).2 := by
      rw [message_peers w.manager found,if_pos rfl]
    have after : Measured w.manager.numChunks (w.manager.step (.handlePacket n packet)).peerMap :=
      message_measured sound.measured found (by rw [set_,bits]) (by rw [set_]; exact exact_)
    obtain ⟨s',done,paired,numChunks,counts⟩ :=
      SuperSeeder.bitset_spec qrand (sound.counter.symm ▸ after) (sound.paired.mono connected) there
    rw [set_] at done
    refine ⟨s',told.trans done,paired,numChunks,after,?_⟩
    intro _ leecher news
    obtain ⟨seeders,counts⟩ := counts leecher
    refine ⟨seeders,fun i => ?_⟩
    rw [counts i,unknown news i]
    rfl

theorem tallied_message {w : Swarm} {s' : SuperSeeder} {peer : Peer} (tallied : Tallied w) (found : w.manager.peerMap.find n = some peer)
    (seeder : (w.manager.handlePacket peer packet).2.isSeeder = false) (fresh : Fresh w.manager (.handlePacket n packet))
    (seeders : s'.numSeeders = w.superseeder.numSeeders)
    (counts : ∀ i, s'.chunkCounter.get i + (peer.has i).toNat =
      w.superseeder.chunkCounter.get i + ((w.manager.handlePacket peer packet).2.has i).toNat) :
    Tallied ⟨w.manager.step (.handlePacket n packet),s'⟩ := by
  obtain ⟨counted,sized⟩ := step_counted tallied.counted tallied.sized (.handlePacket n packet) fresh
  have after : w.manager.step (.handlePacket n packet) = {(w.manager.handlePacket peer packet).1 with
      peerMap := (w.manager.handlePacket peer packet).1.peerMap.modify n fun _ => (w.manager.handlePacket peer packet).2} := by
    simp only [PeerManager.step,found]
  have framed := handlePacket_framed w.manager peer packet
  refine ⟨?_,counted,sized,seeders.trans tallied.none_,fun i => ?_,fun k other there => ?_⟩
  · rw [after]
    exact framed.numChunks.symm ▸ tallied.some_
  · obtain ⟨news,heard⟩ := handlePacket_heard tallied.sized (tallied.sized.peers n peer found) (fresh peer found)
    have mine := counts i
    have new := heard.new i
    rw [heard.has i,tallied.same i] at mine
    have theirs : (w.manager.step (.handlePacket n packet)).cnt.get i = w.manager.cnt.get i + (news i).toNat := by
      rw [after]
      exact heard.count i
    rw [theirs]
    cases on : news i with
    | false =>
        rw [on,Bool.or_false] at mine
        exact Nat.add_right_cancel mine
    | true =>
        rw [on,new on] at mine
        exact mine
  · rw [message_peers w.manager found] at there
    split at there
    · cases there
      exact seeder
    · exact tallied.leechers k other there

-- What every event keeps, and what it keeps if it is steady.
def Keeps (qrand : Nat → Nat) (w : Swarm) (e : SwarmEvent) : Prop :=
  ∃ w', w.step qrand e = some w' ∧ (Sound w' ∧ w'.manager.numChunks = w.manager.numChunks) ∧ (Steady w e → Tallied w → Tallied w')

theorem keeps_same (sound : Sound w) (same : w.step qrand e = some w) : Keeps qrand w e :=
  ⟨w,same,⟨sound,rfl⟩,fun _ tallied => tallied⟩

theorem join_keeps (qrand : Nat → Nat) {w : Swarm} (sound : Sound w) (n : Nat) : Keeps qrand w (.join n) := by
  unfold Keeps
  rw [step]
  split
  · exact ⟨w,rfl,⟨sound,rfl⟩,fun _ tallied => tallied⟩
  · rename_i absent
    have absent : w.manager.peerMap.find n = none := by
      rw [PtrMap.contains] at absent
      exact Option.not_isSome_iff_eq_none.mp absent
    have there : (w.manager.peerMap.insert n (Peer.new w.manager.numChunks)).find n = some (Peer.new w.manager.numChunks) := by
      rw [PtrMap.find_insert,if_pos rfl]
    have measured : Measured w.manager.numChunks (w.manager.peerMap.insert n (Peer.new w.manager.numChunks)) := by
      intro k other found
      rw [PtrMap.find_insert] at found
      split at found
      · cases found
        exact ⟨rfl,BitSet.new_counted _⟩
      · exact sound.measured k other found
    have connected (k : Nat) (found : (w.manager.peerMap.find k).isSome = true) :
        ((w.manager.peerMap.insert n (Peer.new w.manager.numChunks)).find k).isSome = true := by
      rw [PtrMap.find_insert]
      split
      · rfl
      · exact found
    obtain ⟨s',added,paired,numChunks,counts⟩ :=
      SuperSeeder.peerAdded_spec qrand (sound.counter.symm ▸ measured) (sound.paired.mono connected) there
    dsimp only
    rw [added,Option.map_some]
    refine ⟨_,rfl,⟨⟨measured,numChunks.trans sound.counter,paired,sound.started⟩,rfl⟩,fun _ tallied => ?_⟩
    have leecher : (Peer.new w.manager.numChunks).isSeeder = false := by
      rw [Peer.isSeeder,BitSet.allOn,beq_eq_false_iff_ne]
      exact Nat.ne_of_lt tallied.some_
    obtain ⟨seeders,counter⟩ := counts leecher
    obtain ⟨counted,sized⟩ := counted_insert tallied.counted tallied.sized absent w.manager.peerIdCounter
    refine ⟨tallied.some_,counted,sized,seeders.trans tallied.none_,fun i => ?_,fun k other found => ?_⟩
    · rw [counter,ChunkCounter.incBitSet_none _ (Peer.new_has _)]
      exact tallied.same i
    · have found : (w.manager.peerMap.insert n (Peer.new w.manager.numChunks)).find k = some other := found
      rw [PtrMap.find_insert] at found
      split at found
      · cases found
        exact leecher
      · exact tallied.leechers k other found

theorem message_keeps (qrand : Nat → Nat) {w : Swarm} (sound : Sound w) (n : Nat) (packet : List UInt8) :
    Keeps qrand w (.message n packet) := by
  unfold Keeps
  rw [step]
  cases found : w.manager.peerMap.find n with
  | none => exact ⟨w,rfl,⟨sound,rfl⟩,fun _ tallied => tallied⟩
  | some peer =>
      obtain ⟨s',told,paired,numChunks,measured,counts⟩ := forward_spec qrand sound found packet
      have framed := handlePacket_framed w.manager peer packet
      have after : (w.manager.step (.handlePacket n packet)).numChunks = w.manager.numChunks ∧
          (w.manager.step (.handlePacket n packet)).started = w.manager.started := by
        simp only [PeerManager.step,found]
        exact ⟨framed.numChunks,framed.started⟩
      dsimp only
      rw [told,Option.map_some]
      refine ⟨_,rfl,⟨⟨?_,?_,paired,after.2.trans sound.started⟩,after.1⟩,fun steady tallied => ?_⟩
      · rw [after.1]
        exact measured
      · rw [after.1]
        exact numChunks.trans sound.counter
      · cases dead : peer.killed with
        | false =>
            obtain ⟨news,leecher⟩ := steady peer found dead
            obtain ⟨seeders,counts⟩ := counts (tallied.leechers n peer found) leecher news
            refine tallied_message tallied found leecher (fun other there _ => ?_) seeders counts
            rw [found] at there
            cases there
            exact news
        | true =>
            have handled : w.manager.handlePacket peer packet = (w.manager,peer) := by
              simp [PeerManager.handlePacket,dead]
            have silent : w.forward qrand n peer packet = some w.superseeder := by
              simp [forward,dead]
            obtain rfl := Option.some.inj (silent.symm.trans told)
            refine tallied_message tallied found ?_ (fun other there alive => ?_) rfl fun i => by rw [handled]
            · rw [handled]
              exact tallied.leechers n peer found
            · rw [found] at there
              cases there
              rw [dead] at alive
              cases alive

theorem killed_peers (m : PeerManager) (found : m.peerMap.find n = some peer) (k : Nat) :
    (m.step (.kill n)).peerMap.find k = if k = n then some peer.kill else m.peerMap.find k := by
  simp only [PeerManager.step,found]
  rw [PtrMap.find_modify]
  split
  · rename_i same
    rw [same,found]
    rfl
  · rfl

theorem kill_keeps (qrand : Nat → Nat) {w : Swarm} (sound : Sound w) (n : Nat) : Keeps qrand w (.kill n) := by
  cases found : w.manager.peerMap.find n with
  | none =>
      have same : w.manager.step (.kill n) = w.manager := by simp only [PeerManager.step,found]
      exact keeps_same sound (by rw [step,same])
  | some peer =>
      have numChunks : (w.manager.step (.kill n)).numChunks = w.manager.numChunks := by simp only [PeerManager.step,found]
      have started : (w.manager.step (.kill n)).started = w.manager.started := by simp only [PeerManager.step,found]
      have cnt : (w.manager.step (.kill n)).cnt = w.manager.cnt := by simp only [PeerManager.step,found]
      have peers := killed_peers w.manager found
      refine ⟨_,rfl,⟨⟨?_,sound.counter.trans numChunks.symm,sound.paired.mono ?_,started.trans sound.started⟩,numChunks⟩,fun _ tallied => ?_⟩
      · intro k other there
        rw [numChunks]
        rw [peers] at there
        split at there
        · cases there
          exact sound.measured n peer found
        · exact sound.measured k other there
      · intro k there
        rw [peers]
        split
        · rfl
        · exact there
      · obtain ⟨counted,sized⟩ := step_counted tallied.counted tallied.sized (.kill n) trivial
        refine ⟨numChunks.symm ▸ tallied.some_,counted,sized,tallied.none_,fun i => ?_,fun k other there => ?_⟩
        · rw [cnt]
          exact tallied.same i
        · rw [peers] at there
          split at there
          · cases there
            exact tallied.leechers n peer found
          · exact tallied.leechers k other there

theorem clear_keeps (qrand : Nat → Nat) {w : Swarm} (sound : Sound w) (n : Nat) : Keeps qrand w (.clear n) := by
  cases found : w.manager.peerMap.find n with
  | none => exact keeps_same sound (by simp only [step,found])
  | some peer =>
      cases killed : peer.killed with
      | false => exact keeps_same sound (by simp [step,found,killed])
      | true =>
          have cleared : w.manager.step (.clear n) =
              let m := {w.manager with cnt := w.manager.cnt.decBitSet peer.chunksAvailability}.updateAvailableChunks
              {m with peerMap := m.peerMap.erase n} := by
            simp only [PeerManager.step,found,killed,sound.started,Bool.and_self,if_true]
          have peers : (w.manager.step (.clear n)).peerMap = w.manager.peerMap.erase n := by rw [cleared]; rfl
          have numChunks : (w.manager.step (.clear n)).numChunks = w.manager.numChunks := by rw [cleared]; rfl
          have cnt : (w.manager.step (.clear n)).cnt = w.manager.cnt.decBitSet peer.chunksAvailability := by rw [cleared]; rfl
          obtain ⟨paired,counter,seeders⟩ := SuperSeeder.peerRemoved_spec sound.paired n peer
          have remains (k : Nat) (other : Peer) (there : (w.manager.step (.clear n)).peerMap.find k = some other) :
              w.manager.peerMap.find k = some other := by
            rw [peers,PtrMap.find_erase] at there
            split at there
            · cases there
            · exact there
          refine ⟨⟨w.manager.step (.clear n),w.superseeder.peerRemoved n peer⟩,by simp [step,found,killed],⟨⟨?_,?_,peers.symm ▸ paired,?_⟩,numChunks⟩,
            fun _ tallied => ?_⟩
          · intro k other there
            rw [numChunks]
            exact sound.measured k other (remains k other there)
          · rw [SuperSeeder.numChunks,counter,ChunkCounter.decBitSet_length,numChunks]
            exact sound.counter
          · rw [cleared]
            exact sound.started
          · obtain ⟨counted,sized⟩ := step_counted tallied.counted tallied.sized (.clear n) trivial
            refine ⟨numChunks.symm ▸ tallied.some_,counted,sized,(seeders (tallied.leechers n peer found)).trans tallied.none_,fun i => ?_,
              fun k other there => tallied.leechers k other (remains k other there)⟩
            rw [counter,cnt,ChunkCounter.decBitSet_get,ChunkCounter.decBitSet_get,tallied.same i]

theorem step_keeps (qrand : Nat → Nat) {w : Swarm} (sound : Sound w) (e : SwarmEvent) : Keeps qrand w e := by
  cases e with
  | join n => exact join_keeps qrand sound n
  | message n packet => exact message_keeps qrand sound n packet
  | kill n => exact kill_keeps qrand sound n
  | clear n => exact clear_keeps qrand sound n

theorem new_sound (numChunks : Nat) (loaded : Bool) : Sound (new numChunks loaded) := by
  refine ⟨?_,List.length_replicate,⟨?_,fun _ => List.nodup_nil,?_⟩,rfl⟩
  · intro n peer found
    cases found
  · intro n c
    constructor
    · intro given
      cases given
    · intro among
      cases among
  · intro n c given
    cases given

theorem new_tallied (loaded : Bool) (some_ : 0 < numChunks) : Tallied (new numChunks loaded) := by
  refine ⟨some_,?_,⟨rfl,List.length_replicate,?_⟩,rfl,fun _ => rfl,?_⟩
  · exact counted_empty _ (fun i => ChunkCounter.new_get _ i) (fun i => BitSet.new_get _ i) rfl
  · intro n peer found
    cases found
  · intro n peer found
    cases found

-- Nobody is a seeder, so those that have a chunk and are no seeders are those that have it.
theorem Tallied.difference (tallied : Tallied w) (i : Nat) : w.superseeder.numSeeders ≤ w.superseeder.chunkCounter.get i ∧
    w.superseeder.chunkCounter.get i - w.superseeder.numSeeders =
      w.manager.peerMap.countValues fun peer => !peer.isSeeder && peer.has i := by
  rw [tallied.none_,Nat.sub_zero,tallied.same i,tallied.counted.count i]
  refine ⟨Nat.zero_le _,?_⟩
  apply List.countP_congr
  intro e among
  have leecher := tallied.leechers e.1 e.2 ((PtrMap.find_eq_some_iff _).mpr among)
  simp only [leecher,Bool.not_false,Bool.true_and]

theorem seeds_counted (qrand : Nat → Nat) (numChunks : Nat) (loaded : Bool) (events : List SwarmEvent) :
    ∃ w, (new numChunks loaded).run qrand events = some w ∧
      (∀ n c, w.superseeder.activePeers.find n = some c ↔ n ∈ w.superseeder.activeChunks c) ∧
      (∀ n c, (w.superseeder.activeChunks c).count n ≤ 1) ∧
      (∀ n c, n ∈ w.superseeder.activeChunks c → (w.manager.peerMap.find n).isSome = true) ∧
      (Through (step qrand) Steady (new numChunks loaded) events → ∀ i < numChunks,
        w.superseeder.numSeeders ≤ w.superseeder.chunkCounter.get i ∧
        w.superseeder.chunkCounter.get i - w.superseeder.numSeeders =
          w.manager.peerMap.countValues fun peer => !peer.isSeeder && peer.has i) := by
  have steps (w : Swarm) (past : List SwarmEvent) (e : SwarmEvent) (sound : Sound w) :
      ∃ w', w.step qrand e = some w' ∧ Sound w' ∧ (Steady w e → Tallied w → Tallied w') := by
    obtain ⟨w',stepped,⟨sound,_⟩,tallied⟩ := step_keeps qrand sound e
    exact ⟨w',stepped,sound,tallied⟩
  obtain ⟨w,ran,sound,tallied⟩ := @Through.run _ _ _ _ _ _ _ [] steps (new_sound numChunks loaded) events
  have paired := sound.paired
  refine ⟨w,ran,paired.inverse,fun n c => List.nodup_iff_count_le_one.mp (paired.once c) n,fun n c among => ?_,fun steady i inside => ?_⟩
  · exact paired.connected n c ((paired.inverse n c).mpr among)
  · exact (tallied steady (new_tallied loaded (Nat.zero_lt_of_lt inside))).difference i

-- One of two peers has the first chunk.
theorem first_chunk_counted : ∃ w, (new 2 true).run (fun _ => 0) [.join 1,.message 1 [4,0,0,0,0],.join 2] = some w ∧
    w.superseeder.numSeeders ≤ w.superseeder.chunkCounter.get 0 ∧
    w.superseeder.chunkCounter.get 0 - w.superseeder.numSeeders =
      w.manager.peerMap.countValues fun peer => !peer.isSeeder && peer.has 0 := by
  obtain ⟨w,ran,_,_,_,counts⟩ := seeds_counted (fun _ => 0) 2 true [.join 1,.message 1 [4,0,0,0,0],.join 2]
  refine ⟨w,ran,counts ⟨trivial,fun w one => ?_⟩ 0 (by decide)⟩
  obtain rfl := Option.some.inj one
  refine ⟨fun peer found _ => ?_,fun w two => ?_⟩
  · cases found
    exact ⟨⟨fun _ _ => rfl,fun bitField => absurd bitField (by decide),fun all => absurd all (by decide)⟩,by decide⟩
  · exact ⟨trivial,fun _ _ => trivial⟩

-- A peer that says HAVE_ALL is a seeder, but none of its chunks is counted.
theorem have_all_wraps : ∃ w, (new 2 true).run (fun _ => 0) [.join 1,.message 1 [14]] = some w ∧
    uint32Sub (w.superseeder.chunkCounter.get 0) w.superseeder.numSeeders = 4294967295 ∧
    (w.manager.peerMap.countValues fun peer => !peer.isSeeder && peer.has 0) = 0 ∧
    ¬ w.superseeder.numSeeders ≤ w.superseeder.chunkCounter.get 0 :=
  ⟨_,rfl,by decide +kernel,by decide +kernel,by decide +kernel⟩

end Swarm
end KtorrentStream.Peer
