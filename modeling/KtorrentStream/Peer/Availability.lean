import KtorrentStream.Peer.PeerManager
set_option autoImplicit true

namespace KtorrentStream.Peer
open KtorrentStream.Util

def Peer.has (peer : Peer) (i : Nat) : Bool := peer.chunksAvailability.get i

-- The counts are those of the peers in the map; what a peer that leaves takes away is there.
structure Counted (m : PeerManager) : Prop where
  count : ∀ i, m.cnt.get i = m.peerMap.countValues fun peer => peer.has i
  noUnderflow : ∀ id peer i, m.peerMap.find id = some peer → peer.has i = true → 0 < m.cnt.get i
  available : ∀ i, m.availableChunks.get i = true ↔ 0 < m.cnt.get i

structure Sized (m : PeerManager) : Prop where
  available : m.availableChunks.numBits = m.numChunks
  cnt : m.cnt.cnt.length = m.numChunks
  peers : ∀ id peer, m.peerMap.find id = some peer → peer.chunksAvailability.numBits = m.numChunks

-- A packet that says something new: HAVE a chunk that the peer has not announced before, and
-- BITFIELD, HAVE_ALL and HAVE_NONE a peer that has not announced any.
def News (peer : Peer) (packet : List UInt8) : Prop :=
  (packet.head? = some 4 → packet.length = 5 → peer.has (readUint32 packet 1) = false) ∧
  (packet.head? = some 5 → packet.length = 1 + peer.chunksAvailability.data.length → ∀ i, peer.has i = false) ∧
  (packet.head? = some 14 ∨ packet.head? = some 15 → packet.length = 1 → ∀ i, peer.has i = false)

def Fresh (m : PeerManager) : PeerEvent → Prop
  | .createPeer => m.peerMap.find m.peerIdCounter = none
  | .handlePacket id packet => ∀ peer, m.peerMap.find id = some peer → peer.killed = false → News peer packet
  | _ => True

theorem have_sized (sized : Sized m) (i : Nat) : Sized (m.have_ i) :=
  ⟨(BitSet.set_numBits _ _ _).trans sized.available,(ChunkCounter.inc_length _ _).trans sized.cnt,sized.peers⟩

theorem have_count (sized : Sized m) (bound : i < m.numChunks) : (m.have_ i).cnt.get j = m.cnt.get j + (i == j).toNat := by
  show (m.cnt.inc i).get j = _
  have room : i < m.cnt.cnt.length := by rw [sized.cnt]; exact bound
  rw [ChunkCounter.inc_get]
  by_cases same : i = j
  · rw [if_pos ⟨same,room⟩,beq_iff_eq.mpr same]
    rfl
  · rw [if_neg fun both => same both.1,beq_eq_false_iff_ne.mpr same]
    rfl

theorem have_available (sized : Sized m) (bound : i < m.numChunks) :
    (m.have_ i).availableChunks.get j = (m.availableChunks.get j || i == j) := by
  show (m.availableChunks.set i true).get j = _
  have room : i < m.availableChunks.numBits := by rw [sized.available]; exact bound
  rw [BitSet.set_get]
  by_cases same : i = j
  · rw [if_pos ⟨same,room⟩,beq_iff_eq.mpr same,Bool.or_true]
  · rw [if_neg fun both => same both.1,beq_eq_false_iff_ne.mpr same,Bool.or_false]

theorem bitSetReceived_foldl (bits : Nat → Bool) (m : PeerManager) (n : Nat) (sized : Sized m) (fits : n ≤ m.numChunks) :
    ∃ m', (List.range n).foldl (fun m i => if bits i then m.have_ i else m) m = m' ∧
      m'.peerMap = m.peerMap ∧ Sized m' ∧ m'.numChunks = m.numChunks ∧
      (∀ j, m'.cnt.get j = m.cnt.get j + (decide (j < n) && bits j).toNat) ∧
      ∀ j, m'.availableChunks.get j = (m.availableChunks.get j || (decide (j < n) && bits j)) := by
  induction n with
  | zero => exact ⟨m,rfl,rfl,sized,rfl,by simp,by simp⟩
  | succ n ih =>
    obtain ⟨m',before,peers,sized',chunks,count,available⟩ := ih (by omega)
    have bound : n < m'.numChunks := by omega
    have split_ (j : Nat) : (decide (j < n + 1) && bits j) = ((decide (j < n) && bits j) || (n == j && bits n)) := by
      by_cases last : n = j
      · subst last
        simp
      · have less : j < n + 1 ↔ j < n := by omega
        simp [less,last]
    rw [List.range_succ,List.foldl_append,before,List.foldl_cons,List.foldl_nil]
    cases on : bits n with
    | false =>
      refine ⟨m',rfl,peers,sized',chunks,fun j => ?_,fun j => ?_⟩
      · rw [count,split_,on,Bool.and_false,Bool.or_false]
      · rw [available,split_,on,Bool.and_false,Bool.or_false]
    | true =>
      refine ⟨m'.have_ n,rfl,peers,have_sized sized' n,chunks,fun j => ?_,fun j => ?_⟩
      · rw [have_count sized' bound,count,split_,on,Bool.and_true]
        by_cases last : n = j
        · subst last
          simp
        · rw [beq_eq_false_iff_ne.mpr last,Bool.or_false]
          rfl
      · rw [have_available sized' bound,available,split_,on,Bool.and_true,Bool.or_assoc]

-- What handling a packet does: the peer announces the chunks of news, and nothing else changes.
structure Heard (m : PeerManager) (peer : Peer) (m' : PeerManager) (peer' : Peer) (news : Nat → Bool) : Prop where
  peers : m'.peerMap = m.peerMap
  sized : Sized m'
  numChunks : m'.numChunks = m.numChunks
  numBits : peer'.chunksAvailability.numBits = peer.chunksAvailability.numBits
  has : ∀ i, peer'.has i = (peer.has i || news i)
  new : ∀ i, news i = true → peer.has i = false
  count : ∀ i, m'.cnt.get i = m.cnt.get i + (news i).toNat
  available : ∀ i, m'.availableChunks.get i = (m.availableChunks.get i || news i)

theorem Heard.nothing (sized : Sized m) (same : peer'.chunksAvailability = peer.chunksAvailability) :
    Heard m peer m peer' fun _ => false where
  peers := rfl
  sized := sized
  numChunks := rfl
  numBits := by rw [same]
  has i := by rw [Peer.has,same,Peer.has,Bool.or_false]
  new i on := by cases on
  count i := rfl
  available i := (Bool.or_false _).symm

theorem Heard.bitSet {peer : Peer} (sized : Sized m) (fits : peer.chunksAvailability.numBits = m.numChunks)
    (none_ : ∀ i, peer.has i = false) (bits : bs.numBits = peer.chunksAvailability.numBits)
    (same : peer'.chunksAvailability = bs) : Heard m peer (m.bitSetReceived bs) peer' bs.get := by
  obtain ⟨m',result,peers,sized',chunks,count,available⟩ := bitSetReceived_foldl bs.get m bs.numBits sized (by omega)
  have inside (i : Nat) : (decide (i < bs.numBits) && bs.get i) = bs.get i := by
    by_cases bound : i < bs.numBits
    · simp [bound]
    · simp [bs.get_of_ge (by omega : bs.numBits ≤ i)]
  rw [PeerManager.bitSetReceived,result]
  refine ⟨peers,sized',chunks,?_,?_,fun i _ => none_ i,?_,?_⟩
  · rw [same,bits]
  · intro i
    rw [Peer.has,same,none_ i,Bool.false_or]
  · intro i
    exact (count i).trans (by rw [inside i])
  · intro i
    exact (available i).trans (by rw [inside i])

theorem handleHaveOf_heard (sized : Sized m) (fits : peer.chunksAvailability.numBits = m.numChunks)
    (unknown : peer.has ch = false) :
    ∃ fresh, Heard m peer (m.handleHaveOf peer ch).1 (m.handleHaveOf peer ch).2 fresh := by
  unfold PeerManager.handleHaveOf
  split
  · rename_i bound
    have known : ch < m.numChunks := by
      rw [← fits]
      exact bound
    refine ⟨fun i => ch == i,rfl,have_sized sized ch,rfl,BitSet.set_numBits _ _ _,?_,?_,?_,?_⟩
    · intro i
      rw [Peer.has,Peer.has,BitSet.set_get]
      by_cases same : ch = i
      · rw [if_pos ⟨same,bound⟩,beq_iff_eq.mpr same,Bool.or_true]
      · rw [if_neg fun both => same both.1,beq_eq_false_iff_ne.mpr same,Bool.or_false]
    · intro i on
      rw [← eq_of_beq on]
      exact unknown
    · intro i
      exact have_count sized known
    · intro i
      exact have_available sized known
  · split <;> exact ⟨_,.nothing sized rfl⟩

theorem Heard.of_same {peer peer₁ : Peer} (heard : Heard m peer₁ m' peer' fresh)
    (same : peer₁.chunksAvailability = peer.chunksAvailability) : Heard m peer m' peer' fresh where
  peers := heard.peers
  sized := heard.sized
  numChunks := heard.numChunks
  numBits := heard.numBits.trans (by rw [same])
  has i := by rw [heard.has i,Peer.has,same,Peer.has]
  new i on := by rw [← heard.new i on,Peer.has,Peer.has,same]
  count := heard.count
  available := heard.available

theorem handleHave_heard (sized : Sized m) (fits : peer.chunksAvailability.numBits = m.numChunks)
    (news : packet.length = 5 → peer.has (readUint32 packet 1) = false) :
    ∃ fresh, Heard m peer (m.handleHave peer packet).1 (m.handleHave peer packet).2 fresh := by
  unfold PeerManager.handleHave
  by_cases length : packet.length = 5
  · rw [if_neg (by simpa using length)]
    let hearing : Peer := {peer with receivedHaveMessage := true}
    have bits : hearing.chunksAvailability.numBits = m.numChunks := fits
    have unknown : hearing.has (readUint32 packet 1) = false := news length
    obtain ⟨fresh,heard⟩ := handleHaveOf_heard sized bits unknown
    exact ⟨fresh,heard.of_same rfl⟩
  · rw [if_pos length]
    exact ⟨_,.nothing sized rfl⟩

theorem handlePacket_heard (sized : Sized m) (fits : peer.chunksAvailability.numBits = m.numChunks)
    (news : peer.killed = false → News peer packet) :
    ∃ fresh, Heard m peer (m.handlePacket peer packet).1 (m.handlePacket peer packet).2 fresh := by
  unfold PeerManager.handlePacket
  cases dead : peer.killed with
  | true => exact ⟨_,.nothing sized rfl⟩
  | false =>
    obtain ⟨have_,bitField,all⟩ := news dead
    rw [if_neg (by decide)]
    split
    · rename_i type
      exact handleHave_heard sized fits (have_ type)
    · rename_i type
      unfold PeerManager.handleBitField
      split
      · split <;> exact ⟨_,.nothing sized rfl⟩
      · rename_i length
        exact ⟨_,.bitSet sized fits (bitField type (by simpa using length)) rfl rfl⟩
    · rename_i type
      unfold PeerManager.handleHaveAll
      split
      · exact ⟨_,.nothing sized rfl⟩
      · rename_i length
        exact ⟨_,.bitSet sized fits (all (.inl type) (by simpa using length)) rfl rfl⟩
    · rename_i type
      unfold PeerManager.handleHaveNone
      split
      · exact ⟨_,.nothing sized rfl⟩
      · rename_i length
        exact ⟨_,.bitSet sized fits (all (.inr type) (by simpa using length)) rfl rfl⟩
    · exact ⟨_,.nothing sized rfl⟩

theorem counted_heard (counted : Counted m) (found : m.peerMap.find n = some peer) (heard : Heard m peer m' peer' fresh) :
    Counted {m' with peerMap := m'.peerMap.modify n fun _ => peer'} := by
  have count (i : Nat) : m'.cnt.get i = (m.peerMap.modify n fun _ => peer').countValues fun peer => peer.has i := by
    have change := m.peerMap.countValues_modify (fun peer => peer.has i) peer' found
    have before := counted.count i
    have news := heard.new i
    rw [heard.has i] at change
    rw [heard.count i]
    cases on : fresh i with
    | false =>
      rw [on,Bool.or_false] at change
      show _ + 0 = _
      omega
    | true =>
      rw [on,news on] at change
      show _ + 1 = _
      simp only [Bool.or_true,Bool.toNat_true,Bool.toNat_false] at change
      omega
  refine ⟨?_,?_,?_⟩
  · rw [heard.peers]
    exact count
  · rw [heard.peers]
    intro k p i found' on
    show 0 < m'.cnt.get i
    rw [count i]
    exact PtrMap.countValues_pos _ _ found' on
  · intro i
    show m'.availableChunks.get i = true ↔ 0 < m'.cnt.get i
    rw [heard.available i,heard.count i,Bool.or_eq_true,counted.available i]
    cases fresh i <;> simp

theorem sized_heard (found : m.peerMap.find n = some peer) (sized : Sized m) (heard : Heard m peer m' peer' fresh) :
    Sized {m' with peerMap := m'.peerMap.modify n fun _ => peer'} := by
  refine ⟨heard.sized.available,heard.sized.cnt,?_⟩
  intro k p found'
  show _ = m'.numChunks
  simp only [PtrMap.find_modify] at found'
  rw [heard.peers] at found'
  rw [heard.numChunks]
  split at found'
  · rename_i same
    rw [same,found] at found'
    cases found'
    rw [heard.numBits]
    exact sized.peers n peer found
  · exact sized.peers k p found'

theorem updateAvailable_foldl (bits : Nat → Bool) (bs : BitSet) (n : Nat) (fits : n ≤ bs.numBits) :
    ∃ bs', (List.range n).foldl (fun bs i => bs.set i (bits i)) bs = bs' ∧ bs'.numBits = bs.numBits ∧
      ∀ j, bs'.get j = if j < n then bits j else bs.get j := by
  induction n with
  | zero => exact ⟨bs,rfl,rfl,by simp⟩
  | succ n ih =>
    obtain ⟨bs',before,numBits,get⟩ := ih (by omega)
    rw [List.range_succ,List.foldl_append,before,List.foldl_cons,List.foldl_nil]
    refine ⟨_,rfl,(BitSet.set_numBits _ _ _).trans numBits,fun j => ?_⟩
    rw [BitSet.set_get,get]
    by_cases last : n = j
    · subst last
      rw [if_pos ⟨rfl,by omega⟩,if_pos (by omega)]
    · rw [if_neg fun both => last both.1]
      by_cases less : j < n
      · rw [if_pos less,if_pos (by omega)]
      · rw [if_neg less,if_neg (by omega)]

theorem updateAvailable_get (m : PeerManager) (available : m.availableChunks.numBits = m.numChunks)
    (cnt : m.cnt.cnt.length = m.numChunks) :
    m.updateAvailableChunks.availableChunks.numBits = m.numChunks ∧
      ∀ j, m.updateAvailableChunks.availableChunks.get j = true ↔ 0 < m.cnt.get j := by
  obtain ⟨bs,result,numBits,get⟩ := updateAvailable_foldl (fun i => m.cnt.get i > 0) m.availableChunks
    m.availableChunks.numBits (Nat.le_refl _)
  rw [PeerManager.updateAvailableChunks,result]
  refine ⟨numBits.trans available,fun j => ?_⟩
  rw [get]
  by_cases inside : j < m.availableChunks.numBits
  · rw [if_pos inside]
    exact decide_eq_true_iff
  · rw [if_neg inside,BitSet.get_of_ge _ (by omega),ChunkCounter.get_of_ge _ (by omega)]
    simp

theorem counted_clear (counted : Counted m) (sized : Sized m) (found : m.peerMap.find n = some peer) :
    let m' := {m with cnt := m.cnt.decBitSet peer.chunksAvailability}.updateAvailableChunks
    Counted {m' with peerMap := m'.peerMap.erase n} ∧ Sized {m' with peerMap := m'.peerMap.erase n} := by
  have length : (m.cnt.decBitSet peer.chunksAvailability).cnt.length = m.numChunks :=
    (ChunkCounter.decBitSet_length _ _).trans sized.cnt
  obtain ⟨numBits,available⟩ := updateAvailable_get {m with cnt := m.cnt.decBitSet peer.chunksAvailability}
    sized.available length
  have count (i : Nat) : (m.cnt.decBitSet peer.chunksAvailability).get i = (m.peerMap.erase n).countValues fun peer => peer.has i := by
    have change := m.peerMap.countValues_erase_found (fun peer => peer.has i) found
    have before := counted.count i
    rw [ChunkCounter.decBitSet_get]
    show m.cnt.get i - (peer.has i).toNat = _
    omega
  refine ⟨⟨count,?_,available⟩,⟨numBits,length,?_⟩⟩
  · intro k p i found' on
    show 0 < (m.cnt.decBitSet peer.chunksAvailability).get i
    rw [count i]
    exact PtrMap.countValues_pos _ _ found' on
  · intro k p found'
    have erased : (m.peerMap.erase n).find k = some p := found'
    rw [PtrMap.find_erase] at erased
    split at erased
    · cases erased
    · exact sized.peers k p erased

theorem Peer.new_has (numChunks i : Nat) : (Peer.new numChunks).has i = false := BitSet.new_get _ _

theorem counted_insert (counted : Counted m) (sized : Sized m) (absent : m.peerMap.find n = none) (next : Nat) :
    Counted {m with peerMap := m.peerMap.insert n (Peer.new m.numChunks),peerIdCounter := next} ∧
      Sized {m with peerMap := m.peerMap.insert n (Peer.new m.numChunks),peerIdCounter := next} := by
  have count (i : Nat) : m.cnt.get i = (m.peerMap.insert n (Peer.new m.numChunks)).countValues fun peer => peer.has i := by
    rw [PtrMap.countValues_insert _ _ _ absent,Peer.new_has,counted.count i]
    rfl
  refine ⟨⟨count,?_,counted.available⟩,⟨sized.available,sized.cnt,?_⟩⟩
  · intro k p i found on
    show 0 < m.cnt.get i
    rw [count i]
    exact PtrMap.countValues_pos _ _ found on
  · intro k p found
    have inserted : (m.peerMap.insert n (Peer.new m.numChunks)).find k = some p := found
    rw [PtrMap.find_insert] at inserted
    split at inserted
    · cases inserted
      rfl
    · exact sized.peers k p inserted

theorem counted_empty (m : PeerManager) (cnt : ∀ i, m.cnt.get i = 0) (available : ∀ i, m.availableChunks.get i = false)
    (nobody : m.peerMap = PtrMap.empty) : Counted m := by
  refine ⟨?_,?_,?_⟩
  · intro i
    rw [cnt i,nobody]
    rfl
  · intro n p i found
    rw [nobody,PtrMap.find_empty] at found
    cases found
  · intro i
    rw [cnt i,available i]
    simp

theorem step_counted (counted : Counted m) (sized : Sized m) (event : PeerEvent) (fresh : Fresh m event) :
    Counted (m.step event) ∧ Sized (m.step event) := by
  cases event with
  | start => exact ⟨⟨counted.count,counted.noUnderflow,counted.available⟩,⟨sized.available,sized.cnt,sized.peers⟩⟩
  | stop =>
    refine ⟨counted_empty _ (fun i => ChunkCounter.new_get _ i) (fun i => ?_) rfl,⟨sized.available,?_,?_⟩⟩
    · show (m.availableChunks.setAll false).get i = false
      by_cases inside : i < m.availableChunks.numBits
      · exact BitSet.setAll_get _ _ inside
      · exact BitSet.get_of_ge _ (by show m.availableChunks.numBits ≤ i; omega)
    · exact List.length_replicate.trans sized.cnt
    · intro n p found
      cases found
  | createPeer =>
    rw [PeerManager.step]
    split
    · exact counted_insert counted sized fresh _
    · exact ⟨counted,sized⟩
  | handlePacket n packet =>
    rw [PeerManager.step]
    cases found : m.peerMap.find n with
    | none => exact ⟨counted,sized⟩
    | some peer =>
      obtain ⟨_,heard⟩ := handlePacket_heard sized (sized.peers n peer found) (fresh peer found)
      exact ⟨counted_heard counted found heard,sized_heard found sized heard⟩
  | kill n =>
    rw [PeerManager.step]
    cases found : m.peerMap.find n with
    | none => exact ⟨counted,sized⟩
    | some peer =>
      have heard : Heard m peer m peer.kill fun _ => false := .nothing sized rfl
      exact ⟨counted_heard counted found heard,sized_heard found sized heard⟩
  | clear n =>
    rw [PeerManager.step]
    cases found : m.peerMap.find n with
    | none => exact ⟨counted,sized⟩
    | some peer =>
      dsimp only
      split
      · exact counted_clear counted sized found
      · exact ⟨counted,sized⟩

inductive Reached (numChunks : Nat) (loaded : Bool) (counter : Nat) : PeerManager → Prop
  | new : Reached numChunks loaded counter (PeerManager.new numChunks loaded counter)
  | step {m : PeerManager} (event : PeerEvent) : Reached numChunks loaded counter m → Fresh m event →
      Reached numChunks loaded counter (m.step event)

-- As long as every packet says something new, the counts are right.
theorem reached_counted (reached : Reached numChunks loaded counter m) : Counted m := by
  suffices both : Counted m ∧ Sized m from both.1
  induction reached with
  | new =>
    refine ⟨counted_empty _ (fun i => ChunkCounter.new_get _ i) (fun i => BitSet.new_get _ i) rfl,⟨rfl,List.length_replicate,?_⟩⟩
    intro n p found
    cases found
  | step event _ fresh ih => exact step_counted ih.1 ih.2 event fresh

-- One peer says HAVE 0.
theorem one_have_counted :
    Counted ((PeerManager.new 1 true 0).run [.start,.createPeer,.handlePacket 0 [4,0,0,0,0]]) := by
  have started : Reached 1 true 0 ((PeerManager.new 1 true 0).run [.start]) := .step .start .new trivial
  have created : Reached 1 true 0 ((PeerManager.new 1 true 0).run [.start,.createPeer]) :=
    .step .createPeer started rfl
  refine reached_counted (.step (.handlePacket 0 [4,0,0,0,0]) created ?_)
  intro peer found _
  cases found
  exact ⟨fun _ _ => rfl,fun bitField => absurd bitField (by decide),fun all => absurd all (by decide)⟩

-- A peer that says HAVE 0 twice is counted twice.
theorem have_twice_counted_twice : ¬ ∀ (numChunks : Nat) (loaded : Bool) (counter : Nat) (events : List PeerEvent),
    Counted ((PeerManager.new numChunks loaded counter).run events) := by
  intro always
  have counted := always 1 true 0 [.start,.createPeer,.handlePacket 0 [4,0,0,0,0],.handlePacket 0 [4,0,0,0,0]]
  have two := counted.count 0
  exact absurd two (by decide +kernel)

end KtorrentStream.Peer
