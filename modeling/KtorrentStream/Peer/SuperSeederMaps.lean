import KtorrentStream.Peer.SuperSeeder
set_option autoImplicit true

namespace KtorrentStream.Peer
open KtorrentStream.Util

-- The sets of the peers are as long as the torrent, and their bits are counted.
def Measured (numChunks : Nat) (peers : PtrMap Peer) : Prop :=
  ∀ n peer, peers.find n = some peer → peer.chunksAvailability.numBits = numChunks ∧ peer.chunksAvailability.Counted

namespace SuperSeeder

variable {s : SuperSeeder} {peers : PtrMap Peer}

-- Both maps say the same, each pair once, and only of connected peers.
structure Paired (peers : PtrMap Peer) (s : SuperSeeder) : Prop where
  inverse : ∀ n c, s.activePeers.find n = some c ↔ n ∈ s.activeChunks c
  once : ∀ c, (s.activeChunks c).Nodup
  connected : ∀ n c, s.activePeers.find n = some c → (peers.find n).isSome = true

theorem Paired.mono (paired : Paired peers s) (more : ∀ n, (peers.find n).isSome = true → (peers'.find n).isSome = true) :
    Paired peers' s :=
  ⟨paired.inverse,paired.once,fun n c given => more n (paired.connected n c given)⟩

theorem Paired.allow (paired : Paired peers s) (idle : s.activePeers.find n = none) (there : (peers.find n).isSome = true) (chunk : Nat) :
    Paired peers (s.allow n chunk) := by
  have nowhere (c : Nat) : n ∉ s.activeChunks c := by
    intro among
    rw [(paired.inverse n c).mpr among] at idle
    cases idle
  have find (k : Nat) : (s.allow n chunk).activePeers.find k = if k = n then some chunk else s.activePeers.find k :=
    PtrMap.find_insert _
  have under (c : Nat) : (s.allow n chunk).activeChunks c = if c = chunk then n :: s.activeChunks c else s.activeChunks c := rfl
  refine ⟨?_,?_,?_⟩
  · intro k c
    rw [find,under]
    by_cases same : k = n
    · subst same
      rw [if_pos rfl]
      by_cases here : c = chunk
      · simp [here]
      · simp [here,nowhere c,Ne.symm here]
    · rw [if_neg same,paired.inverse k c]
      by_cases here : c = chunk
      · simp [here,same]
      · simp [here]
  · intro c
    rw [under]
    split
    · exact List.nodup_cons.mpr ⟨nowhere c,paired.once c⟩
    · exact paired.once c
  · intro k c given
    rw [find] at given
    split at given
    · rename_i same
      rw [same]
      exact there
    · exact paired.connected k c given

theorem find_eraseAll (others : List Nat) (map : PtrMap Nat) :
    (others.foldl PtrMap.erase map).find k = if k ∈ others then none else map.find k := by
  induction others generalizing map with
  | nil => rfl
  | cons n rest ih =>
      rw [List.foldl_cons,ih,PtrMap.find_erase]
      by_cases later : k ∈ rest
      · simp [later]
      · by_cases now : k = n
        · simp [now]
        · simp [now,later]

theorem Paired.withdraw (paired : Paired peers s) (chunk : Nat) (stays : Nat → Bool)
    (s' : SuperSeeder) (under : ∀ c, s'.activeChunks c = if c = chunk then (s.activeChunks c).filter stays else s.activeChunks c)
    (find : ∀ k, s'.activePeers.find k = if k ∈ (s.activeChunks chunk).filter (fun n => !stays n) then none else s.activePeers.find k) :
    Paired peers s' := by
  refine ⟨?_,?_,?_⟩
  · intro k c
    rw [find,under]
    by_cases here : c = chunk
    · subst here
      cases keep : stays k with
      | true => simp [keep,paired.inverse k c]
      | false =>
          by_cases among : k ∈ s.activeChunks c
          · simp [keep,among]
          · simp [keep,among,mt (paired.inverse k c).mp among]
    · rw [if_neg here,← paired.inverse k c]
      split
      · rename_i gone
        have other := (paired.inverse k chunk).mpr (List.mem_of_mem_filter gone)
        simp [other,Ne.symm here]
      · exact Iff.rfl
  · intro c
    rw [under]
    split
    · exact (paired.once c).filter _
    · exact paired.once c
  · intro k c given
    rw [find] at given
    split at given
    · cases given
    · exact paired.connected k c given

structure SameCounts (s s' : SuperSeeder) : Prop where
  counter : s'.chunkCounter = s.chunkCounter
  seeders : s'.numSeeders = s.numSeeders

theorem SameCounts.numChunks (same : SameCounts s s') : s'.numChunks = s.numChunks := by
  rw [SuperSeeder.numChunks,same.counter,SuperSeeder.numChunks]

theorem deactivate_spec (paired : Paired peers s) (n : Nat) :
    Paired peers (s.deactivate n) ∧ SameCounts s (s.deactivate n) ∧ (s.deactivate n).activePeers.find n = none := by
  rw [deactivate]
  cases given : s.activePeers.find n with
  | none => exact ⟨paired,⟨rfl,rfl⟩,given⟩
  | some chunk =>
      refine ⟨paired.withdraw chunk (fun k => k ≠ n) _ (fun c => rfl) ?_,⟨rfl,rfl⟩,?_⟩
      · intro k
        have among := (paired.inverse n chunk).mp given
        rw [PtrMap.find_erase]
        by_cases same : k = n
        · simp [same,among]
        · simp [same]
      · exact (PtrMap.find_erase _).trans (if_pos rfl)

theorem search_ends {start fuel k chunk : Nat} (bs : BitSet) (left : (chunk + k) % s.numChunks = start) (inside : chunk < s.numChunks)
    (enough : k < fuel) (alternative : Nat) : ∃ found, s.search bs start fuel chunk alternative = some found := by
  induction fuel generalizing k chunk alternative with
  | zero => exact absurd enough (Nat.not_lt_zero k)
  | succ fuel ih =>
      rw [search]
      split
      · exact ⟨_,rfl⟩
      · rename_i further
        cases k with
        | zero => exact absurd ((Nat.mod_eq_of_lt inside).symm.trans left) further
        | succ k =>
            have left : ((chunk + 1) % s.numChunks + k) % s.numChunks = start := by
              rw [Nat.mod_add_mod,Nat.add_right_comm]
              exact left
            have inside := Nat.mod_lt (chunk + 1) (Nat.zero_lt_of_lt inside)
            have enough := Nat.lt_of_succ_lt_succ enough
            dsimp only
            split
            · exact ih left inside enough alternative
            · split
              · exact ⟨_,rfl⟩
              · exact ih left inside enough _

theorem not_seeder {bs : BitSet} (counted : bs.Counted) (leecher : ¬ bs.allOn = true) : 0 < bs.numBits := by
  rcases Nat.eq_zero_or_pos bs.numBits with nothing | some
  · have on : bs.numOn = bs.numBits := by
      rw [counted,BitSet.count,nothing]
      rfl
    exact absurd (beq_iff_eq.mpr on) leecher
  · exact some

theorem sendChunk_spec (qrand : Nat → Nat) (measured : Measured s.numChunks peers) (paired : Paired peers s) (there : peers.find n = some peer) :
    ∃ s', sendChunk qrand peers s n = some s' ∧ Paired peers s' ∧ SameCounts s s' := by
  unfold sendChunk
  split
  · exact ⟨s,rfl,paired,rfl,rfl⟩
  · rename_i idle
    have idle : s.activePeers.find n = none := by
      rw [PtrMap.contains] at idle
      exact Option.not_isSome_iff_eq_none.mp idle
    rw [there,Option.bind_some]
    split
    · exact ⟨s,rfl,paired,rfl,rfl⟩
    · rename_i leecher
      obtain ⟨length,counted⟩ := measured n peer there
      have positive : 0 < s.numChunks := length ▸ not_seeder counted leecher
      have start := Nat.mod_lt (qrand s.draws) positive
      have around : ((qrand s.draws % s.numChunks + 1) % s.numChunks + (s.numChunks - 1)) % s.numChunks = qrand s.draws % s.numChunks := by
        rw [Nat.mod_add_mod,Nat.add_assoc,Nat.add_sub_cancel' positive,Nat.add_mod_right,Nat.mod_mod]
      obtain ⟨found,ended⟩ := search_ends peer.chunksAvailability around (Nat.mod_lt _ positive) (Nat.sub_one_lt (Nat.ne_of_gt positive)) s.numChunks
      dsimp only
      rw [ended,Option.map_some]
      have drawn : Paired peers {s with draws := s.draws + 1} := ⟨paired.inverse,paired.once,paired.connected⟩
      cases found with
      | none => exact ⟨_,rfl,drawn,rfl,rfl⟩
      | some chunk => exact ⟨_,rfl,drawn.allow idle (by rw [there]; rfl) chunk,rfl,rfl⟩

theorem sendChunks_spec (qrand : Nat → Nat) (measured : Measured s.numChunks peers) (paired : Paired peers s) (others : List Nat)
    (there : ∀ n ∈ others, (peers.find n).isSome = true) :
    ∃ s', others.foldlM (sendChunk qrand peers) s = some s' ∧ Paired peers s' ∧ SameCounts s s' := by
  induction others generalizing s with
  | nil => exact ⟨s,rfl,paired,rfl,rfl⟩
  | cons n rest ih =>
      obtain ⟨peer,found⟩ := Option.isSome_iff_exists.mp (there n List.mem_cons_self)
      obtain ⟨next,sent,paired,same⟩ := sendChunk_spec qrand measured paired found
      obtain ⟨s',all,paired,same'⟩ := ih (same.numChunks.symm ▸ measured) paired fun k among => there k (List.mem_cons_of_mem n among)
      refine ⟨s',?_,paired,same'.counter.trans same.counter,same'.seeders.trans same.seeders⟩
      rw [List.foldlM_cons,sent]
      exact all

theorem have_spec (qrand : Nat → Nat) (measured : Measured s.numChunks peers) (paired : Paired peers s) (there : peers.find n = some peer) (chunk : Nat) :
    ∃ s', s.have_ qrand peers n chunk = some s' ∧ Paired peers s' ∧ s'.chunkCounter = s.chunkCounter.inc chunk ∧
      (peer.chunksAvailability.allOn = false → s'.numSeeders = s.numSeeders) := by
  have length : Measured (s.toldHave n peer chunk).numChunks peers := by
    rw [numChunks,toldHave,ChunkCounter.inc_length]
    exact measured
  have withdrawn : Paired peers (s.toldHave n peer chunk) := by
    refine paired.withdraw chunk (fun k => k = n) _ (fun c => rfl) fun k => ?_
    rw [toldHave,find_eraseAll]
    simp
  obtain ⟨s',sent,paired',same⟩ := sendChunks_spec qrand length withdrawn ((s.activeChunks chunk).filter (· ≠ n)) fun k among =>
    paired.connected k chunk ((paired.inverse k chunk).mpr (List.mem_of_mem_filter among))
  refine ⟨s',?_,paired',same.counter,fun leecher => ?_⟩
  · rw [have_,there,Option.bind_some]
    exact sent
  · rw [same.seeders]
    exact if_neg (by rw [leecher]; exact Bool.false_ne_true)

theorem haveAll_paired (paired : Paired peers s) (n : Nat) : Paired peers (s.haveAll n) ∧ (s.haveAll n).chunkCounter = s.chunkCounter := by
  obtain ⟨paired,same,_⟩ := deactivate_spec paired n
  exact ⟨⟨paired.inverse,paired.once,paired.connected⟩,same.counter⟩

theorem haves_spec (qrand : Nat → Nat) (measured : Measured s.numChunks peers) (paired : Paired peers s) (there : peers.find n = some peer)
    (bits : Nat → Bool) (m : Nat) (fits : m ≤ s.numChunks) :
    ∃ s', (List.range m).foldlM (fun s i => if bits i then s.have_ qrand peers n i else some s) s = some s' ∧ Paired peers s' ∧
      s'.numChunks = s.numChunks ∧ (∀ j, s'.chunkCounter.get j = s.chunkCounter.get j + (decide (j < m) && bits j).toNat) ∧
      (peer.chunksAvailability.allOn = false → s'.numSeeders = s.numSeeders) := by
  induction m with
  | zero => exact ⟨s,rfl,paired,rfl,fun j => by simp,fun _ => rfl⟩
  | succ m ih =>
      obtain ⟨next,before,paired,length,counts,seeders⟩ := ih (Nat.le_of_succ_le fits)
      have others (j : Nat) (other : j ≠ m) : decide (j < m + 1) = decide (j < m) := by
        rw [decide_eq_decide]
        omega
      rw [List.range_succ,List.foldlM_append,before]
      cases on : bits m with
      | false =>
          refine ⟨next,?_,paired,length,fun j => ?_,seeders⟩
          · simp [on]
          · rw [counts j]
            by_cases last : j = m
            · simp [last,on]
            · rw [others j last]
      | true =>
          obtain ⟨s',told,paired,counter,same⟩ := have_spec qrand (length.symm ▸ measured) paired there m
          refine ⟨s',?_,paired,?_,fun j => ?_,fun leecher => (same leecher).trans (seeders leecher)⟩
          · simp [on,told]
          · rw [numChunks,counter,ChunkCounter.inc_length]
            exact length
          · have room : m < next.chunkCounter.cnt.length := by
              rw [← numChunks,length]
              exact fits
            rw [counter,ChunkCounter.inc_get,counts j]
            by_cases last : j = m
            · simp [last,on,room]
            · rw [if_neg fun both => last both.1.symm,others j last,Nat.add_zero]

theorem bitset_spec (qrand : Nat → Nat) (measured : Measured s.numChunks peers) (paired : Paired peers s) (there : peers.find n = some peer) :
    ∃ s', s.bitset qrand peers n peer.chunksAvailability = some s' ∧ Paired peers s' ∧ s'.numChunks = s.numChunks ∧
      (peer.chunksAvailability.allOn = false → s'.numSeeders = s.numSeeders ∧
        ∀ j, s'.chunkCounter.get j = s.chunkCounter.get j + (peer.chunksAvailability.get j).toNat) := by
  unfold bitset
  split
  · rename_i seeder
    obtain ⟨paired,counter⟩ := haveAll_paired paired n
    refine ⟨_,rfl,paired,congrArg (fun c => c.cnt.length) counter,fun leecher => ?_⟩
    rw [seeder] at leecher
    cases leecher
  · have length := (measured n peer there).1
    obtain ⟨s',told,paired,numChunks,counts,seeders⟩ :=
      haves_spec qrand measured paired there peer.chunksAvailability.get peer.chunksAvailability.numBits (Nat.le_of_eq length)
    refine ⟨s',told,paired,numChunks,fun leecher => ⟨seeders leecher,fun j => ?_⟩⟩
    rw [counts j]
    by_cases inside : j < peer.chunksAvailability.numBits
    · simp [inside]
    · simp [peer.chunksAvailability.get_of_ge (Nat.not_lt.mp inside)]

theorem peerAdded_spec (qrand : Nat → Nat) (measured : Measured s.numChunks peers) (paired : Paired peers s) (there : peers.find n = some peer) :
    ∃ s', s.peerAdded qrand peers n = some s' ∧ Paired peers s' ∧ s'.numChunks = s.numChunks ∧
      (peer.chunksAvailability.allOn = false → s'.numSeeders = s.numSeeders ∧
        s'.chunkCounter = s.chunkCounter.incBitSet peer.chunksAvailability) := by
  unfold peerAdded
  rw [there,Option.bind_some]
  split
  · rename_i seeder
    refine ⟨_,rfl,⟨paired.inverse,paired.once,paired.connected⟩,rfl,fun leecher => ?_⟩
    rw [seeder] at leecher
    cases leecher
  · have length : (s.chunkCounter.incBitSet peer.chunksAvailability).cnt.length = s.numChunks := ChunkCounter.incBitSet_length _ _
    have counted : Paired peers {s with chunkCounter := s.chunkCounter.incBitSet peer.chunksAvailability} :=
      ⟨paired.inverse,paired.once,paired.connected⟩
    have measured : Measured (s.chunkCounter.incBitSet peer.chunksAvailability).cnt.length peers := length ▸ measured
    obtain ⟨s',sent,paired,same⟩ := sendChunk_spec qrand (s := {s with chunkCounter := s.chunkCounter.incBitSet peer.chunksAvailability}) measured counted there
    exact ⟨s',sent,paired,same.numChunks.trans length,fun _ => ⟨same.seeders,same.counter⟩⟩

theorem peerRemoved_spec (paired : Paired peers s) (n : Nat) (p : Peer) :
    Paired (peers.erase n) (s.peerRemoved n p) ∧ (s.peerRemoved n p).chunkCounter = s.chunkCounter.decBitSet p.chunksAvailability ∧
      (p.chunksAvailability.allOn = false → (s.peerRemoved n p).numSeeders = s.numSeeders) := by
  obtain ⟨paired,same,gone⟩ := deactivate_spec paired n
  refine ⟨⟨paired.inverse,paired.once,fun k c given => ?_⟩,congrArg (·.decBitSet p.chunksAvailability) same.counter,fun leecher => ?_⟩
  · have given : (s.deactivate n).activePeers.find k = some c := given
    have other : k ≠ n := by
      rintro rfl
      rw [gone] at given
      cases given
    rw [PtrMap.find_erase,if_neg other]
    exact paired.connected k c given
  · rw [peerRemoved]
    simp only [leecher,Bool.false_and,Bool.false_eq_true,if_false]
    exact same.seeders

end SuperSeeder
end KtorrentStream.Peer
