import KtorrentStream.Peer.SuperSeederMaps
set_option autoImplicit true

namespace KtorrentStream.Peer.SuperSeeder
open KtorrentStream.Util

-- counter minus num_seeders is 0.
def Nobody (s : SuperSeeder) (chunk : Nat) : Prop := uint32Sub (s.chunkCounter.get chunk) s.numSeeders = 0

-- One useful chunk is offered, and it is recorded in both maps.
structure Offers (s s' : SuperSeeder) (bs : BitSet) (peer chunk : Nat) : Prop where
  inside : chunk < s.numChunks
  lacks : bs.get chunk = false
  useful : (∃ c < s.numChunks, bs.get c = false ∧ s.Nobody c) → s.Nobody chunk
  allowed : s'.allowed = s.allowed ++ [(peer,chunk)]
  activePeers : ∀ p, s'.activePeers.find p = if p = peer then some chunk else s.activePeers.find p
  activeChunks : ∀ c p, p ∈ s'.activeChunks c ↔ p ∈ s.activeChunks c ∨ c = chunk ∧ p = peer

-- The search comes to a chunk that nobody has, or there is none and the peer lacks the
-- chunk the search starts from.
def Finds (s : SuperSeeder) (bs : BitSet) (start : Nat) : Prop :=
  1 < s.numChunks ∧
    ((∃ c < s.numChunks, c ≠ (start + 1) % s.numChunks ∧ bs.get c = false ∧ s.Nobody c) ∨
      bs.get start = false ∧ ∀ c < s.numChunks, bs.get c = false → ¬ s.Nobody c)

variable {s s' : SuperSeeder} {bs : BitSet} {chunk start k : Nat}

def Ahead (s : SuperSeeder) (chunk k c : Nat) : Prop := ∃ i < k, c = (chunk + 1 + i) % s.numChunks

theorem ahead_succ : s.Ahead chunk (k + 1) c ↔ c = (chunk + 1) % s.numChunks ∨ s.Ahead ((chunk + 1) % s.numChunks) k c := by
  constructor
  · rintro ⟨i,less,rfl⟩
    cases i with
    | zero => exact .inl rfl
    | succ i =>
      refine .inr ⟨i,Nat.lt_of_succ_lt_succ less,?_⟩
      rw [Nat.add_assoc ((chunk + 1) % s.numChunks),Nat.mod_add_mod]
      congr 1
      omega
  · rintro (rfl | ⟨i,less,rfl⟩)
    · exact ⟨0,Nat.succ_pos k,rfl⟩
    · refine ⟨i + 1,Nat.succ_lt_succ less,?_⟩
      rw [Nat.add_assoc ((chunk + 1) % s.numChunks),Nat.mod_add_mod]
      congr 1
      omega

-- All chunks but the first one are ahead.
theorem ahead_all (inside : chunk < s.numChunks) : s.Ahead chunk (s.numChunks - 1) c ↔ c < s.numChunks ∧ c ≠ chunk := by
  constructor
  · rintro ⟨i,less,rfl⟩
    refine ⟨Nat.mod_lt _ (Nat.zero_lt_of_lt inside),?_⟩
    by_cases around : chunk + 1 + i < s.numChunks
    · rw [Nat.mod_eq_of_lt around]
      omega
    · rw [Nat.mod_eq_sub_mod (by omega),Nat.mod_eq_of_lt (by omega)]
      omega
  · rintro ⟨less,other⟩
    by_cases later : chunk < c
    · refine ⟨c - chunk - 1,by omega,?_⟩
      rw [show chunk + 1 + (c - chunk - 1) = c by omega,Nat.mod_eq_of_lt less]
    · refine ⟨c + s.numChunks - chunk - 1,by omega,?_⟩
      rw [show chunk + 1 + (c + s.numChunks - chunk - 1) = c + s.numChunks by omega,Nat.add_mod_right,Nat.mod_eq_of_lt less]

-- With k rounds left: a chunk that nobody has is what the search gives, if it comes to one;
-- otherwise it ends at the start, and an alternative makes the start the result.
theorem search_spec (bs : BitSet) {fuel alternative : Nat} (left : (chunk + k) % s.numChunks = start) (rounds : k < s.numChunks)
    (inside : chunk < s.numChunks) (enough : k < fuel) (among : alternative ≤ s.numChunks) :
    (∃ c, s.Ahead chunk k c ∧ bs.get c = false ∧ s.Nobody c ∧ s.search bs start fuel chunk alternative = some (some c)) ∨
      (∀ c, s.Ahead chunk k c → bs.get c = false → ¬ s.Nobody c) ∧
        ((alternative < s.numChunks ∨ ∃ c, s.Ahead chunk k c ∧ bs.get c = false) ∧
            s.search bs start fuel chunk alternative = some (some start) ∨
          ¬ (alternative < s.numChunks ∨ ∃ c, s.Ahead chunk k c ∧ bs.get c = false) ∧
            s.search bs start fuel chunk alternative = some none) := by
  induction fuel generalizing k chunk alternative with
  | zero => exact absurd enough (Nat.not_lt_zero k)
  | succ fuel ih =>
    cases k with
    | zero =>
      have here : chunk = start := (Nat.mod_eq_of_lt inside).symm.trans left
      have nothing : ∀ c, ¬ s.Ahead chunk 0 c := by
        rintro c ⟨i,less,_⟩
        exact Nat.not_lt_zero i less
      refine .inr ⟨fun c ahead => absurd ahead (nothing c),?_⟩
      rw [search,if_pos here]
      by_cases other : alternative < s.numChunks
      · rw [if_pos other,here]
        exact .inl ⟨.inl other,rfl⟩
      · rw [if_neg other]
        refine .inr ⟨?_,rfl⟩
        rintro (less | ⟨c,ahead,_⟩)
        · exact other less
        · exact nothing c ahead
    | succ k =>
      have further : chunk ≠ start := by
        rintro rfl
        by_cases around : chunk + (k + 1) < s.numChunks
        · rw [Nat.mod_eq_of_lt around] at left
          omega
        · rw [Nat.mod_eq_sub_mod (by omega),Nat.mod_eq_of_lt (by omega)] at left
          omega
      have left : ((chunk + 1) % s.numChunks + k) % s.numChunks = start := by
        rw [Nat.mod_add_mod,Nat.add_right_comm]
        exact left
      have inside := Nat.mod_lt (chunk + 1) (Nat.zero_lt_of_lt inside)
      have again {alternative : Nat} := @ih ((chunk + 1) % s.numChunks) k alternative left (by omega) inside (Nat.lt_of_succ_lt_succ enough)
      rw [search,if_neg further]
      dsimp only
      simp only [ahead_succ]
      generalize (chunk + 1) % s.numChunks = next at left inside again
      by_cases has : bs.get next = true
      · rw [if_pos has]
        have lacking : ∀ c, bs.get c = false → (c = next ∨ s.Ahead next k c) → s.Ahead next k c := by
          rintro c lacks (rfl | ahead)
          · rw [has] at lacks
            cases lacks
          · exact ahead
        rcases again among with ⟨c,ahead,lacks,nobody,found⟩ | ⟨none,last⟩
        · exact .inl ⟨c,.inr ahead,lacks,nobody,found⟩
        · have same : (∃ c, (c = next ∨ s.Ahead next k c) ∧ bs.get c = false) ↔ ∃ c, s.Ahead next k c ∧ bs.get c = false := by
            constructor
            · rintro ⟨c,ahead,lacks⟩
              exact ⟨c,lacking c lacks ahead,lacks⟩
            · rintro ⟨c,ahead,lacks⟩
              exact ⟨c,.inr ahead,lacks⟩
          rw [same]
          exact .inr ⟨fun c ahead lacks => none c (lacking c lacks ahead) lacks,last⟩
      · have lacks : bs.get next = false := (Bool.not_eq_true _).mp has
        rw [if_neg has]
        by_cases nobody : s.Nobody next
        · rw [if_pos (show uint32Sub (s.chunkCounter.get next) s.numSeeders = 0 from nobody)]
          exact .inl ⟨next,.inl rfl,lacks,nobody,rfl⟩
        · rw [if_neg (show ¬ uint32Sub (s.chunkCounter.get next) s.numSeeders = 0 from nobody)]
          have found : (if alternative = s.numChunks then next else alternative) < s.numChunks := by
            split <;> omega
          rcases again (Nat.le_of_lt found) with ⟨c,ahead,lacks,nobody,found⟩ | ⟨none,⟨_,last⟩ | ⟨without,_⟩⟩
          · exact .inl ⟨c,.inr ahead,lacks,nobody,found⟩
          · refine .inr ⟨?_,.inl ⟨.inr ⟨next,.inl rfl,lacks⟩,last⟩⟩
            rintro c (rfl | ahead) lacks
            · exact nobody
            · exact none c ahead lacks
          · exact absurd (.inl found) without

theorem offers_allow (s : SuperSeeder) (inside : chunk < s.numChunks) (lacks : bs.get chunk = false)
    (useful : (∃ c < s.numChunks, bs.get c = false ∧ s.Nobody c) → s.Nobody chunk) :
    Offers s ({s with draws := s.draws + 1}.allow peer chunk) bs peer chunk where
  inside := inside
  lacks := lacks
  useful := useful
  allowed := rfl
  activePeers p := PtrMap.find_insert _
  activeChunks c p := by
    unfold allow
    dsimp only
    by_cases here : c = chunk
    · rw [if_pos here,List.mem_cons,or_comm]
      simp [here]
    · rw [if_neg here]
      simp [here]

-- Only one chunk can have been offered.
theorem offers_unique (offers : Offers s ({s with draws := s.draws + 1}.allow peer chunk) bs peer other) : other = chunk := by
  have same := List.append_cancel_left (show s.allowed ++ [(peer,chunk)] = s.allowed ++ [(peer,other)] from offers.allowed)
  cases same
  rfl

theorem offers_drawn (s : SuperSeeder) (bs : BitSet) (peer chunk : Nat) : ¬ Offers s {s with draws := s.draws + 1} bs peer chunk := by
  intro offers
  have same := congrArg List.length (show s.allowed = s.allowed ++ [(peer,chunk)] from offers.allowed)
  rw [List.length_append,List.length_singleton] at same
  omega

theorem sendChunk_search (qrand : Nat → Nat) {peers : PtrMap Peer} {s : SuperSeeder} {peer : Nat} {p : Peer}
    (idle : s.activePeers.contains peer = false) (there : peers.find peer = some p) (leecher : p.chunksAvailability.allOn = false) :
    sendChunk qrand peers s peer =
      (s.search p.chunksAvailability (qrand s.draws % s.numChunks) s.numChunks ((qrand s.draws % s.numChunks + 1) % s.numChunks)
        s.numChunks).map fun
          | none => {s with draws := s.draws + 1}
          | some chunk => {s with draws := s.draws + 1}.allow peer chunk := by
  unfold sendChunk
  rw [if_neg (by rw [idle]; exact Bool.false_ne_true),there,Option.bind_some]
  exact if_neg (by rw [leecher]; exact Bool.false_ne_true)

theorem sendChunk_offers (qrand : Nat → Nat) (peers : PtrMap Peer) (s : SuperSeeder) (peer : Nat) (p : Peer)
    (chunks : 0 < s.numChunks) (idle : s.activePeers.contains peer = false) (there : peers.find peer = some p)
    (leecher : p.chunksAvailability.allOn = false) :
    (∃ s' chunk, sendChunk qrand peers s peer = some s' ∧ Offers s s' p.chunksAvailability peer chunk) ↔
      s.Finds p.chunksAvailability (qrand s.draws % s.numChunks) := by
  rw [sendChunk_search qrand idle there leecher]
  have startInside := Nat.mod_lt (qrand s.draws) chunks
  generalize qrand s.draws % s.numChunks = start at startInside
  have inside := Nat.mod_lt (start + 1) chunks
  have left : ((start + 1) % s.numChunks + (s.numChunks - 1)) % s.numChunks = start := by
    rw [Nat.mod_add_mod,Nat.add_assoc,Nat.add_sub_cancel' chunks,Nat.add_mod_right,Nat.mod_eq_of_lt startInside]
  have away : 1 < s.numChunks → start ≠ (start + 1) % s.numChunks := by
    intro more same
    by_cases around : start + 1 < s.numChunks
    · rw [Nat.mod_eq_of_lt around] at same
      omega
    · rw [show start + 1 = s.numChunks by omega,Nat.mod_self] at same
      omega
  unfold Finds
  rcases search_spec p.chunksAvailability left (Nat.sub_one_lt (Nat.ne_of_gt chunks)) inside
      (Nat.sub_one_lt (Nat.ne_of_gt chunks)) (Nat.le_refl s.numChunks) with
    ⟨c,ahead,lacks,nobody,found⟩ | ⟨none,last⟩
  · obtain ⟨less,other⟩ := (ahead_all inside).mp ahead
    rw [found]
    refine ⟨fun _ => ⟨?_,.inl ⟨c,less,other,lacks,nobody⟩⟩,fun _ => ⟨_,c,rfl,offers_allow s less lacks fun _ => nobody⟩⟩
    omega
  · have unknown : ∀ c < s.numChunks, c ≠ (start + 1) % s.numChunks → p.chunksAvailability.get c = false → ¬ s.Nobody c :=
      fun c less other => none c ((ahead_all inside).mpr ⟨less,other⟩)
    rcases last with ⟨alternative,found⟩ | ⟨without,found⟩
    · obtain ⟨c,ahead,_⟩ := alternative.resolve_left (Nat.lt_irrefl _)
      obtain ⟨less,other⟩ := (ahead_all inside).mp ahead
      have more : 1 < s.numChunks := by omega
      rw [found]
      constructor
      · rintro ⟨s',chunk,same,offers⟩
        cases same
        obtain rfl := offers_unique offers
        refine ⟨more,.inr ⟨offers.lacks,fun c less lacks nobody => ?_⟩⟩
        exact unknown chunk startInside (away more) offers.lacks (offers.useful ⟨c,less,lacks,nobody⟩)
      · rintro ⟨_,⟨c,less,other,lacks,nobody⟩ | ⟨lacks,nowhere⟩⟩
        · exact absurd nobody (unknown c less other lacks)
        · refine ⟨_,start,rfl,offers_allow s startInside lacks ?_⟩
          rintro ⟨c,less,lacks,nobody⟩
          exact absurd nobody (nowhere c less lacks)
    · rw [found]
      constructor
      · rintro ⟨s',chunk,same,offers⟩
        cases same
        exact absurd offers (offers_drawn s _ peer chunk)
      · rintro ⟨more,⟨c,less,other,lacks,nobody⟩ | ⟨lacks,_⟩⟩
        · exact absurd nobody (unknown c less other lacks)
        · exact absurd (.inr ⟨start,(ahead_all inside).mpr ⟨startInside,away more⟩,lacks⟩) without

theorem first_offer : ∃ s' chunk, sendChunk (fun _ => 0) (PtrMap.empty.insert 7 (Peer.new 3)) (SuperSeeder.new 3) 7 =
    some s' ∧ Offers (SuperSeeder.new 3) s' (Peer.new 3).chunksAvailability 7 chunk :=
  (sendChunk_offers (fun _ => 0) _ (SuperSeeder.new 3) 7 (Peer.new 3) (by decide) (by decide) rfl (by decide)).mpr
    ⟨by decide,.inl ⟨0,by decide,by decide,by decide,rfl⟩⟩

-- Each of the three chunks is with some peer; the newcomer has chunk 0.
def known : SuperSeeder := {SuperSeeder.new 3 with chunkCounter := ⟨[1,1,1]⟩}

def newcomer : Peer := {Peer.new 3 with chunksAvailability := (BitSet.new 3).set 0 true}

-- It is offered chunk 0, from where the search started.
theorem useless_offer : ¬ ∃ s' chunk, sendChunk (fun _ => 0) (PtrMap.empty.insert 7 newcomer) known 7 = some s' ∧
    Offers known s' newcomer.chunksAvailability 7 chunk := by
  rintro ⟨s',chunk,sent,offers⟩
  have result : (sendChunk (fun _ => 0) (PtrMap.empty.insert 7 newcomer) known 7).map SuperSeeder.allowed = some [(7,0)] := by
    decide +kernel
  rw [sent] at result
  have allowed : known.allowed ++ [(7,chunk)] = [(7,0)] := offers.allowed.symm.trans (Option.some.inj result)
  cases allowed
  have lacks := offers.lacks
  revert lacks
  decide

end KtorrentStream.Peer.SuperSeeder
