import KtorrentStream.Diskio.ExclusionLaw
import KtorrentStream.Diskio.ChunksLeft
set_option autoImplicit true

namespace KtorrentStream.Diskio
open KtorrentStream.Lib KtorrentStream.Util KtorrentStream.Torrent KtorrentStream.Torrent.Files

-- What the chunk manager keeps of one chunk, with during_load.
structure ChunkView where
  status : Status
  priority : Priority
  present : Bool
  excluded : Bool
  onlySeed : Bool
  todo : Bool
  duringLoad : Bool
  deriving DecidableEq

namespace ChunkView

def reset (v : ChunkView) : ChunkView :=
  if v.duringLoad then v else {v with status := .notDownloaded,present := false,todo := !v.excluded && !v.onlySeed}

def prioritise (v : ChunkView) (priority : Priority) : ChunkView :=
  {v with
    priority := priority
    onlySeed := priority == .onlySeed
    todo := if priority = .onlySeed ∨ priority = .excluded then false else !v.present}

def exclude (v : ChunkView) : ChunkView := {v with priority := .excluded,excluded := true,onlySeed := false,todo := false,present := false}

def reinclude (v : ChunkView) : ChunkView :=
  {v with priority := .normal,excluded := false,todo := if v.present then v.todo else true}

def mark (v : ChunkView) : ChunkView := {v with status := .onDisk,present := true,todo := false}

-- The four bits, the priority and the status say the same.
structure Sound (v : ChunkView) : Prop where
  todo : v.todo = (!v.present && !v.excluded && !v.onlySeed)
  excluded : v.excluded = (v.priority == .excluded)
  onlySeed : v.onlySeed = (v.priority == .onlySeed)
  present : v.present = (v.status == .onDisk)

-- As after a prioritise with another priority than EXCLUDED.
structure Placed (v : ChunkView) : Prop where
  wanted : v.priority ≠ .excluded
  onlySeed : v.onlySeed = (v.priority == .onlySeed)
  todo : v.excluded = false → v.todo = (!v.present && !v.onlySeed)

-- The excluded bit stays as it is, and with the status the bit for what is on disk.
structure Moves (v v' : ChunkView) : Prop where
  excluded : v'.excluded = v.excluded
  present : v.present = (v.status == .onDisk) → v'.present = (v'.status == .onDisk)

theorem Moves.refl (v : ChunkView) : Moves v v := ⟨rfl,fun same => same⟩

theorem Moves.trans (first : Moves v v') (second : Moves v' v'') : Moves v v'' :=
  ⟨second.excluded.trans first.excluded,fun same => second.present (first.present same)⟩

theorem reset_moves (v : ChunkView) : Moves v v.reset := by
  unfold reset
  split
  · exact .refl v
  · exact ⟨rfl,fun _ => rfl⟩

theorem prioritise_moves (v : ChunkView) (p : Priority) : Moves v (v.prioritise p) := ⟨rfl,fun same => same⟩

theorem Placed.reset (placed : Placed v) : Placed v.reset := by
  unfold ChunkView.reset
  split
  · exact placed
  · refine ⟨placed.wanted,placed.onlySeed,fun off => ?_⟩
    have off : v.excluded = false := off
    simp only [off,Bool.not_false,Bool.true_and]

theorem prioritise_placed (v : ChunkView) (wanted : p ≠ .excluded) : Placed (v.prioritise p) := by
  refine ⟨wanted,rfl,fun _ => ?_⟩
  unfold prioritise
  cases p with
  | excluded => exact absurd rfl wanted
  | onlySeed => simp
  | last | normal | first | preview => simp

theorem Placed.sound_iff (placed : Placed v') (moves : Moves v v') (sound : v.present = (v.status == .onDisk)) : v'.Sound ↔ v.excluded = false := by
  have priority : (v'.priority == Priority.excluded) = false := beq_eq_false_iff_ne.mpr placed.wanted
  constructor
  · intro sound
    rw [← moves.excluded,sound.excluded,priority]
  · intro off
    rw [← moves.excluded] at off
    refine ⟨?_,by rw [off,priority],placed.onlySeed,moves.present sound⟩
    rw [placed.todo off,off,Bool.not_false,Bool.and_true]

theorem Sound.reset (sound : Sound v) : Sound v.reset := by
  unfold ChunkView.reset
  split
  · exact sound
  · exact ⟨rfl,sound.excluded,sound.onlySeed,rfl⟩

theorem Sound.mark (sound : Sound v) : Sound v.mark := ⟨rfl,sound.excluded,sound.onlySeed,rfl⟩

theorem exclude_sound_iff (v : ChunkView) : v.exclude.Sound ↔ v.status ≠ .onDisk := by
  unfold exclude
  constructor
  · intro sound
    exact beq_eq_false_iff_ne.mp sound.present.symm
  · intro gone
    exact ⟨rfl,rfl,rfl,(beq_eq_false_iff_ne.mpr gone).symm⟩

theorem exclude_reset_sound (v : ChunkView) (loaded : v.duringLoad = false) : v.exclude.reset.Sound := by
  unfold reset exclude
  rw [if_neg (by rw [loaded]; decide)]
  exact ⟨rfl,rfl,rfl,rfl⟩

theorem Sound.prioritise_iff (sound : Sound v) (p : Priority) : (v.prioritise p).Sound ↔ v.excluded = (p == .excluded) := by
  by_cases wanted : p = .excluded
  · subst wanted
    constructor
    · intro after
      exact after.excluded
    · intro on
      rw [beq_self_eq_true] at on
      refine ⟨?_,on,rfl,sound.present⟩
      unfold prioritise
      simp [on]
  · rw [(prioritise_placed v wanted).sound_iff (prioritise_moves v p) sound.present,beq_eq_false_iff_ne.mpr wanted]

theorem Sound.reinclude_iff (sound : Sound v) : v.reinclude.Sound ↔ v.onlySeed = false := by
  have todo := sound.todo
  unfold reinclude
  constructor
  · intro after
    exact after.onlySeed
  · intro off
    refine ⟨?_,rfl,off,sound.present⟩
    dsimp only
    rw [off]
    cases held : v.present with
    | true =>
        rw [held] at todo
        exact todo
    | false => rfl

theorem reset_reset (v : ChunkView) : v.reset.reset = v.reset := by
  unfold reset
  cases loading : v.duringLoad with
  | true => rw [if_pos rfl,loading,if_pos rfl]
  | false => rfl

theorem reinclude_reinclude (v : ChunkView) : v.reinclude.reinclude = v.reinclude := by
  unfold reinclude
  cases v.present <;> rfl

end ChunkView

namespace ChunkManager

variable {n : Nat}

def view (m : ChunkManager n) (c : Nat) : ChunkView where
  status := (m.chunk c).status
  priority := (m.chunk c).priority
  present := m.bitset.get c
  excluded := m.excludedChunks.get c
  onlySeed := m.onlySeedChunks.get c
  todo := m.todo.get c
  duringLoad := m.duringLoad

theorem modify_same (m : ChunkManager n) (c : Nat) (f : Chunk → Chunk) : m.modify c f c = f (m.chunk c) := if_pos rfl

theorem set_same (b : ChunkSet n) (on : Bool) (inside : c < n) : (b.set c on).get c = on := by
  rw [ChunkSet.set_get,if_pos ⟨rfl,inside⟩]

theorem Untouched.view (same : Untouched c m m') (loads : m'.duringLoad = m.duringLoad) : m'.view c = m.view c := by
  unfold ChunkManager.view
  rw [same.chunk,same.bitset,same.excludedChunks,same.onlySeedChunks,same.todo,loads]

theorem resetChunk_loads (m : ChunkManager n) (i : Nat) : (m.resetChunk i).duringLoad = m.duringLoad := by
  unfold resetChunk
  split <;> rfl

theorem resetChunk_view (inside : c < n) (m : ChunkManager n) (i : Nat) :
    (m.resetChunk i).view c = if c = i then (m.view c).reset else m.view c := by
  by_cases here : c = i
  · subst here
    rw [if_pos rfl]
    unfold resetChunk ChunkView.reset view
    rw [decide_eq_false (Nat.not_le_of_lt inside),Bool.false_or]
    dsimp only
    cases loading : m.duringLoad with
    | true => rw [if_pos rfl,if_pos rfl,loading]
    | false =>
        rw [if_neg Bool.false_ne_true,if_neg Bool.false_ne_true]
        simp only [modify_same,set_same _ _ inside]
  · rw [if_neg here]
    exact (resetChunk_untouched m i here).view (resetChunk_loads m i)

theorem prioritise_view (inside : c < n) (m : ChunkManager n) (lower upper : Nat) (priority : Priority) :
    (m.prioritise lower upper priority).view c = if c ∈ rangeOf n lower upper then (m.view c).prioritise priority else m.view c := by
  refine @foldl_local _ _ _ _ _ (fun m : ChunkManager n => m.view c) (·.prioritise priority) c (fun _ => rfl) (fun m i => ?_) _ m
  unfold prioritiseChunk view ChunkView.prioritise
  by_cases here : c = i
  · subst here
    rw [if_pos rfl]
    cases priority <;> simp [modify_same,set_same,inside]
  · rw [if_neg here]
    cases priority <;> simp [modify_other,set_other,here]

theorem exclude_view (inside : c < n) (m : ChunkManager n) (lower upper : Nat) :
    (m.exclude lower upper).view c = if c ∈ rangeOf n lower upper then (m.view c).exclude else m.view c := by
  refine @foldl_local _ _ _ _ _ (fun m : ChunkManager n => m.view c) ChunkView.exclude c (fun _ => rfl) (fun m i => ?_) _ m
  unfold excludeChunk view ChunkView.exclude
  by_cases here : c = i
  · subst here
    simp [modify_same,set_same,inside,Chunk.setExclude]
  · simp [modify_other,set_other,here]

theorem includeRange_view (inside : c < n) (m : ChunkManager n) (lower upper : Nat) :
    (m.includeRange lower upper).view c = if c ∈ rangeOf n lower upper then (m.view c).reinclude else m.view c := by
  refine @foldl_local _ _ _ _ _ (fun m : ChunkManager n => m.view c) ChunkView.reinclude c ChunkView.reinclude_reinclude (fun m i => ?_) _ m
  unfold includeChunk view ChunkView.reinclude
  dsimp only
  by_cases here : c = i
  · subst here
    cases present : m.bitset.get c <;> simp [modify_same,set_same,inside,Chunk.setExclude,present]
  · cases present : m.bitset.get i <;> simp [modify_other,set_other,here]

theorem loadEntry_view (inside : c < n) (m : ChunkManager n) (i : Nat) : (m.loadEntry i).view c = if c = i then (m.view c).mark else m.view c := by
  unfold loadEntry view ChunkView.mark
  by_cases here : c = i
  · subst here
    simp [modify_same,set_same,inside]
  · split
    · simp [modify_other,set_other,here]
    · simp

theorem chunkChecked_sound (inside : c < n) (m : ChunkManager n) (okChunks : BitSet) (i : Nat) (sound : (m.view c).Sound) :
    ((m.chunkChecked okChunks i).view c).Sound := by
  by_cases here : c = i
  · subst here
    have status : m.bitset.get c = ((m.chunk c).status == .onDisk) := sound.present
    unfold chunkChecked
    cases ok : okChunks.get c <;> cases held : m.bitset.get c
    · exact sound
    · rw [held] at status
      have disk : (m.chunk c).status = .onDisk := beq_iff_eq.mp status.symm
      refine ⟨?_,sound.excluded.trans ?_,sound.onlySeed.trans ?_,?_⟩
      · simp [view,set_same,inside,Bool.and_comm]
      · simp [view,modify_same,disk]
      · simp [view,modify_same,disk]
      · simp [view,modify_same,set_same,inside,disk]
    · refine ⟨?_,sound.excluded.trans ?_,sound.onlySeed.trans ?_,?_⟩
      · simp [view,set_same,inside]
      · simp [view,modify_same]
      · simp [view,modify_same]
      · simp [view,modify_same,set_same,inside]
    · exact sound
  · have same : Untouched c m (m.chunkChecked okChunks i) ∧ (m.chunkChecked okChunks i).duringLoad = m.duringLoad := by
      unfold chunkChecked
      split
      · exact ⟨⟨modify_other m ({· with status := .onDisk}) here,set_other _ _ here,rfl,rfl,set_other _ _ here⟩,rfl⟩
      · split
        · exact ⟨⟨modify_other m (fun c => if c.status = .onDisk then {c with status := .notDownloaded} else c) here,set_other _ _ here,rfl,rfl,
            set_other _ _ here⟩,rfl⟩
        · exact ⟨.refl c m,rfl⟩
    rw [same.1.view same.2]
    exact sound

theorem chunksLeft_view (m : ChunkManager n) (c : Nat) : m.chunksLeft.2.view c = m.view c := by
  unfold chunksLeft
  split <;> rfl

theorem saved_view (m : ChunkManager n) (writes : Bool) (c : Nat) :
    (if writes then m.saveIndexFile else m).chunksLeft.2.view c = m.view c := by
  rw [chunksLeft_view]
  split <;> rfl

theorem dataChecked_sound (inside : c < n) (m : ChunkManager n) (okChunks : BitSet) (lower upper : Nat) (writes : Bool) (sound : (m.view c).Sound) :
    ((m.dataChecked okChunks lower upper writes).view c).Sound := by
  unfold dataChecked
  dsimp only
  rw [saved_view]
  exact @foldl_related _ _ (fun m i => m.chunkChecked okChunks i) (fun m m' => (m.view c).Sound → (m'.view c).Sound) (fun _ sound => sound)
    (fun first second sound => second (first sound)) _ (fun m i _ => chunkChecked_sound inside m okChunks i) m sound

theorem loadEntries_sound (inside : c < n) (entries : List Nat) (m : ChunkManager n) (sound : (m.view c).Sound) :
    ((entries.foldl loadEntry m).view c).Sound := by
  refine foldl_related (R := fun m m' => (m.view c).Sound → (m'.view c).Sound) (fun _ sound => sound) (fun first second sound => second (first sound)) entries
    (fun m i _ sound => ?_) m sound
  rw [loadEntry_view inside]
  split
  · exact sound.mark
  · exact sound

theorem setLoading_sound (m : ChunkManager n) (on : Bool) (sound : (m.view c).Sound) : (({m with duringLoad := on} : ChunkManager n).view c).Sound :=
  ⟨sound.todo,sound.excluded,sound.onlySeed,sound.present⟩

theorem endLoadIndexFile_sound (inside : c < n) (m : ChunkManager n) (opens : Bool) (hdr : Nat) (fails : Option Nat) (sound : (m.view c).Sound) :
    ((m.endLoadIndexFile opens hdr fails).view c).Sound := by
  unfold endLoadIndexFile
  split
  · exact setLoading_sound m false sound
  · dsimp only
    cases fails with
    | some k => exact loadEntries_sound inside _ m sound
    | none => exact setLoading_sound _ false (loadEntries_sound inside _ m sound)

-- An entry that cannot be written leaves the bit without the status.
theorem chunkDownloaded_sound_iff (m : ChunkManager n) (writes : Bool) (i : Nat) (sound : ∀ c < n, (m.view c).Sound) :
    (∀ c < n, ((m.chunkDownloaded writes i).2.view c).Sound) ↔
      writes = true ∨ n ≤ i ∨ (m.chunk i).isExcluded = true ∨ (m.chunk i).status = .onDisk := by
  unfold chunkDownloaded
  by_cases beyond : i ≥ n
  · rw [if_pos beyond]
    exact iff_of_true sound (.inr (.inl beyond))
  rw [if_neg beyond]
  cases excluded : (m.chunk i).isExcluded with
  | true => exact iff_of_true sound (.inr (.inr (.inl rfl)))
  | false =>
      have inside : i < n := Nat.lt_of_not_le beyond
      have other {c : Nat} {m' : ChunkManager n} (same : Untouched c m m') (loads : m'.duringLoad = m.duringLoad) (small : c < n) : (m'.view c).Sound := by
        rw [same.view loads]
        exact sound c small
      have before := sound i inside
      cases writes with
      | true =>
          refine iff_of_true (fun c small => ?_) (.inl rfl)
          by_cases here : c = i
          · subst here
            refine ⟨?_,before.excluded.trans ?_,before.onlySeed.trans ?_,?_⟩
            · simp [view,set_same,small]
            · simp [view,modify_same]
            · simp [view,modify_same]
            · simp [view,modify_same,set_same,small]
          · exact other ⟨modify_other m ({· with status := .onDisk}) here,set_other _ _ here,rfl,rfl,set_other _ _ here⟩ rfl small
      | false =>
          constructor
          · intro after
            have present := (after i inside).present
            refine .inr (.inr (.inr (beq_iff_eq.mp (present.symm.trans ?_))))
            simp [view,set_same,inside]
          · intro kept
            have disk : (m.chunk i).status = .onDisk := by
              rcases kept with no | no | no | disk
              · cases no
              · exact absurd no beyond
              · cases no
              · exact disk
            intro c small
            by_cases here : c = i
            · subst here
              refine ⟨?_,before.excluded,before.onlySeed,?_⟩
              · simp [view,set_same,small]
              · simp [view,set_same,small,disk]
            · exact other ⟨rfl,set_other _ _ here,rfl,rfl,set_other _ _ here⟩ rfl small

def IsWanted (m : ChunkManager n) (i : Nat) : Prop := (m.chunk i).priority ≠ .excluded ∧ (m.chunk i).priority ≠ .onlySeed

theorem numOnBits_zero (s : ChunkSet n) : s.numOnBits = 0 ↔ ∀ i < n, s.get i = false := by
  rw [ChunkSet.numOnBits_eq,List.countP_eq_zero]
  constructor
  · intro none i small
    exact Bool.eq_false_iff.mpr (none i (List.mem_range.mpr small))
  · intro none i member on
    rw [none i (List.mem_range.mp member)] at on
    cases on

theorem completed_iff (m : ChunkManager n) (sound : ∀ c < n, (m.view c).Sound) :
    m.completed = true ↔ (∃ i < n, m.bitset.get i = true) ∧ ∀ i < n, m.IsWanted i → m.bitset.get i = true := by
  unfold completed
  rw [Bool.and_eq_true,beq_iff_eq,decide_eq_true_iff,numOnBits_zero,and_comm]
  refine and_congr ?_ (forall_congr' fun i => forall_congr' fun small => ?_)
  · rw [gt_iff_lt,Nat.pos_iff_ne_zero,ne_eq,numOnBits_zero]
    push Not
    refine exists_congr fun i => and_congr_right fun _ => ?_
    rw [ne_eq,Bool.not_eq_false]
  · have todo : m.todo.get i = _ := (sound i small).todo
    have excluded : m.excludedChunks.get i = ((m.chunk i).priority == .excluded) := (sound i small).excluded
    have onlySeed : m.onlySeedChunks.get i = ((m.chunk i).priority == .onlySeed) := (sound i small).onlySeed
    have bits : m.todo.get i = (!m.bitset.get i && !((m.chunk i).priority == .excluded) && !((m.chunk i).priority == .onlySeed)) := by
      rw [← excluded,← onlySeed]
      exact todo
    rw [bits]
    unfold IsWanted
    cases m.bitset.get i <;> cases (m.chunk i).priority <;> simp

end ChunkManager

end KtorrentStream.Diskio
