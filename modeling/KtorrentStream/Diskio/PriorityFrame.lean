import KtorrentStream.Diskio.FilePriorities
import KtorrentStream.Diskio.BytesLeft
set_option autoImplicit true

namespace KtorrentStream.Diskio
open KtorrentStream.Lib KtorrentStream.Util KtorrentStream.Torrent KtorrentStream.Torrent.Files

namespace ChunkManager

variable {n : Nat} {m m' m'' : ChunkManager n}

structure Untouched (c : Nat) (m m' : ChunkManager n) : Prop where
  chunk : m'.chunk c = m.chunk c
  bitset : m'.bitset.get c = m.bitset.get c
  excludedChunks : m'.excludedChunks.get c = m.excludedChunks.get c
  onlySeedChunks : m'.onlySeedChunks.get c = m.onlySeedChunks.get c
  todo : m'.todo.get c = m.todo.get c

theorem Untouched.refl (c : Nat) (m : ChunkManager n) : Untouched c m m := ⟨rfl,rfl,rfl,rfl,rfl⟩

theorem Untouched.trans (first : Untouched c m m') (second : Untouched c m' m'') : Untouched c m m'' :=
  ⟨second.chunk.trans first.chunk,second.bitset.trans first.bitset,second.excludedChunks.trans first.excludedChunks,
    second.onlySeedChunks.trans first.onlySeedChunks,second.todo.trans first.todo⟩

theorem modify_other (m : ChunkManager n) (f : Chunk → Chunk) (other : c ≠ i) : m.modify i f c = m.chunk c := if_neg other

theorem set_other (b : ChunkSet n) (on : Bool) (other : c ≠ i) : (b.set i on).get c = b.get c := by
  rw [ChunkSet.set_get,if_neg]
  exact fun same => other same.1.symm

theorem foldl_untouched {f : ChunkManager n → Nat → ChunkManager n} (each : ∀ m i, c ≠ i → Untouched c m (f m i)) {l : List Nat} (out : c ∉ l)
    (m : ChunkManager n) : Untouched c m (l.foldl f m) := by
  apply foldl_related (Untouched.refl c) Untouched.trans
  intro m i member
  apply each m i
  intro here
  rw [here] at out
  exact out member

theorem resetChunk_untouched (m : ChunkManager n) (i : Nat) (other : c ≠ i) : Untouched c m (m.resetChunk i) := by
  unfold resetChunk
  split
  · exact .refl c m
  · exact ⟨modify_other m ({· with status := .notDownloaded}) other,set_other _ _ other,rfl,rfl,set_other _ _ other⟩

theorem prioritise_untouched (m : ChunkManager n) (priority : Priority) (out : c ∉ rangeOf n lower upper) :
    Untouched c m (m.prioritise lower upper priority) := by
  refine foldl_untouched (fun m i other => ?_) out m
  unfold prioritiseChunk
  have chunk : m.modify i ({· with priority := priority}) c = m.chunk c := modify_other m _ other
  cases priority <;> exact ⟨chunk,rfl,rfl,set_other _ _ other,set_other _ _ other⟩

theorem exclude_untouched (m : ChunkManager n) (out : c ∉ rangeOf n lower upper) : Untouched c m (m.exclude lower upper) := by
  have each := foldl_untouched (f := excludeChunk) (fun m i other =>
    ⟨modify_other m (·.setExclude true) other,set_other _ _ other,set_other _ _ other,set_other _ _ other,set_other _ _ other⟩) out m
  exact ⟨each.chunk,each.bitset,each.excludedChunks,each.onlySeedChunks,each.todo⟩

theorem includeRange_untouched (m : ChunkManager n) (out : c ∉ rangeOf n lower upper) : Untouched c m (m.includeRange lower upper) := by
  have each := foldl_untouched (f := includeChunk) (fun m i other => by
    unfold includeChunk
    dsimp only
    split
    · exact ⟨modify_other m (·.setExclude false) other,rfl,set_other _ _ other,rfl,set_other _ _ other⟩
    · exact ⟨modify_other m (·.setExclude false) other,rfl,set_other _ _ other,rfl,rfl⟩) out m
  exact ⟨each.chunk,each.bitset,each.excludedChunks,each.onlySeedChunks,each.todo⟩

theorem foldl_priority {f : ChunkManager n → Nat → ChunkManager n} {p : Priority} (each : ∀ m i, (f m i).chunk = m.modify i ({· with priority := p}))
    (l : List Nat) (m : ChunkManager n) : ((l.foldl f m).chunk c).priority = if c ∈ l then p else (m.chunk c).priority := by
  induction l generalizing m with
  | nil => rfl
  | cons i rest ih =>
      rw [List.foldl_cons,ih,each]
      unfold modify
      by_cases here : c = i
      · simp [here]
      · simp [here]

theorem prioritise_priority (m : ChunkManager n) (lower upper : Nat) (priority : Priority) :
    ((m.prioritise lower upper priority).chunk c).priority = if c ∈ rangeOf n lower upper then priority else (m.chunk c).priority := by
  refine foldl_priority (fun m i => ?_) _ m
  unfold prioritiseChunk
  cases priority <;> rfl

theorem exclude_priority (m : ChunkManager n) (lower upper : Nat) :
    ((m.exclude lower upper).chunk c).priority = if c ∈ rangeOf n lower upper then .excluded else (m.chunk c).priority :=
  foldl_priority (f := excludeChunk) (fun _ _ => rfl) _ m

theorem resetChunk_priority (m : ChunkManager n) (i : Nat) : ((m.resetChunk i).chunk c).priority = (m.chunk c).priority := by
  unfold resetChunk
  split
  · rfl
  · show (m.modify i _ c).priority = _
    unfold modify
    split <;> rfl

end ChunkManager

namespace PriorityControl

variable {t : Files} {e : FilePriorities} {s s' s'' : PriorityControl t}

-- Chunks that are not from lo to hi stay as they are.
def Within (lo hi : Nat) (s s' : PriorityControl t) : Prop := ∀ c, ¬ (lo ≤ c ∧ c ≤ hi) → ChunkManager.Untouched c s.manager s'.manager

def priorityOf (s : PriorityControl t) (c : Nat) : Priority := (s.manager.chunk c).priority

theorem Within.refl (lo hi : Nat) (s : PriorityControl t) : Within lo hi s s := fun c _ => .refl c s.manager

theorem Within.trans (first : Within lo hi s s') (second : Within lo hi s' s'') : Within lo hi s s'' :=
  fun c out => (first c out).trans (second c out)

theorem Within.widen (within : Within lo hi s s') (low : lo' ≤ lo) (high : hi ≤ hi') : Within lo' hi' s s' :=
  fun c out => within c (by omega)

theorem Within.priority (within : Within lo hi s s') (out : ¬ (lo ≤ c ∧ c ≤ hi)) : s'.priorityOf c = s.priorityOf c :=
  congrArg Chunk.priority (within c out).chunk

theorem foldl_within {f : PriorityControl t → Nat → PriorityControl t} (l : List Nat) (each : ∀ s, ∀ i ∈ l, Within lo hi s (f s i))
    (s : PriorityControl t) : Within lo hi s (l.foldl f s) := foldl_related (Within.refl lo hi) Within.trans l each s

theorem resetChunk_within (s : PriorityControl t) (i : Nat) : Within i i s (s.resetChunk i) :=
  fun _ out => ChunkManager.resetChunk_untouched s.manager i (by omega)

theorem prioritise_within (s : PriorityControl t) (order : lower ≤ upper) (priority : Priority) :
    Within lower upper s (s.prioritise lower upper priority) :=
  fun c out => ChunkManager.prioritise_untouched s.manager priority (by rw [ChunkManager.mem_rangeOf]; omega)

theorem includeRange_within (s : PriorityControl t) (order : lower ≤ upper) : Within lower upper s (s.includeRange lower upper) :=
  fun c out => ChunkManager.includeRange_untouched s.manager (by rw [ChunkManager.mem_rangeOf]; omega)

theorem cancelDownload_within (s : PriorityControl t) (i : Nat) : Within i i s (s.cancelDownload i) := by
  unfold cancelDownload
  split
  · exact resetChunk_within s i
  · exact .refl i i s

theorem cancelDownload_priority (s : PriorityControl t) (i : Nat) : (s.cancelDownload i).priorityOf c = s.priorityOf c := by
  unfold cancelDownload
  split
  · exact ChunkManager.resetChunk_priority s.manager i
  · rfl

theorem excluded_within (s : PriorityControl t) (lower upper : Nat) : Within lower upper s (s.excluded lower upper) := by
  refine foldl_within _ (fun s i among => ?_) s
  obtain ⟨low,high⟩ := mem_upTo.mp among
  exact (cancelDownload_within s i).widen low high

theorem excluded_priority (s : PriorityControl t) (lower upper : Nat) : (s.excluded lower upper).priorityOf c = s.priorityOf c :=
  foldl_fixed (f := fun s => s.priorityOf c) cancelDownload_priority _ s

theorem exclude_within (s : PriorityControl t) (order : lower ≤ upper) : Within lower upper s (s.exclude lower upper) := by
  have first : Within lower upper s {s with manager := s.manager.exclude lower upper} :=
    fun c out => ChunkManager.exclude_untouched s.manager (by rw [ChunkManager.mem_rangeOf]; omega)
  unfold exclude
  rw [Nat.min_eq_left order,Nat.max_eq_right order]
  exact first.trans (excluded_within _ lower upper)

theorem exclude_priority (s : PriorityControl t) (lower upper : Nat) : (s.exclude lower upper).priorityOf c =
    if c ∈ ChunkManager.rangeOf t.numChunks lower upper then .excluded else s.priorityOf c := by
  unfold exclude
  rw [excluded_priority]
  exact ChunkManager.exclude_priority s.manager lower upper

theorem prioritise_priority (s : PriorityControl t) (lower upper : Nat) (priority : Priority) : (s.prioritise lower upper priority).priorityOf c =
    if c ∈ ChunkManager.rangeOf t.numChunks lower upper then priority else s.priorityOf c :=
  ChunkManager.prioritise_priority s.manager lower upper priority

theorem overlaps_inside (here : Overlaps t c j) : c < t.numChunks ∧ j < t.numFiles := by
  obtain ⟨some_,_,bytes⟩ := here
  have whole := t.start_le (j + 1)
  rw [start_succ] at whole
  refine ⟨lt_numChunks.mpr (by omega),Nat.lt_of_not_le fun past => ?_⟩
  rw [size_of_ge t past] at some_
  exact Nat.lt_irrefl 0 some_

theorem mem_filesAt (s : PriorityControl t) (c j : Nat) : j ∈ (s.filesAt c).1 ↔ Overlaps t c j := by
  unfold filesAt
  dsimp only
  by_cases inside : c < t.numChunks
  · rw [(calcChunkPos_spec s.posValid inside).1,mem_filesOf]
    exact ⟨fun member => member.2.2,fun here => ⟨Nat.zero_le j,(overlaps_inside here).2,here⟩⟩
  · rw [calcChunkPos,if_pos (.inl (Nat.le_of_not_lt inside))]
    exact ⟨fun member => absurd member List.not_mem_nil,fun here => absurd (overlaps_inside here).1 inside⟩

theorem higher_ge (h p : Priority) : h.value ≤ (higher h p).value ∧ p.value ≤ (higher h p).value := by
  unfold higher
  split
  · exact ⟨by omega,Nat.le_refl _⟩
  · exact ⟨Nat.le_refl _,by omega⟩

theorem highest_ge (e : FilePriorities) (l : List Nat) (prio : Priority) : prio.value ≤ (l.foldl (fun h k => higher h (e.priority k)) prio).value ∧
    ∀ j ∈ l, (e.priority j).value ≤ (l.foldl (fun h k => higher h (e.priority k)) prio).value := by
  induction l generalizing prio with
  | nil => exact ⟨Nat.le_refl _,fun _ member => nomatch member⟩
  | cons k rest ih =>
      have step := higher_ge prio (e.priority k)
      have later := ih (higher prio (e.priority k))
      rw [List.foldl_cons]
      refine ⟨Nat.le_trans step.1 later.1,fun j member => ?_⟩
      rcases List.mem_cons.mp member with rfl | among
      · exact Nat.le_trans step.2 later.1
      · exact later.2 j among

-- The chunk has at least the priority of each of its files.
def Meets (e : FilePriorities) (s : PriorityControl t) (c : Nat) : Prop := ∀ j, Overlaps t c j → (e.priority j).value ≤ (s.priorityOf c).value

theorem Within.meets (within : Within lo hi s s') (out : ¬ (lo ≤ c ∧ c ≤ hi)) (meets : Meets e s c) : Meets e s' c := fun j here => by
  rw [within.priority out]
  exact meets j here

theorem value_least (p : Priority) : Priority.excluded.value ≤ p.value := by cases p <;> decide

theorem value_most (p : Priority) : p.value ≤ Priority.preview.value := by cases p <;> decide

theorem Meets.of_excluded (s : PriorityControl t) (all : ∀ j, Overlaps t c j → e.priority j = .excluded) : Meets e s c := fun j here => by
  rw [all j here]
  exact value_least _

theorem setBorderChunkPriority_within (s : PriorityControl t) (idx : Nat) (prio : Priority) : Within idx idx s (s.setBorderChunkPriority e idx prio) := by
  have set (p : Priority) : Within idx idx s ((s.filesAt idx).2.prioritise idx idx p) :=
    prioritise_within (s.filesAt idx).2 (Nat.le_refl idx) p
  unfold setBorderChunkPriority
  dsimp only
  split
  · exact (set _).trans (excluded_within _ idx idx)
  · exact set _

theorem setBorderChunkPriority_meets (s : PriorityControl t) (idx : Nat) (prio : Priority) : Meets e (s.setBorderChunkPriority e idx prio) idx := by
  intro j here
  have among := (mem_filesAt s idx j).mpr here
  have enough := (highest_ge e (s.filesAt idx).1 prio).2 j among
  have in_ : idx ∈ ChunkManager.rangeOf t.numChunks idx idx := by
    rw [ChunkManager.mem_rangeOf]
    have := (overlaps_inside here).1
    omega
  have set (p : Priority) : ((s.filesAt idx).2.prioritise idx idx p).priorityOf idx = p := by rw [prioritise_priority,if_pos in_]
  unfold setBorderChunkPriority
  dsimp only
  split
  · rw [excluded_priority,set]
    exact enough
  · rw [set]
    exact enough

-- Of a border chunk of an excluded file: either another file needs it, and it gets
-- the priority for that, or none does.
structure Resets (e : FilePriorities) (s : PriorityControl t) (idx k : Nat) (r : Bool × PriorityControl t) : Prop where
  within : Within idx idx s r.2
  needed : r.1 = false → Meets e r.2 idx ∧ ∃ j, j ≠ k ∧ Overlaps t idx j ∧ e.priority j ≠ .excluded
  free : r.1 = true → ∀ j, j ≠ k → Overlaps t idx j → e.priority j = .excluded

theorem resetBorderChunk_spec (s : PriorityControl t) (idx k : Nat) : Resets e s idx k (s.resetBorderChunk e idx k) := by
  unfold resetBorderChunk
  dsimp only
  cases search : (s.filesAt idx).1.find? fun j => j != k && e.priority j != .excluded with
  | some other =>
      have found := List.find?_some search
      have among := (mem_filesAt s idx other).mp (List.mem_of_find?_eq_some search)
      simp only [Bool.and_eq_true,bne_iff_ne] at found
      refine ⟨setBorderChunkPriority_within (s.filesAt idx).2 idx _,fun _ => ⟨setBorderChunkPriority_meets _ idx _,other,found.1,among,found.2⟩,?_⟩
      intro free
      cases free
  | none =>
      refine ⟨resetChunk_within (s.filesAt idx).2 idx,fun needed => (nomatch needed),fun _ j other here => ?_⟩
      have not := List.find?_eq_none.mp search j ((mem_filesAt s idx j).mpr here)
      simp only [Bool.and_eq_true,bne_iff_ne,not_and,not_not] at not
      exact not other

theorem lastChunk_le_next (t : Files) (i : Nat) : (t.file i).lastChunk ≤ (t.file (i + 1)).firstChunk := by
  rw [lastChunk_eq,firstChunk_eq,start_succ]
  split
  · exact Nat.div_le_div_right (by omega)
  · exact Nat.div_le_div_right (by omega)

theorem isBorderChunk_iff : isBorderChunk t c = true ↔ ∃ i, i + 1 < t.numFiles ∧ (t.file i).lastChunk = c ∧ (t.file (i + 1)).firstChunk = c := by
  unfold isBorderChunk
  rw [List.any_eq_true]
  constructor
  · rintro ⟨i,member,same⟩
    rw [Bool.and_eq_true,beq_iff_eq,beq_iff_eq] at same
    exact ⟨i,by have := List.mem_range.mp member; omega,same⟩
  · rintro ⟨i,few,same⟩
    refine ⟨i,List.mem_range.mpr (by omega),?_⟩
    rw [Bool.and_eq_true,beq_iff_eq,beq_iff_eq]
    exact same

theorem overlaps_bounds (here : Overlaps t c j) : (t.file j).firstChunk ≤ c ∧ c ≤ (t.file j).lastChunk := by
  have among := overlaps_iff.mp here
  unfold has at among
  simp only [Bool.and_eq_true,decide_eq_true_iff] at among
  exact among.1

-- A chunk of a file that has bytes of another one is the file's first or last, and
-- a border chunk.
theorem shared_border (inside : k < t.numFiles) (low : (t.file k).firstChunk ≤ c) (high : c ≤ (t.file k).lastChunk) (other : j ≠ k)
    (here : Overlaps t c j) : isBorderChunk t c = true ∧ (c = (t.file k).firstChunk ∨ c = (t.file k).lastChunk) := by
  obtain ⟨first,last⟩ := overlaps_bounds here
  have few := (overlaps_inside here).2
  rcases Nat.lt_or_gt_of_ne other with before | after
  · obtain ⟨i,rfl⟩ : ∃ i, k = i + 1 := Nat.exists_eq_succ_of_ne_zero (by omega)
    have order := lastChunk_mono (t := t) (show j ≤ i by omega)
    have next := lastChunk_le_next t i
    exact ⟨isBorderChunk_iff.mpr ⟨i,by omega,by omega,by omega⟩,.inl (by omega)⟩
  · have order := firstChunk_mono (t := t) (show k + 1 ≤ j by omega)
    have next := lastChunk_le_next t k
    exact ⟨isBorderChunk_iff.mpr ⟨k,by omega,by omega,by omega⟩,.inr (by omega)⟩

-- The range of a file's chunks.
def Inside (t : Files) (k : Nat) (s s' : PriorityControl t) : Prop := Within (t.file k).firstChunk (t.file k).lastChunk s s'

-- The chunks that the file shares with others have the priorities of all of them.
def SharedMeet (e : FilePriorities) (k : Nat) (s : PriorityControl t) : Prop :=
  ∀ c, (t.file k).firstChunk ≤ c → c ≤ (t.file k).lastChunk → (∃ j, j ≠ k ∧ Overlaps t c j) → Meets e s c

def Needed (t : Files) (e : FilePriorities) (k c : Nat) : Prop := ∃ j, j ≠ k ∧ Overlaps t c j ∧ e.priority j ≠ .excluded

def BothNeeded (t : Files) (e : FilePriorities) (k : Nat) : Prop :=
  (t.file k).firstChunk + 1 = (t.file k).lastChunk ∧ Needed t e k (t.file k).firstChunk ∧ Needed t e k (t.file k).lastChunk

theorem sharedMeet_of_ends (inside : k < t.numFiles) (front : isBorderChunk t (t.file k).firstChunk = true → Meets e s (t.file k).firstChunk)
    (back : isBorderChunk t (t.file k).lastChunk = true → Meets e s (t.file k).lastChunk) : SharedMeet e k s := by
  rintro c low high ⟨j,other,here⟩
  obtain ⟨border,rfl | rfl⟩ := shared_border inside low high other here
  · exact front border
  · exact back border

theorem meets_of_unneeded (s : PriorityControl t) (own : e.priority k = .excluded) (free : ¬ Needed t e k c) : Meets e s c := by
  refine Meets.of_excluded s fun j here => ?_
  by_cases same : j = k
  · rw [same]
    exact own
  · by_contra wanted
    exact free ⟨j,same,here,wanted⟩

theorem unneeded (free : ∀ j, j ≠ k → Overlaps t c j → e.priority j = .excluded) : ¬ Needed t e k c := fun ⟨j,other,here,wanted⟩ =>
  wanted (free j other here)

-- What is done to one end of an excluded file. moved is the end of the range that
-- is excluded then.
structure End (e : FilePriorities) (k c moved : Nat) (stays goes : Nat) (s s' : PriorityControl t) : Prop where
  within : Within c c s s'
  kept : moved = stays ∨ moved = goes ∧ Meets e s' c ∧ isBorderChunk t c = true ∧ Needed t e k c
  free : moved = stays → isBorderChunk t c = true → stays ≠ goes → ¬ Needed t e k c

theorem end_spec (s : PriorityControl t) (goes : Nat) :
    End e k c (if !isBorderChunk t c then (c,s.resetChunk c) else (if (s.resetBorderChunk e c k).1 then c else goes,(s.resetBorderChunk e c k).2)).1 c goes s
      (if !isBorderChunk t c then (c,s.resetChunk c) else (if (s.resetBorderChunk e c k).1 then c else goes,(s.resetBorderChunk e c k).2)).2 := by
  cases border : isBorderChunk t c with
  | false => exact ⟨resetChunk_within s c,.inl rfl,fun _ there => (nomatch border.symm.trans there)⟩
  | true =>
      have spec := resetBorderChunk_spec (e := e) s c k
      cases result : (s.resetBorderChunk e c k).1 with
      | true =>
          rw [if_neg (by decide),if_pos rfl]
          exact ⟨spec.within,.inl rfl,fun _ _ _ => unneeded (spec.free result)⟩
      | false =>
          rw [if_neg (by decide),if_neg (by decide)]
          obtain ⟨meets,needed⟩ := spec.needed result
          exact ⟨spec.within,.inr ⟨rfl,meets,border,needed⟩,fun same _ apart => absurd same.symm apart⟩

theorem foldl_reset_within (s : PriorityControl t) (first last : Nat) :
    Within first last s ((List.range' (first + 1) (last - (first + 1))).foldl resetChunk s) := by
  refine foldl_within _ (fun s i among => ?_) s
  have bounds := List.mem_range'_1.mp among
  exact (resetChunk_within s i).widen (by omega) (by omega)

theorem excludeEnds (s : PriorityControl t) (order : first < last) (front : End e k first f first (first + 1) s s₁)
    (back : f ≠ last → End e k last b last (last - 1) s₁ s₂) (skipped : f = last → b = last ∧ s₂ = s₁) :
    Within first last s (if f ≤ b then s₂.exclude f b else s₂) := by
  have low : first ≤ f ∧ f ≤ last := by
    rcases front.kept with rfl | ⟨rfl,_⟩
    · omega
    · omega
  have upTo : Within first last s₁ s₂ ∧ b ≤ last := by
    by_cases same : f = last
    · obtain ⟨rfl,rfl⟩ := skipped same
      exact ⟨.refl _ _ _,Nat.le_refl _⟩
    · have end_ := back same
      refine ⟨end_.within.widen (Nat.le_of_lt order) (Nat.le_refl _),?_⟩
      rcases end_.kept with rfl | ⟨rfl,_⟩
      · exact Nat.le_refl _
      · exact Nat.sub_le _ _
  have begun : Within first last s s₂ := (front.within.widen (Nat.le_refl _) (Nat.le_of_lt order)).trans upTo.1
  split
  · rename_i some_
    exact begun.trans ((exclude_within s₂ some_).widen low.1 upTo.2)
  · exact begun

theorem excluded_meets (s : PriorityControl t) (out : f ≤ b → ¬ (f ≤ c ∧ c ≤ b)) (meets : Meets e s c) : Meets e (if f ≤ b then s.exclude f b else s) c := by
  split
  · rename_i some_
    exact (exclude_within s some_).meets (out some_) meets
  · exact meets

theorem excludeEnds_meets (s : PriorityControl t) (own : e.priority k = .excluded) (order : first < last)
    (front : End e k first f first (first + 1) s s₁) (back : f ≠ last → End e k last b last (last - 1) s₁ s₂) (skipped : f = last → b = last ∧ s₂ = s₁)
    (apart : ¬ (first + 1 = last ∧ Needed t e k first ∧ Needed t e k last)) :
    (isBorderChunk t first = true → Meets e (if f ≤ b then s₂.exclude f b else s₂) first) ∧
      (isBorderChunk t last = true → Meets e (if f ≤ b then s₂.exclude f b else s₂) last) := by
  constructor
  · intro border
    rcases front.kept with rfl | ⟨rfl,meets,_,_⟩
    · exact meets_of_unneeded _ own (front.free rfl border (by omega))
    · refine excluded_meets s₂ (by omega) ?_
      by_cases same : first + 1 = last
      · obtain ⟨_,rfl⟩ := skipped same
        exact meets
      · exact (back same).within.meets (by omega) meets
  · intro border
    by_cases same : f = last
    · rcases front.kept with rfl | ⟨rfl,_,_,needed⟩
      · exact absurd same (Nat.ne_of_lt order)
      · exact meets_of_unneeded _ own fun wanted => apart ⟨same,needed,wanted⟩
    · have end_ := back same
      rcases end_.kept with rfl | ⟨rfl,meets,_,_⟩
      · exact meets_of_unneeded _ own (end_.free rfl border (by omega))
      · exact excluded_meets s₂ (by omega) meets

-- An excluded file: its chunks alone change, and a chunk that another file needs
-- keeps the priority for it, unless there are two and both are needed.
theorem excludeFile_spec (s : PriorityControl t) (k : Nat) : Inside t k s (s.excludeFile e k) ∧
    (k < t.numFiles → e.priority k = .excluded → ¬ BothNeeded t e k → SharedMeet e k (s.excludeFile e k)) := by
  unfold excludeFile Inside
  dsimp only
  by_cases single : (t.file k).firstChunk = (t.file k).lastChunk
  · rw [if_pos single,← single]
    cases border : isBorderChunk t (t.file k).firstChunk with
    | false =>
        rw [if_pos (by decide)]
        refine ⟨(resetChunk_within s _).trans (exclude_within _ (Nat.le_refl _)),fun inside _ _ => sharedMeet_of_ends inside ?_ ?_⟩
        · intro there
          cases border.symm.trans there
        · intro there
          rw [← single] at there
          cases border.symm.trans there
    | true =>
        rw [if_neg (by decide)]
        have spec := resetBorderChunk_spec (e := e) s (t.file k).firstChunk k
        cases result : (s.resetBorderChunk e (t.file k).firstChunk k).1 with
        | true =>
            rw [if_pos rfl]
            refine ⟨spec.within.trans (exclude_within _ (Nat.le_refl _)),fun inside own _ => ?_⟩
            have free := unneeded (spec.free result)
            exact sharedMeet_of_ends inside (fun _ => meets_of_unneeded _ own free) fun _ => single ▸ meets_of_unneeded _ own free
        | false =>
            rw [if_neg (by decide)]
            have meets := (spec.needed result).1
            exact ⟨spec.within,fun inside _ _ => sharedMeet_of_ends inside (fun _ => meets) fun _ => single ▸ meets⟩
  · rw [if_neg single]
    have order : (t.file k).firstChunk < (t.file k).lastChunk := by
      have := firstChunk_le_lastChunk t k
      omega
    have start := foldl_reset_within s (t.file k).firstChunk (t.file k).lastChunk
    generalize (List.range' _ _).foldl resetChunk s = s₀ at start ⊢
    have front := end_spec (e := e) (k := k) (c := (t.file k).firstChunk) s₀ ((t.file k).firstChunk + 1)
    generalize (if (!isBorderChunk t (t.file k).firstChunk) = true then _ else _ : Nat × PriorityControl t) = f at front ⊢
    have back := end_spec (e := e) (k := k) (c := (t.file k).lastChunk) f.2 ((t.file k).lastChunk - 1)
    generalize (if (!isBorderChunk t (t.file k).lastChunk) = true then _ else _ : Nat × PriorityControl t) = b at back ⊢
    have taken : ∀ r : Nat × PriorityControl t, r = (if (t.file k).lastChunk ≠ f.1 then b else ((t.file k).lastChunk,f.2)) →
        (f.1 ≠ (t.file k).lastChunk → End e k (t.file k).lastChunk r.1 (t.file k).lastChunk ((t.file k).lastChunk - 1) f.2 r.2) ∧
        (f.1 = (t.file k).lastChunk → r.1 = (t.file k).lastChunk ∧ r.2 = f.2) := by
      rintro r rfl
      refine ⟨fun apart => ?_,fun same => ?_⟩
      · rw [if_pos (Ne.symm apart)]
        exact back
      · rw [if_neg (fun apart => apart same.symm)]
        exact ⟨rfl,rfl⟩
    generalize made : (if (t.file k).lastChunk ≠ f.1 then b else ((t.file k).lastChunk,f.2)) = r
    obtain ⟨back,skipped⟩ := taken r made.symm
    refine ⟨start.trans (excludeEnds s₀ order front back skipped),fun inside own apart => ?_⟩
    obtain ⟨first,last⟩ := excludeEnds_meets s₀ own order front back skipped apart
    exact sharedMeet_of_ends inside first last

theorem setEnd_spec (s : PriorityControl t) (goes : Nat) (prio : Priority) :
    Within c c s (if isBorderChunk t c then (goes,s.setBorderChunkPriority e c prio) else (c,s)).2 ∧
    (isBorderChunk t c = true → (if isBorderChunk t c then (goes,s.setBorderChunkPriority e c prio) else (c,s)).1 = goes ∧
      Meets e (if isBorderChunk t c then (goes,s.setBorderChunkPriority e c prio) else (c,s)).2 c) ∧
    (isBorderChunk t c = false → (if isBorderChunk t c then (goes,s.setBorderChunkPriority e c prio) else (c,s)).1 = c) := by
  cases border : isBorderChunk t c with
  | true => exact ⟨setBorderChunkPriority_within s c prio,fun _ => ⟨rfl,setBorderChunkPriority_meets s c prio⟩,fun none => Bool.noConfusion none⟩
  | false => exact ⟨.refl c c s,fun none => Bool.noConfusion none,fun _ => rfl⟩

theorem prioritised_within (s : PriorityControl t) (some_ : first ≤ last) (p : Priority) :
    Within first last s (if p = .onlySeed then (s.prioritise first last p).excluded first last else s.prioritise first last p) := by
  split
  · exact (prioritise_within s some_ p).trans (excluded_within _ first last)
  · exact prioritise_within s some_ p

theorem prioritiseFile_spec (s : PriorityControl t) (k : Nat) (p : Priority) : Inside t k s (s.prioritiseFile e k p) ∧
    (k < t.numFiles → SharedMeet e k (s.prioritiseFile e k p)) := by
  unfold prioritiseFile Inside
  dsimp only
  by_cases single : (t.file k).firstChunk = (t.file k).lastChunk
  · rw [if_pos single,← single]
    have signal : ∀ s' : PriorityControl t, Within (t.file k).firstChunk (t.file k).firstChunk s s' →
        (isBorderChunk t (t.file k).firstChunk = true → Meets e s' (t.file k).firstChunk) →
        Within (t.file k).firstChunk (t.file k).firstChunk s
          (if p = .onlySeed then s'.excluded (t.file k).firstChunk (t.file k).firstChunk else s') ∧
        (k < t.numFiles → SharedMeet e k (if p = .onlySeed then s'.excluded (t.file k).firstChunk (t.file k).firstChunk else s')) := by
      intro s' within meets
      have kept : isBorderChunk t (t.file k).firstChunk = true →
          Meets e (if p = .onlySeed then s'.excluded (t.file k).firstChunk (t.file k).firstChunk else s') (t.file k).firstChunk := by
        intro border j here
        split
        · rw [excluded_priority]
          exact meets border j here
        · exact meets border j here
      refine ⟨?_,fun inside => sharedMeet_of_ends inside kept fun border => ?_⟩
      · split
        · exact within.trans (excluded_within s' _ _)
        · exact within
      · rw [← single] at border ⊢
        exact kept border
    cases border : isBorderChunk t (t.file k).firstChunk with
    | true => exact signal _ (setBorderChunkPriority_within s _ p) fun _ => setBorderChunkPriority_meets s _ p
    | false => exact signal _ (prioritise_within s (Nat.le_refl _) p) fun there => (nomatch border.symm.trans there)
  · rw [if_neg single]
    have order : (t.file k).firstChunk < (t.file k).lastChunk := by
      have := firstChunk_le_lastChunk t k
      omega
    obtain ⟨front,frontMeets,frontSame⟩ := setEnd_spec (e := e) (c := (t.file k).firstChunk) s ((t.file k).firstChunk + 1) p
    generalize (if isBorderChunk t (t.file k).firstChunk = true then _ else _ : Nat × PriorityControl t) = f at *
    obtain ⟨back,backMeets,backSame⟩ := setEnd_spec (e := e) (c := (t.file k).lastChunk) f.2 ((t.file k).lastChunk - 1) p
    generalize (if isBorderChunk t (t.file k).lastChunk = true then _ else _ : Nat × PriorityControl t) = b at *
    have low : (t.file k).firstChunk ≤ f.1 := by
      cases border : isBorderChunk t (t.file k).firstChunk with
      | true => exact Nat.le_trans (Nat.le_succ _) (Nat.le_of_eq (frontMeets border).1.symm)
      | false => exact Nat.le_of_eq (frontSame border).symm
    have high : b.1 ≤ (t.file k).lastChunk := by
      cases border : isBorderChunk t (t.file k).lastChunk with
      | true => exact Nat.le_trans (Nat.le_of_eq (backMeets border).1) (Nat.sub_le _ _)
      | false => exact Nat.le_of_eq (backSame border)
    have begun : Within (t.file k).firstChunk (t.file k).lastChunk s b.2 :=
      (front.widen (Nat.le_refl _) (Nat.le_of_lt order)).trans (back.widen (Nat.le_of_lt order) (Nat.le_refl _))
    have first : isBorderChunk t (t.file k).firstChunk = true → f.1 = (t.file k).firstChunk + 1 ∧ Meets e b.2 (t.file k).firstChunk :=
      fun border => ⟨(frontMeets border).1,back.meets (by omega) (frontMeets border).2⟩
    split
    · rename_i some_
      have between := prioritised_within b.2 some_ p
      refine ⟨begun.trans (between.widen low high),fun inside => sharedMeet_of_ends inside (fun border => ?_) fun border => ?_⟩
      · obtain ⟨moved,meets⟩ := first border
        exact between.meets (by omega) meets
      · obtain ⟨moved,meets⟩ := backMeets border
        exact between.meets (by omega) meets
    · exact ⟨begun,fun inside => sharedMeet_of_ends inside (fun border => (first border).2) fun border => (backMeets border).2⟩

theorem lastChunk_small (t : Files) (k : Nat) : (t.file k).lastChunk < 2147483647 := by
  have few := t.few
  have whole := t.start_le (k + 1)
  rw [start_succ] at whole
  have quotient := Nat.div_le_div_right (c := t.chunkSize) whole
  have part := Nat.div_le_div_right (c := t.chunkSize) (show t.start k + t.size k - 1 ≤ t.start k + t.size k by omega)
  have front := Nat.div_le_div_right (c := t.chunkSize) (show t.start k ≤ t.start k + t.size k by omega)
  unfold totalSize at quotient
  rw [lastChunk_eq]
  split <;> omega

-- The chunks in front do not go beyond the file, or beyond the torrent with it.
def PreviewFits (t : Files) (e : FilePriorities) (k : Nat) : Prop :=
  e.isMultimedia k = true → e.priority k ≠ .excluded → e.priority k ≠ .onlySeed → (t.file k).firstChunk ≠ (t.file k).lastChunk →
    (t.file k).firstChunk + previewChunkRangeSize e t k < 4294967296 ∧
      ((t.file k).firstChunk + previewChunkRangeSize e t k ≤ (t.file k).lastChunk ∨ t.numChunks ≤ (t.file k).lastChunk + 1)

-- Preview chunks have the highest priority there is.
theorem prioritise_preview_meets (s : PriorityControl t) (lower upper : Nat) (meets : Meets e s c) : Meets e (s.prioritise lower upper .preview) c := by
  intro j here
  rw [prioritise_priority]
  split
  · exact value_most _
  · exact meets j here

theorem doPreviewPriority_meets (s : PriorityControl t) (k : Nat) (meets : Meets e s c) : Meets e (s.doPreviewPriority e k) c := by
  unfold doPreviewPriority
  dsimp only
  split
  · exact meets
  · split
    · exact prioritise_preview_meets s _ _ meets
    · split
      · exact meets
      · split
        · exact prioritise_preview_meets _ _ _ (prioritise_preview_meets s _ _ meets)
        · exact prioritise_preview_meets s _ _ meets

theorem doPreviewPriority_inside (s : PriorityControl t) (media : e.isMultimedia k = true) (fits : PreviewFits t e k) :
    Inside t k s (s.doPreviewPriority e k) := by
  unfold doPreviewPriority Inside
  dsimp only
  have order := firstChunk_le_lastChunk t k
  split
  · exact .refl _ _ s
  · rename_i wanted
    split
    · rename_i single
      exact prioritise_within s order _
    · rename_i several
      split
      · exact .refl _ _ s
      · rename_i some_
        obtain ⟨small,within⟩ := fits media (fun not => wanted (.inl not)) (fun not => wanted (.inr not)) several
        have front : Within (t.file k).firstChunk (t.file k).lastChunk s
            (s.prioritise (t.file k).firstChunk (uint32 ((t.file k).firstChunk + previewChunkRangeSize e t k)) .preview) := by
          intro c out
          refine ChunkManager.prioritise_untouched s.manager .preview fun among => ?_
          rw [uint32_of_lt small,ChunkManager.mem_rangeOf] at among
          omega
        split
        · rename_i long
          have size := lastChunk_small t k
          rw [uint32Sub_of_le order (by omega)] at long
          rw [uint32Sub_of_le (by omega) (by omega)]
          exact front.trans ((prioritise_within _ (Nat.sub_le _ _) .preview).widen (by omega) (Nat.le_refl _))
        · exact front

-- What downloadPriorityChanged is to do for a file with the priority it has now.
structure Confined (e : FilePriorities) (k : Nat) (s s' : PriorityControl t) : Prop where
  inside : Inside t k s s'
  shared : SharedMeet e k s'

-- The same condition for every old priority.
def KeepsOthers (t : Files) (e : FilePriorities) (k : Nat) : Prop :=
  PreviewFits t e k ∧ ¬ (e.priority k = .excluded ∧ BothNeeded t e k)

theorem downloadPriorityChanged_confined (inside : k < t.numFiles) (keeps : KeepsOthers t e k) (s : PriorityControl t) (oldpriority : Priority) :
    Confined e k s (s.downloadPriorityChanged e k (e.priority k) oldpriority) := by
  obtain ⟨fits,apart⟩ := keeps
  have order := firstChunk_le_lastChunk t k
  unfold downloadPriorityChanged
  dsimp only
  by_cases own : e.priority k = .excluded
  · rw [if_pos own]
    obtain ⟨within,meets⟩ := excludeFile_spec (e := e) s k
    exact ⟨within,meets inside own fun both => apart ⟨own,both⟩⟩
  · rw [if_neg own]
    have included : Inside t k s (if oldpriority = .excluded then s.downloadStatusChanged e k true else s) := by
      split
      · unfold downloadStatusChanged
        rw [if_pos rfl]
        have first := includeRange_within s order
        dsimp only
        split
        · exact first.trans (doPreviewPriority_inside _ ‹_› fits)
        · exact first
      · exact .refl _ _ s
    generalize (if oldpriority = .excluded then s.downloadStatusChanged e k true else s) = s₁ at included ⊢
    have again : Inside t k s₁ (if oldpriority = .onlySeed then s₁.includeRange (t.file k).firstChunk (t.file k).lastChunk else s₁) := by
      split
      · exact includeRange_within s₁ order
      · exact .refl _ _ s₁
    generalize (if oldpriority = .onlySeed then s₁.includeRange (t.file k).firstChunk (t.file k).lastChunk else s₁) = s₂ at again ⊢
    obtain ⟨within,meets⟩ := prioritiseFile_spec (e := e) s₂ k (e.priority k)
    have done := (included.trans again).trans within
    split
    · rename_i media
      exact ⟨done.trans (doPreviewPriority_inside _ media fits),fun c low high shared => doPreviewPriority_meets _ k (meets inside c low high shared)⟩
    · exact ⟨done,meets inside⟩

theorem previewChunkRangeSize_bounds (media : e.isMultimedia k = true) (several : (t.file k).firstChunk ≠ (t.file k).lastChunk) :
    0 < previewChunkRangeSize e t k ∧ previewChunkRangeSize e t k < 4294967296 := by
  unfold previewChunkRangeSize
  dsimp only
  rw [media,if_neg (by decide),if_neg several]
  generalize previewSize : (if e.video k then e.previewSizeVideo else e.previewSizeAudio) / t.chunkSize = n
  unfold uint32
  split <;> omega

theorem lastChunk_inside (several : (t.file k).firstChunk ≠ (t.file k).lastChunk) : (t.file k).lastChunk < t.numChunks := by
  rw [firstChunk_eq,lastChunk_eq] at several
  by_cases some_ : 0 < t.size k
  · have whole := t.start_le (k + 1)
    rw [start_succ] at whole
    have least := Nat.div_mul_le_self (t.start k + t.size k - 1) t.chunkSize
    rw [lt_numChunks,lastChunk_eq,if_pos some_]
    omega
  · rw [if_neg some_] at several
    exact absurd rfl several

theorem doPreviewPriority_beyond (beyond : ¬ PreviewFits t e k) :
    e.isMultimedia k = true ∧ e.priority k ≠ .excluded ∧ ∃ c, ¬ ((t.file k).firstChunk ≤ c ∧ c ≤ (t.file k).lastChunk) ∧
      ∀ s : PriorityControl t, (s.doPreviewPriority e k).priorityOf c = .preview := by
  unfold PreviewFits at beyond
  simp only [Classical.not_imp] at beyond
  obtain ⟨media,own,seed,several,wide⟩ := beyond
  have order := firstChunk_le_lastChunk t k
  have size := lastChunk_small t k
  have inside := lastChunk_inside several
  obtain ⟨some_,small⟩ := previewChunkRangeSize_bounds media several
  refine ⟨media,own,?_⟩
  have taken : ∀ c, c ∈ ChunkManager.rangeOf t.numChunks (t.file k).firstChunk (uint32 ((t.file k).firstChunk + previewChunkRangeSize e t k)) →
      ∀ s : PriorityControl t, (s.doPreviewPriority e k).priorityOf c = .preview := by
    intro c among s
    unfold doPreviewPriority
    dsimp only
    rw [if_neg (by rintro (not | not); exacts [own not,seed not]),if_neg several,if_neg (by omega)]
    split
    · rw [prioritise_priority,prioritise_priority,if_pos among,ite_self]
    · rw [prioritise_priority,if_pos among]
  by_cases fits : (t.file k).firstChunk + previewChunkRangeSize e t k < 4294967296
  · refine ⟨(t.file k).lastChunk + 1,by omega,taken _ ?_⟩
    rw [uint32_of_lt fits,ChunkManager.mem_rangeOf]
    omega
  · -- the sum wraps around, and the range goes back to the front
    refine ⟨uint32 ((t.file k).firstChunk + previewChunkRangeSize e t k),?_,taken _ ?_⟩
    · unfold uint32
      omega
    · rw [ChunkManager.mem_rangeOf]
      unfold uint32
      omega

-- The new state of a chunk manager, in which all chunks have the normal priority.
def fresh (t : Files) : PriorityControl t := ⟨.new t.numChunks [],⟨0,0⟩,start_posValid t,fun _ => false⟩

-- The first chunk is left out of the range that gets excluded, and then the last one
-- is not looked at.
theorem excludeFile_last (inside : k < t.numFiles) (both : BothNeeded t e k) (s : PriorityControl t) :
    ∃ s' : PriorityControl t, s.excludeFile e k = s'.exclude (t.file k).lastChunk (t.file k).lastChunk := by
  obtain ⟨two,⟨i,other,here,wanted⟩,_⟩ := both
  have border := (shared_border inside (Nat.le_refl _) (by omega) other here).1
  unfold excludeFile
  dsimp only
  rw [if_neg (by omega)]
  generalize (List.range' _ _).foldl resetChunk s = s₀
  have front := end_spec (e := e) (k := k) (c := (t.file k).firstChunk) s₀ ((t.file k).firstChunk + 1)
  generalize (if (!isBorderChunk t (t.file k).firstChunk) = true then _ else _ : Nat × PriorityControl t) = f at front ⊢
  have moved : f.1 = (t.file k).lastChunk := by
    rcases front.kept with stays | ⟨goes,_⟩
    · exact absurd ⟨i,other,here,wanted⟩ (front.free stays border (by omega))
    · exact goes.trans two
  rw [if_neg (show ¬ (t.file k).lastChunk ≠ f.1 from fun apart => apart moved.symm)]
  dsimp only
  rw [moved,if_pos (Nat.le_refl _)]
  exact ⟨f.2,rfl⟩

theorem BothNeeded.last (both : BothNeeded t e k) : (t.file k).lastChunk ∈ ChunkManager.rangeOf t.numChunks (t.file k).lastChunk (t.file k).lastChunk := by
  obtain ⟨_,_,j,_,there,_⟩ := both
  rw [ChunkManager.mem_rangeOf]
  have := (overlaps_inside there).1
  omega

theorem excludeFile_both (inside : k < t.numFiles) (both : BothNeeded t e k) (s : PriorityControl t) :
    (s.excludeFile e k).priorityOf (t.file k).lastChunk = .excluded := by
  obtain ⟨s',range⟩ := excludeFile_last inside both s
  rw [range,exclude_priority,if_pos both.last]

theorem value_more (wanted : p ≠ Priority.excluded) : Priority.excluded.value < p.value := by
  cases p <;> first | exact absurd rfl wanted | decide

-- The call changes the file's own chunks only, and leaves the shared ones with the
-- priorities of all their files, in every state, if and only if the preview range
-- fits and, when the file is excluded, it has not two chunks that are both needed.
theorem priority_confined_iff (inside : k < t.numFiles) (oldpriority : Priority) :
    (∀ s : PriorityControl t, Confined e k s (s.downloadPriorityChanged e k (e.priority k) oldpriority)) ↔ KeepsOthers t e k := by
  constructor
  · intro every
    by_contra fails
    rcases not_and_or.mp fails with beyond | both
    · obtain ⟨media,own,c,out,preview⟩ := doPreviewPriority_beyond beyond
      have same := (every (fresh t)).inside.priority out
      unfold downloadPriorityChanged at same
      dsimp only at same
      rw [if_neg own,if_pos media,preview] at same
      cases same
    · obtain ⟨own,both⟩ := not_not.mp both
      have meets := (every (fresh t)).shared (t.file k).lastChunk (firstChunk_le_lastChunk t k) (Nat.le_refl _)
      obtain ⟨j,other,here,wanted⟩ := both.2.2
      have enough := meets ⟨j,other,here⟩ j here
      unfold downloadPriorityChanged downloadStatusChanged at enough
      rw [if_pos own,if_neg (by decide),excludeFile_both inside both] at enough
      exact absurd (value_more wanted) (Nat.not_lt_of_le enough)
  · intro keeps s
    exact downloadPriorityChanged_confined inside keeps s oldpriority

-- The file in the middle shares both of its chunks.
def middleFile : Files where
  chunkSize := 4
  sizes := [2,4,2]
  chunked := four_bytes
  long := by decide
  few := by decide

def wanted (own : Priority) : FilePriorities := ⟨fun k => if k = 1 then own else .normal,fun _ => false,fun _ => false,0,0⟩

theorem middle_first : Confined (wanted .first) 1 (fresh middleFile)
    ((fresh middleFile).downloadPriorityChanged (wanted .first) 1 .first .normal) :=
  (priority_confined_iff (e := wanted .first) (by decide) .normal).mpr ⟨fun media => (nomatch media),fun not => absurd not.1 (by decide)⟩ (fresh middleFile)

-- A video of two chunks and a preview size of two chunks.
def twoVideos : Files where
  chunkSize := 4
  sizes := [8,8]
  chunked := four_bytes
  long := by decide
  few := by decide

def videos : FilePriorities := ⟨fun k => if k = 0 then .first else .normal,fun _ => false,fun _ => true,0,8⟩

-- The preview range of the first video takes the first chunk of the second one; and
-- when the file in the middle is excluded, a chunk that the one behind it needs is
-- excluded with it.
theorem preview_beyond_and_needed_excluded :
    (¬ ∀ s : PriorityControl twoVideos, Confined videos 0 s (s.downloadPriorityChanged videos 0 (videos.priority 0) .normal)) ∧
    (twoVideos.file 0).lastChunk = 1 ∧ (fresh twoVideos).priorityOf 2 = .normal ∧
    ((fresh twoVideos).downloadPriorityChanged videos 0 .first .normal).priorityOf 2 = .preview ∧
    Overlaps middleFile 1 2 ∧ (wanted .excluded).priority 2 = .normal ∧
    ((fresh middleFile).downloadPriorityChanged (wanted .excluded) 1 .excluded .normal).priorityOf 1 = .excluded := by
  have changed : ((fresh twoVideos).downloadPriorityChanged videos 0 .first .normal).priorityOf 2 = .preview := by decide +kernel
  refine ⟨fun every => ?_,by decide +kernel,by decide +kernel,changed,by decide +kernel,by decide,by decide +kernel⟩
  have same := (every (fresh twoVideos)).inside.priority (c := 2) (by decide +kernel)
  rw [show videos.priority 0 = .first from rfl,changed] at same
  cases same

end PriorityControl

end KtorrentStream.Diskio
