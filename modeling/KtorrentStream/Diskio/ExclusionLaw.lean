import KtorrentStream.Diskio.PriorityFrame
set_option autoImplicit true

namespace KtorrentStream.Diskio
open KtorrentStream.Lib KtorrentStream.Util KtorrentStream.Torrent KtorrentStream.Torrent.Files

namespace ChunkManager

variable {n : Nat}

theorem prioritise_excludedChunks (m : ChunkManager n) (lower upper : Nat) (priority : Priority) :
    (m.prioritise lower upper priority).excludedChunks = m.excludedChunks := by
  refine foldl_fixed (f := excludedChunks) (fun m i => ?_) _ m
  unfold prioritiseChunk
  cases priority <;> rfl

theorem resetChunk_excludedChunks (m : ChunkManager n) (i : Nat) : (m.resetChunk i).excludedChunks = m.excludedChunks := by
  unfold resetChunk
  split <;> rfl

theorem foldl_bit {f : ChunkManager n → Nat → ChunkManager n} {on : Bool} (each : ∀ m i, (f m i).excludedChunks = m.excludedChunks.set i on)
    (l : List Nat) (m : ChunkManager n) :
    (l.foldl f m).excludedChunks.get c = if c ∈ l ∧ c < n then on else m.excludedChunks.get c := by
  induction l generalizing m with
  | nil => rfl
  | cons i rest ih =>
      rw [List.foldl_cons,ih,each,ChunkSet.set_get]
      by_cases here : c = i
      · subst here
        by_cases inside : c < n
        · simp [inside]
        · simp [inside]
      · simp [here,Ne.symm here]

theorem exclude_bit (m : ChunkManager n) (lower upper : Nat) :
    (m.exclude lower upper).excludedChunks.get c = if c ∈ rangeOf n lower upper then true else m.excludedChunks.get c := by
  refine (foldl_bit (f := excludeChunk) (fun _ _ => rfl) _ m).trans ?_
  by_cases among : c ∈ rangeOf n lower upper
  · rw [if_pos ⟨among,(mem_rangeOf.mp among).2.2⟩,if_pos among]
  · rw [if_neg fun both => among both.1,if_neg among]

theorem includeRange_bit (m : ChunkManager n) (lower upper : Nat) :
    (m.includeRange lower upper).excludedChunks.get c = if c ∈ rangeOf n lower upper then false else m.excludedChunks.get c := by
  have each (m : ChunkManager n) (i : Nat) : (m.includeChunk i).excludedChunks = m.excludedChunks.set i false := by
    unfold includeChunk
    dsimp only
    split <;> rfl
  refine (foldl_bit each _ m).trans ?_
  by_cases among : c ∈ rangeOf n lower upper
  · rw [if_pos ⟨among,(mem_rangeOf.mp among).2.2⟩,if_pos among]
  · rw [if_neg fun both => among both.1,if_neg among]

end ChunkManager

namespace PriorityControl

variable {t : Files} {e : FilePriorities} {s s' s'' : PriorityControl t}

def bits (s : PriorityControl t) : ChunkSet t.numChunks := s.manager.excludedChunks

theorem excluded_bits (s : PriorityControl t) (lower upper : Nat) : (s.excluded lower upper).bits = s.bits := by
  refine foldl_fixed (f := bits) (fun s i => ?_) _ s
  unfold cancelDownload
  split
  · exact ChunkManager.resetChunk_excludedChunks s.manager i
  · rfl

theorem prioritise_bits (s : PriorityControl t) (lower upper : Nat) (priority : Priority) : (s.prioritise lower upper priority).bits = s.bits :=
  ChunkManager.prioritise_excludedChunks s.manager lower upper priority

theorem resetChunk_bits (s : PriorityControl t) (i : Nat) : (s.resetChunk i).bits = s.bits :=
  ChunkManager.resetChunk_excludedChunks s.manager i

theorem setBorderChunkPriority_bits (s : PriorityControl t) (idx : Nat) (prio : Priority) :
    (s.setBorderChunkPriority e idx prio).bits = s.bits := by
  unfold setBorderChunkPriority
  dsimp only
  split
  · rw [excluded_bits,prioritise_bits]
    rfl
  · rw [prioritise_bits]
    rfl

theorem resetBorderChunk_bits (s : PriorityControl t) (idx k : Nat) : (s.resetBorderChunk e idx k).2.bits = s.bits := by
  unfold resetBorderChunk
  dsimp only
  split
  · exact setBorderChunkPriority_bits _ idx _
  · exact resetChunk_bits _ idx

theorem exclude_bit (s : PriorityControl t) (lower upper : Nat) : (s.exclude lower upper).bits.get c =
    if c ∈ ChunkManager.rangeOf t.numChunks lower upper then true else s.bits.get c := by
  unfold exclude
  rw [excluded_bits]
  exact ChunkManager.exclude_bit s.manager lower upper

theorem includeRange_bit (s : PriorityControl t) (lower upper : Nat) : (s.includeRange lower upper).bits.get c =
    if c ∈ ChunkManager.rangeOf t.numChunks lower upper then false else s.bits.get c :=
  ChunkManager.includeRange_bit s.manager lower upper

theorem doPreviewPriority_bits (s : PriorityControl t) (k : Nat) : (s.doPreviewPriority e k).bits = s.bits := by
  unfold doPreviewPriority
  dsimp only
  split
  · rfl
  · split
    · exact prioritise_bits ..
    · split
      · rfl
      · split
        · rw [prioritise_bits,prioritise_bits]
        · exact prioritise_bits ..

theorem prioritiseFile_bits (s : PriorityControl t) (k : Nat) (p : Priority) : (s.prioritiseFile e k p).bits = s.bits := by
  have border (s : PriorityControl t) (c goes : Nat) :
      (if isBorderChunk t c then (goes,s.setBorderChunkPriority e c p) else (c,s)).2.bits = s.bits := by
    split
    · exact setBorderChunkPriority_bits s c p
    · rfl
  have signal (s : PriorityControl t) (lower upper : Nat) : (if p = .onlySeed then s.excluded lower upper else s).bits = s.bits := by
    split
    · exact excluded_bits s lower upper
    · rfl
  unfold prioritiseFile
  dsimp only
  by_cases single : (t.file k).firstChunk = (t.file k).lastChunk
  · rw [if_pos single,signal]
    split
    · exact setBorderChunkPriority_bits ..
    · exact prioritise_bits ..
  · rw [if_neg single]
    have front := border s (t.file k).firstChunk ((t.file k).firstChunk + 1)
    generalize (if isBorderChunk t (t.file k).firstChunk then _ else _ : Nat × PriorityControl t) = f at front ⊢
    have back := border f.2 (t.file k).lastChunk ((t.file k).lastChunk - 1)
    generalize (if isBorderChunk t (t.file k).lastChunk then _ else _ : Nat × PriorityControl t) = b at back ⊢
    split
    · rw [signal,prioritise_bits,back,front]
    · rw [back,front]

-- What a file that is given another priority than excluded leaves: none of its chunks is excluded.
theorem setBorderChunkPriority_wanted (s : PriorityControl t) (p : Priority) (wanted : p ≠ .excluded) (small : c < t.numChunks) :
    (s.setBorderChunkPriority e c p).priorityOf c ≠ .excluded := by
  have enough := (highest_ge e (s.filesAt c).1 p).1
  have more := Nat.lt_of_lt_of_le (value_more wanted) enough
  have among : c ∈ ChunkManager.rangeOf t.numChunks c c := by
    rw [ChunkManager.mem_rangeOf]
    omega
  have set (q : Priority) : ((s.filesAt c).2.prioritise c c q).priorityOf c = q := by rw [prioritise_priority,if_pos among]
  intro excluded
  unfold setBorderChunkPriority at excluded
  dsimp only at excluded
  have highest : (s.filesAt c).1.foldl (fun h k => higher h (e.priority k)) p = .excluded := by
    split at excluded
    · rwa [excluded_priority,set] at excluded
    · rwa [set] at excluded
  rw [highest] at more
  exact Nat.lt_irrefl _ more

theorem prioritise_wanted (s : PriorityControl t) (lower upper : Nat) {p : Priority} (wanted : p ≠ .excluded)
    (already : s.priorityOf c ≠ .excluded) : (s.prioritise lower upper p).priorityOf c ≠ .excluded := by
  rw [prioritise_priority]
  split
  · exact wanted
  · exact already

theorem setEnd_wanted (s : PriorityControl t) (c' goes : Nat) {p : Priority} (wanted : p ≠ .excluded) (small : c < t.numChunks)
    (already : s.priorityOf c ≠ .excluded ∨ c = c' ∧ isBorderChunk t c' = true) :
    (if isBorderChunk t c' then (goes,s.setBorderChunkPriority e c' p) else (c',s)).2.priorityOf c ≠ .excluded := by
  by_cases same : c = c'
  · subst same
    split
    · exact setBorderChunkPriority_wanted s p wanted small
    · rename_i border
      exact already.resolve_right fun both => border both.2
  · have before := already.resolve_right fun both => same both.1
    split
    · rw [(setBorderChunkPriority_within s c' p).priority (by omega)]
      exact before
    · exact before

theorem prioritiseFile_wanted (s : PriorityControl t) (k : Nat) {p : Priority} (wanted : p ≠ .excluded)
    (low : (t.file k).firstChunk ≤ c) (high : c ≤ (t.file k).lastChunk) (small : c < t.numChunks) :
    (s.prioritiseFile e k p).priorityOf c ≠ .excluded := by
  have signal (s : PriorityControl t) (lower upper : Nat) :
      (if p = .onlySeed then s.excluded lower upper else s).priorityOf c = s.priorityOf c := by
    split
    · exact excluded_priority s lower upper
    · rfl
  unfold prioritiseFile
  dsimp only
  by_cases single : (t.file k).firstChunk = (t.file k).lastChunk
  · rw [if_pos single,signal]
    obtain rfl : c = (t.file k).firstChunk := by omega
    split
    · exact setBorderChunkPriority_wanted s p wanted small
    · rw [prioritise_priority,if_pos]
      · exact wanted
      · rw [ChunkManager.mem_rangeOf]
        omega
  · rw [if_neg single]
    have front := setEnd_wanted (e := e) (c := c) s (t.file k).firstChunk ((t.file k).firstChunk + 1) wanted small
    have frontRange : (if isBorderChunk t (t.file k).firstChunk then ((t.file k).firstChunk + 1,s.setBorderChunkPriority e (t.file k).firstChunk p)
        else ((t.file k).firstChunk,s)).1 = if isBorderChunk t (t.file k).firstChunk then (t.file k).firstChunk + 1 else (t.file k).firstChunk := by
      split <;> rfl
    generalize (if isBorderChunk t (t.file k).firstChunk then _ else _ : Nat × PriorityControl t) = f at front frontRange ⊢
    have back := setEnd_wanted (e := e) (c := c) f.2 (t.file k).lastChunk ((t.file k).lastChunk - 1) wanted small
    have backRange : (if isBorderChunk t (t.file k).lastChunk then ((t.file k).lastChunk - 1,f.2.setBorderChunkPriority e (t.file k).lastChunk p)
        else ((t.file k).lastChunk,f.2)).1 = if isBorderChunk t (t.file k).lastChunk then (t.file k).lastChunk - 1 else (t.file k).lastChunk := by
      split <;> rfl
    generalize (if isBorderChunk t (t.file k).lastChunk then _ else _ : Nat × PriorityControl t) = b at back backRange ⊢
    by_cases between : f.1 ≤ c ∧ c ≤ b.1
    · rw [if_pos (by omega),signal,prioritise_priority,if_pos]
      · exact wanted
      · rw [ChunkManager.mem_rangeOf]
        omega
    · -- A chunk that is left out is an end of the file and a border chunk.
      have ends : b.2.priorityOf c ≠ .excluded := by
        by_cases first : c < f.1
        · have border : c = (t.file k).firstChunk ∧ isBorderChunk t (t.file k).firstChunk = true := by
            rw [frontRange] at first
            split at first
            · exact ⟨by omega,‹_›⟩
            · omega
          exact back (.inl (front (.inr border)))
        · have border : c = (t.file k).lastChunk ∧ isBorderChunk t (t.file k).lastChunk = true := by
            have last : b.1 < c := by omega
            rw [backRange] at last
            split at last
            · exact ⟨by omega,‹_›⟩
            · omega
          exact back (.inr border)
      split
      · rw [signal]
        exact prioritise_wanted _ _ _ wanted ends
      · exact ends

theorem doPreviewPriority_wanted (s : PriorityControl t) (k : Nat) (already : s.priorityOf c ≠ .excluded) :
    (s.doPreviewPriority e k).priorityOf c ≠ .excluded := by
  have preview : Priority.preview ≠ .excluded := by decide
  unfold doPreviewPriority
  dsimp only
  split
  · exact already
  · split
    · exact prioritise_wanted s _ _ preview already
    · split
      · exact already
      · split
        · exact prioritise_wanted _ _ _ preview (prioritise_wanted s _ _ preview already)
        · exact prioritise_wanted s _ _ preview already

-- The chunks at the beginning of a file that the preview takes.
def previewed (t : Files) (e : FilePriorities) (k : Nat) : List Nat :=
  if e.isMultimedia k = true ∧ e.priority k ≠ .onlySeed ∧ (t.file k).firstChunk ≠ (t.file k).lastChunk then
    ChunkManager.rangeOf t.numChunks (t.file k).firstChunk (uint32 ((t.file k).firstChunk + previewChunkRangeSize e t k))
  else []

theorem doPreviewPriority_outside (s : PriorityControl t) (media : e.isMultimedia k = true) (wanted : e.priority k ≠ .excluded)
    (out : ¬ ((t.file k).firstChunk ≤ c ∧ c ≤ (t.file k).lastChunk)) :
    (s.doPreviewPriority e k).priorityOf c = if c ∈ previewed t e k then .preview else s.priorityOf c := by
  have order := firstChunk_le_lastChunk t k
  have nothing (none : previewed t e k = []) : (if c ∈ previewed t e k then Priority.preview else s.priorityOf c) = s.priorityOf c := by
    rw [none,if_neg List.not_mem_nil]
  unfold doPreviewPriority
  dsimp only
  by_cases seed : e.priority k = .onlySeed
  · rw [if_pos (.inr seed),nothing (if_neg fun all => all.2.1 seed)]
  rw [if_neg (not_or.mpr ⟨wanted,seed⟩)]
  by_cases single : (t.file k).firstChunk = (t.file k).lastChunk
  · rw [if_pos single,nothing (if_neg fun all => all.2.2 single)]
    exact (prioritise_within s order .preview).priority out
  obtain ⟨some_,_⟩ := previewChunkRangeSize_bounds media single
  have taken : previewed t e k = ChunkManager.rangeOf t.numChunks (t.file k).firstChunk (uint32 ((t.file k).firstChunk + previewChunkRangeSize e t k)) :=
    if_pos ⟨media,seed,single⟩
  rw [if_neg single,if_neg (Nat.ne_of_gt some_),taken]
  split
  · rename_i long
    have size := lastChunk_small t k
    rw [uint32Sub_of_le order (by omega)] at long
    rw [uint32Sub_of_le (by omega) (by omega)]
    rw [(prioritise_within _ (Nat.sub_le _ _) .preview).priority (by omega),prioritise_priority]
  · rw [prioritise_priority]

-- Within a file only the ends can be needed by another file.
theorem needed_end (inside : k < t.numFiles) (low : (t.file k).firstChunk ≤ c) (high : c ≤ (t.file k).lastChunk) (needed : Needed t e k c) :
    isBorderChunk t c = true ∧ (c = (t.file k).firstChunk ∨ c = (t.file k).lastChunk) := by
  obtain ⟨j,other,here,_⟩ := needed
  exact shared_border inside low high other here

theorem foldl_reset_bits (s : PriorityControl t) (l : List Nat) : (l.foldl resetChunk s).bits = s.bits :=
  foldl_fixed (f := bits) resetChunk_bits l s

-- The end of the range and whether another file needs the chunk there.
theorem End.either (end_ : End e k c moved c goes s s') (apart : c ≠ goes) (border : Needed t e k c → isBorderChunk t c = true) :
    moved = c ∧ ¬ Needed t e k c ∨ moved = goes ∧ Needed t e k c := by
  rcases end_.kept with stays | ⟨goes_,_,_,needed⟩
  · exact .inl ⟨stays,fun needed => end_.free stays (border needed) apart needed⟩
  · exact .inr ⟨goes_,needed⟩

theorem end_bits (s : PriorityControl t) (c k goes : Nat) :
    (if !isBorderChunk t c then (c,s.resetChunk c) else (if (s.resetBorderChunk e c k).1 then c else goes,(s.resetBorderChunk e c k).2)).2.bits = s.bits := by
  split
  · exact resetChunk_bits s c
  · exact resetBorderChunk_bits s c k

-- The range that is excluded with a file: its chunks that no other file needs.
def Range (t : Files) (e : FilePriorities) (k f b : Nat) : Prop :=
  ∀ c, (t.file k).firstChunk ≤ c → c ≤ (t.file k).lastChunk → (f ≤ c ∧ c ≤ b ↔ ¬ Needed t e k c)

theorem excludeFile_range (inside : k < t.numFiles) (apart : ¬ BothNeeded t e k) (s : PriorityControl t) :
    ∃ (s₁ : PriorityControl t) (f b : Nat), s.excludeFile e k = (if f ≤ b then s₁.exclude f b else s₁) ∧ s₁.bits = s.bits ∧ Range t e k f b := by
  have needed {c : Nat} := @needed_end t e k c inside
  unfold excludeFile
  dsimp only
  by_cases single : (t.file k).firstChunk = (t.file k).lastChunk
  · rw [if_pos single,← single]
    cases border : isBorderChunk t (t.file k).firstChunk with
    | false =>
        rw [if_pos (by decide)]
        refine ⟨_,(t.file k).firstChunk,(t.file k).firstChunk,(if_pos (Nat.le_refl _)).symm,resetChunk_bits s _,fun c low high => ?_⟩
        obtain rfl : c = (t.file k).firstChunk := by omega
        refine iff_of_true ⟨Nat.le_refl _,Nat.le_refl _⟩ fun wanted => ?_
        cases border.symm.trans (needed low high wanted).1
    | true =>
        rw [if_neg (by decide)]
        have spec := resetBorderChunk_spec (e := e) s (t.file k).firstChunk k
        have same := resetBorderChunk_bits (e := e) s (t.file k).firstChunk k
        cases result : (s.resetBorderChunk e (t.file k).firstChunk k).1 with
        | true =>
            rw [if_pos rfl]
            refine ⟨_,(t.file k).firstChunk,(t.file k).firstChunk,(if_pos (Nat.le_refl _)).symm,same,fun c low high => ?_⟩
            obtain rfl : c = (t.file k).firstChunk := by omega
            exact iff_of_true ⟨Nat.le_refl _,Nat.le_refl _⟩ (unneeded (spec.free result))
        | false =>
            rw [if_neg (by decide)]
            refine ⟨_,1,0,(if_neg (by decide)).symm,same,fun c low high => ?_⟩
            obtain rfl : c = (t.file k).firstChunk := by omega
            exact iff_of_false (by omega) (not_not_intro (spec.needed result).2)
  · rw [if_neg single]
    have order : (t.file k).firstChunk < (t.file k).lastChunk := by
      have := firstChunk_le_lastChunk t k
      omega
    have start := foldl_reset_bits s (List.range' ((t.file k).firstChunk + 1) ((t.file k).lastChunk - ((t.file k).firstChunk + 1)))
    generalize (List.range' _ _).foldl resetChunk s = s₀ at start ⊢
    have front := (end_spec (e := e) (k := k) (c := (t.file k).firstChunk) s₀ ((t.file k).firstChunk + 1)).either (by omega)
      fun wanted => (needed (Nat.le_refl _) (Nat.le_of_lt order) wanted).1
    have frontBits := end_bits (e := e) s₀ (t.file k).firstChunk k ((t.file k).firstChunk + 1)
    generalize (if (!isBorderChunk t (t.file k).firstChunk) = true then _ else _ : Nat × PriorityControl t) = f at front frontBits ⊢
    have back := (end_spec (e := e) (k := k) (c := (t.file k).lastChunk) f.2 ((t.file k).lastChunk - 1)).either (by omega)
      fun wanted => (needed (Nat.le_of_lt order) (Nat.le_refl _) wanted).1
    have backBits := end_bits (e := e) f.2 (t.file k).lastChunk k ((t.file k).lastChunk - 1)
    generalize (if (!isBorderChunk t (t.file k).lastChunk) = true then _ else _ : Nat × PriorityControl t) = b at back backBits ⊢
    have between {c : Nat} (low : (t.file k).firstChunk < c) (high : c < (t.file k).lastChunk) : ¬ Needed t e k c := fun wanted => by
      rcases (needed (Nat.le_of_lt low) (Nat.le_of_lt high) wanted).2 with first | last
      · omega
      · omega
    by_cases met : (t.file k).lastChunk = f.1
    · -- The front has come to the last chunk, which is not looked at.
      rw [if_neg (not_not_intro met)]
      refine ⟨f.2,f.1,(t.file k).lastChunk,rfl,frontBits.trans start,fun c low high => ?_⟩
      rcases front with ⟨stays,_⟩ | ⟨goes,first⟩
      · omega
      · have last : ¬ Needed t e k (t.file k).lastChunk := fun last => apart ⟨by omega,first,last⟩
        by_cases here : c = (t.file k).lastChunk
        · subst here
          exact iff_of_true (by omega) last
        · obtain rfl : c = (t.file k).firstChunk := by omega
          exact iff_of_false (by omega) (not_not_intro first)
    · rw [if_pos met]
      refine ⟨b.2,f.1,b.1,rfl,backBits.trans (frontBits.trans start),fun c low high => ?_⟩
      by_cases first : c = (t.file k).firstChunk
      · subst first
        rcases front with ⟨stays,free⟩ | ⟨goes,wanted⟩
        · exact iff_of_true (by omega) free
        · exact iff_of_false (by omega) (not_not_intro wanted)
      · by_cases last : c = (t.file k).lastChunk
        · subst last
          rcases back with ⟨stays,free⟩ | ⟨goes,wanted⟩
          · exact iff_of_true (by omega) free
          · exact iff_of_false (by omega) (not_not_intro wanted)
        · exact iff_of_true (by omega) (between (by omega) (by omega))

def AllExcluded (t : Files) (e : FilePriorities) (c : Nat) : Prop := ∀ j, Overlaps t c j → e.priority j = .excluded

def IsExcluded (s : PriorityControl t) (c : Nat) : Prop := s.manager.excludedChunks.get c = true ∧ (s.manager.chunk c).isExcluded = true

-- What has to hold when a file gets its priority. Of a file of two chunks that is
-- excluded one is not needed; the chunk of an empty file that is not excluded is
-- needed; and no chunk that the preview takes has excluded files only.
structure Allows (t : Files) (e : FilePriorities) (k : Nat) : Prop where
  excluding : e.priority k = .excluded → ¬ BothNeeded t e k
  empty : e.priority k ≠ .excluded → t.size k = 0 → (t.file k).firstChunk < t.numChunks → Needed t e k (t.file k).firstChunk
  preview : e.priority k ≠ .excluded → ∀ c ∈ previewed t e k, ¬ AllExcluded t e c

-- The bit and the priority of a chunk tell the same.
structure Agrees (e : FilePriorities) (s : PriorityControl t) (c : Nat) : Prop where
  bit : s.bits.get c = true ↔ AllExcluded t e c
  priority : s.priorityOf c = .excluded ↔ AllExcluded t e c

theorem isExcluded_iff (s : PriorityControl t) (c : Nat) : s.IsExcluded c ↔ s.bits.get c = true ∧ s.priorityOf c = .excluded :=
  and_congr_right fun _ => beq_iff_eq

theorem Agrees.excluded (agrees : Agrees e s c) : s.IsExcluded c ↔ AllExcluded t e c := by
  rw [isExcluded_iff,agrees.bit,agrees.priority,and_self]

theorem Agrees.wanted (wanted : ¬ AllExcluded t e c) (bit : s.bits.get c = false) (priority : s.priorityOf c ≠ .excluded) : Agrees e s c :=
  ⟨iff_of_false (Bool.eq_false_iff.mp bit) wanted,iff_of_false priority wanted⟩

theorem allExcluded_iff (own : e.priority k = .excluded) : AllExcluded t e c ↔ ¬ Needed t e k c := by
  constructor
  · rintro all ⟨j,_,here,wanted⟩
    exact wanted (all j here)
  · intro free j here
    by_cases same : j = k
    · rw [same]
      exact own
    · by_contra wanted
      exact free ⟨j,same,here,wanted⟩

section Change

-- Only the priority of file k changes, from e to e'.
variable {e' : FilePriorities} (others : ∀ j, j ≠ k → e'.priority j = e.priority j)

include others in
theorem allExcluded_congr (apart : ¬ Overlaps t c k) : AllExcluded t e' c ↔ AllExcluded t e c := by
  refine forall_congr' fun j => forall_congr' fun here => ?_
  rw [others j fun same => apart (same ▸ here)]

include others in
theorem needed_wanted (needed : Needed t e' k c) : ¬ AllExcluded t e c := by
  obtain ⟨j,other,here,wanted⟩ := needed
  intro all
  rw [others j other] at wanted
  exact wanted (all j here)

theorem outside_apart (out : ¬ ((t.file k).firstChunk ≤ c ∧ c ≤ (t.file k).lastChunk)) : ¬ Overlaps t c k :=
  fun here => out (overlaps_bounds here)

include others in
theorem excluded_agrees (inside : k < t.numFiles) (own : e'.priority k = .excluded) (apart : ¬ BothNeeded t e' k) (small : c < t.numChunks)
    (agrees : Agrees e s c) : Agrees e' (s.excludeFile e' k) c := by
  obtain ⟨within,shared⟩ := excludeFile_spec (e := e') s k
  by_cases range : (t.file k).firstChunk ≤ c ∧ c ≤ (t.file k).lastChunk
  · have all := allExcluded_iff (t := t) (c := c) own
    obtain ⟨s₁,f,b,excluded,same,free⟩ := excludeFile_range (e := e') inside apart s
    have taken := free c range.1 range.2
    by_cases needed : Needed t e' k c
    · have out : ¬ (f ≤ c ∧ c ≤ b) := fun both => taken.mp both needed
      have meets := shared inside own apart c range.1 range.2 (needed.imp fun j both => ⟨both.1,both.2.1⟩)
      refine .wanted (fun every => all.mp every needed) ?_ ?_
      · rw [excluded]
        split
        · rw [exclude_bit,if_neg (by rw [ChunkManager.mem_rangeOf]; omega),same]
          exact Bool.eq_false_iff.mpr fun bit => needed_wanted others needed (agrees.bit.mp bit)
        · rw [same]
          exact Bool.eq_false_iff.mpr fun bit => needed_wanted others needed (agrees.bit.mp bit)
      · intro gone
        obtain ⟨j,_,here,wanted⟩ := needed
        have enough := meets j here
        rw [gone] at enough
        exact absurd (value_more wanted) (Nat.not_lt_of_le enough)
    · have in_ := taken.mpr needed
      have among : c ∈ ChunkManager.rangeOf t.numChunks f b := by
        rw [ChunkManager.mem_rangeOf]
        omega
      rw [excluded,if_pos (by omega)]
      refine ⟨iff_of_true ?_ (all.mpr needed),iff_of_true ?_ (all.mpr needed)⟩
      · rw [exclude_bit,if_pos among]
      · rw [exclude_priority,if_pos among]
  · have same := allExcluded_congr (t := t) others (outside_apart range)
    have bit : (s.excludeFile e' k).bits.get c = s.bits.get c := (within c range).excludedChunks
    exact ⟨by rw [bit,same]; exact agrees.bit,by rw [within.priority range,same]; exact agrees.priority⟩

end Change

-- The steps for a file that is not excluded set no bit, and leave the other chunks as
-- they are but for those that the preview takes.
structure Opens (e : FilePriorities) (k : Nat) (s s' : PriorityControl t) : Prop where
  kept : ∀ c, s.bits.get c = false → s'.bits.get c = false
  bit : ∀ c, ¬ ((t.file k).firstChunk ≤ c ∧ c ≤ (t.file k).lastChunk) → s'.bits.get c = s.bits.get c
  priority : ∀ c, ¬ ((t.file k).firstChunk ≤ c ∧ c ≤ (t.file k).lastChunk) →
    s'.priorityOf c = s.priorityOf c ∨ c ∈ previewed t e k ∧ s'.priorityOf c = .preview

theorem Opens.refl (s : PriorityControl t) : Opens e k s s := ⟨fun _ off => off,fun _ _ => rfl,fun _ _ => .inl rfl⟩

theorem Opens.trans (first : Opens e k s s') (second : Opens e k s' s'') : Opens e k s s'' := by
  refine ⟨fun c off => second.kept c (first.kept c off),fun c out => (second.bit c out).trans (first.bit c out),fun c out => ?_⟩
  rcases second.priority c out with same | taken
  · rw [same]
    exact first.priority c out
  · exact .inr taken

theorem includeRange_file_bit (s : PriorityControl t) (k c : Nat) : (s.includeRange (t.file k).firstChunk (t.file k).lastChunk).bits.get c =
    if (t.file k).firstChunk ≤ c ∧ c ≤ (t.file k).lastChunk ∧ c < t.numChunks then false else s.bits.get c := by
  have order := firstChunk_le_lastChunk t k
  rw [includeRange_bit]
  refine if_congr ?_ rfl rfl
  rw [ChunkManager.mem_rangeOf,Nat.min_eq_left order,Nat.max_eq_right order]

theorem includeRange_opens (s : PriorityControl t) (k : Nat) : Opens e k s (s.includeRange (t.file k).firstChunk (t.file k).lastChunk) := by
  refine ⟨fun c off => ?_,fun c out => ?_,fun c out => ?_⟩
  · rw [includeRange_file_bit]
    split
    · rfl
    · exact off
  · rw [includeRange_file_bit,if_neg fun all => out ⟨all.1,all.2.1⟩]
  · exact .inl ((includeRange_within s (firstChunk_le_lastChunk t k)).priority out)

theorem doPreviewPriority_opens (s : PriorityControl t) (media : e.isMultimedia k = true) (wanted : e.priority k ≠ .excluded) :
    Opens e k s (s.doPreviewPriority e k) := by
  have bits := doPreviewPriority_bits (e := e) s k
  refine ⟨fun c off => by rw [bits]; exact off,fun c _ => by rw [bits],fun c out => ?_⟩
  rw [doPreviewPriority_outside s media wanted out]
  split
  · exact .inr ⟨‹_›,rfl⟩
  · exact .inl rfl

theorem prioritiseFile_opens (s : PriorityControl t) (k : Nat) (p : Priority) : Opens e k s (s.prioritiseFile e k p) := by
  have bits := prioritiseFile_bits (e := e) s k p
  exact ⟨fun c off => by rw [bits]; exact off,fun c _ => by rw [bits],fun c out => .inl ((prioritiseFile_spec (e := e) s k p).1.priority out)⟩

-- What becomes of the chunks of a file that is given another priority than excluded.
structure Included (e : FilePriorities) (k : Nat) (oldpriority : Priority) (s s' : PriorityControl t) : Prop where
  opens : Opens e k s s'
  cleared : oldpriority = .excluded → ∀ c, (t.file k).firstChunk ≤ c → c ≤ (t.file k).lastChunk → c < t.numChunks → s'.bits.get c = false
  wanted : ∀ c, (t.file k).firstChunk ≤ c → c ≤ (t.file k).lastChunk → c < t.numChunks → s'.priorityOf c ≠ .excluded
  taken : ∀ c ∈ previewed t e k, ¬ ((t.file k).firstChunk ≤ c ∧ c ≤ (t.file k).lastChunk) → s'.priorityOf c = .preview

theorem downloadPriorityChanged_included (wanted : e.priority k ≠ .excluded) (s : PriorityControl t) (oldpriority : Priority) :
    Included e k oldpriority s (s.downloadPriorityChanged e k (e.priority k) oldpriority) := by
  unfold downloadPriorityChanged
  dsimp only
  rw [if_neg wanted]
  have included : Opens e k s (if oldpriority = .excluded then s.downloadStatusChanged e k true else s) ∧ (oldpriority = .excluded →
      ∀ c, (t.file k).firstChunk ≤ c → c ≤ (t.file k).lastChunk → c < t.numChunks →
        (if oldpriority = .excluded then s.downloadStatusChanged e k true else s).bits.get c = false) := by
    have opens := includeRange_opens (e := e) s k
    have cleared (c : Nat) (low : (t.file k).firstChunk ≤ c) (high : c ≤ (t.file k).lastChunk) (small : c < t.numChunks) :
        (s.includeRange (t.file k).firstChunk (t.file k).lastChunk).bits.get c = false := by
      rw [includeRange_file_bit,if_pos ⟨low,high,small⟩]
    unfold downloadStatusChanged
    rw [if_pos rfl]
    dsimp only
    split
    · split
      · rename_i media
        refine ⟨opens.trans (doPreviewPriority_opens _ media wanted),fun _ c low high small => ?_⟩
        rw [doPreviewPriority_bits]
        exact cleared c low high small
      · exact ⟨opens,fun _ => cleared⟩
    · exact ⟨.refl s,fun old => absurd old ‹_›⟩
  generalize (if oldpriority = .excluded then s.downloadStatusChanged e k true else s) = s₁ at included ⊢
  have again : Opens e k s₁ (if oldpriority = .onlySeed then s₁.includeRange (t.file k).firstChunk (t.file k).lastChunk else s₁) := by
    split
    · exact includeRange_opens s₁ k
    · exact .refl s₁
  generalize (if oldpriority = .onlySeed then s₁.includeRange (t.file k).firstChunk (t.file k).lastChunk else s₁) = s₂ at again ⊢
  have last := again.trans (prioritiseFile_opens (e := e) s₂ k (e.priority k))
  have prioritised (c : Nat) := prioritiseFile_wanted (e := e) (c := c) s₂ k wanted
  split
  · rename_i media
    have all := last.trans (doPreviewPriority_opens _ media wanted)
    refine ⟨included.1.trans all,fun old c low high small => all.kept c (included.2 old c low high small),
      fun c low high small => doPreviewPriority_wanted _ k (prioritised c low high small),fun c among out => ?_⟩
    rw [doPreviewPriority_outside _ media wanted out,if_pos among]
  · rename_i plain
    refine ⟨included.1.trans last,fun old c low high small => last.kept c (included.2 old c low high small),prioritised,fun c among => ?_⟩
    rw [show previewed t e k = [] from if_neg fun all => plain all.1] at among
    cases among

theorem previewed_several (among : c ∈ previewed t e k) : (t.file k).firstChunk ≠ (t.file k).lastChunk := by
  unfold previewed at among
  split at among
  · rename_i all
    exact all.2.2
  · cases among

theorem previewed_inside (among : c ∈ previewed t e k) : c < t.numChunks := by
  unfold previewed at among
  split at among
  · exact (ChunkManager.mem_rangeOf.mp among).2.2
  · cases among

theorem overlaps_own (some_ : 0 < t.size k) (low : (t.file k).firstChunk ≤ c) (high : c ≤ (t.file k).lastChunk) : Overlaps t c k := by
  rw [firstChunk_eq] at low
  rw [lastChunk_eq,if_pos some_] at high
  refine ⟨some_,?_,?_⟩
  · have := (Nat.div_lt_iff_lt_mul t.chunked).mp (Nat.lt_succ_of_le low)
    exact this
  · have := (Nat.le_div_iff_mul_le t.chunked).mp high
    omega

section Change

variable {e' : FilePriorities} (others : ∀ j, j ≠ k → e'.priority j = e.priority j)

-- None of the chunks of a file that is not excluded has excluded files only, but for
-- the chunk of an empty file.
theorem own_wanted (wanted : e'.priority k ≠ .excluded) (allows : Allows t e' k) (low : (t.file k).firstChunk ≤ c) (high : c ≤ (t.file k).lastChunk)
    (small : c < t.numChunks) : 0 < t.size k ∧ Overlaps t c k ∨ Needed t e' k c := by
  rcases Nat.eq_zero_or_pos (t.size k) with none | some_
  · have single : (t.file k).lastChunk = (t.file k).firstChunk := by rw [lastChunk_eq,if_neg (by omega),firstChunk_eq]
    obtain rfl : c = (t.file k).firstChunk := by omega
    exact .inr (allows.empty wanted none small)
  · exact .inl ⟨some_,overlaps_own some_ low high⟩

include others in
theorem included_agrees (wanted : e'.priority k ≠ .excluded) (allows : Allows t e' k) (small : c < t.numChunks) (agrees : Agrees e s c) :
    Agrees e' (s.downloadPriorityChanged e' k (e'.priority k) (e.priority k)) c := by
  obtain ⟨opens,cleared,included,taken⟩ := downloadPriorityChanged_included wanted s (e.priority k)
  by_cases range : (t.file k).firstChunk ≤ c ∧ c ≤ (t.file k).lastChunk
  · have off (free : ¬ AllExcluded t e c) := opens.kept c (Bool.eq_false_iff.mpr fun bit => free (agrees.bit.mp bit))
    refine .wanted ?_ ?_ (included c range.1 range.2 small)
    · rcases own_wanted wanted allows range.1 range.2 small with ⟨_,here⟩ | ⟨j,_,here,wanted⟩
      · exact fun all => wanted (all k here)
      · exact fun all => wanted (all j here)
    · by_cases old : e.priority k = .excluded
      · exact cleared old c range.1 range.2 small
      · rcases own_wanted wanted allows range.1 range.2 small with ⟨_,here⟩ | needed
        · exact off fun all => old (all k here)
        · exact off (needed_wanted others needed)
  · have same := allExcluded_congr (t := t) others (outside_apart range)
    have bit := opens.bit c range
    refine ⟨by rw [bit,same]; exact agrees.bit,?_⟩
    rcases opens.priority c range with kept | ⟨among,preview⟩
    · rw [kept,same]
      exact agrees.priority
    · rw [preview]
      refine iff_of_false (by decide) (allows.preview wanted c among)

end Change

-- A change that is not allowed leaves a chunk that is not as its files are.
theorem refused_disagrees (inside : k < t.numFiles) (refused : ¬ Allows t e k) (s : PriorityControl t) (oldpriority : Priority) :
    ∃ c < t.numChunks, ¬ ((s.downloadPriorityChanged e k (e.priority k) oldpriority).IsExcluded c ↔ AllExcluded t e c) := by
  by_cases own : e.priority k = .excluded
  · have both : BothNeeded t e k := by
      by_contra apart
      exact refused ⟨fun _ => apart,fun wanted => absurd own wanted,fun wanted => absurd own wanted⟩
    have ⟨_,_,j,_,here,wanted⟩ := both
    refine ⟨(t.file k).lastChunk,(overlaps_inside here).1,fun law => wanted (law.mp ?_ j here)⟩
    obtain ⟨s',range⟩ := excludeFile_last inside both s
    unfold downloadPriorityChanged downloadStatusChanged
    rw [if_pos own,if_neg (by decide),isExcluded_iff,range,exclude_bit,exclude_priority,if_pos both.last,if_pos both.last]
    exact ⟨rfl,rfl⟩
  · obtain ⟨_,_,included,taken⟩ := downloadPriorityChanged_included own s oldpriority
    have freed {c : Nat} (priority : (s.downloadPriorityChanged e k (e.priority k) oldpriority).priorityOf c ≠ .excluded)
        (all : AllExcluded t e c) : ¬ ((s.downloadPriorityChanged e k (e.priority k) oldpriority).IsExcluded c ↔ AllExcluded t e c) := by
      rw [isExcluded_iff]
      exact fun law => priority (law.mpr all).2
    by_contra lawful
    push Not at lawful
    refine refused ⟨fun not => absurd not own,fun _ none small => ?_,fun _ c among all => ?_⟩
    · by_contra free
      refine freed (included _ (Nat.le_refl _) (firstChunk_le_lastChunk t k) small) (fun j here => ?_) (lawful _ small)
      by_contra wanted
      exact free ⟨j,fun same => by rw [same] at here; exact Nat.lt_irrefl 0 (none ▸ here.1),here,wanted⟩
    · have several := previewed_several among
      have some_ : 0 < t.size k := by
        by_contra none
        refine several ?_
        rw [lastChunk_eq,if_neg none,firstChunk_eq]
      refine freed ?_ all (lawful c (previewed_inside among))
      rw [taken c among fun range => own (all k (overlaps_own some_ range.1 range.2))]
      decide

end PriorityControl

-- The files of a torrent with their priorities, and its chunk manager.
structure Prioritised (t : Files) where
  files : FilePriorities
  control : PriorityControl t

structure Change (t : Files) where
  file : Fin t.numFiles
  priority : Priority

namespace Prioritised
open PriorityControl

variable {t : Files} {x : Prioritised t}

def withPriority (e : FilePriorities) (c : Change t) : FilePriorities := {e with priority := Function.update e.priority c.file c.priority}

-- The file has its new priority when the chunk manager is told.
def change (x : Prioritised t) (c : Change t) : Prioritised t :=
  ⟨withPriority x.files c,x.control.downloadPriorityChanged (withPriority x.files c) c.file c.priority (x.files.priority c.file)⟩

-- A chunk is excluded if and only if all the files that have bytes of it are.
def Lawful (x : Prioritised t) : Prop := ∀ c < t.numChunks, x.control.IsExcluded c ↔ AllExcluded t x.files c

-- All files are normal, and no chunk is excluded.
structure Begins (x : Prioritised t) : Prop where
  normal : ∀ k, x.files.priority k = .normal
  bits : ∀ c, x.control.bits.get c = false
  priorities : ∀ c, x.control.priorityOf c ≠ .excluded

def Settled (x : Prioritised t) : Prop := ∀ c < t.numChunks, Agrees x.files x.control c

theorem Begins.settled (begins : Begins x) : Settled x := by
  intro c small
  refine .wanted (fun all => ?_) (begins.bits c) (begins.priorities c)
  obtain ⟨j,member⟩ := List.exists_mem_of_ne_nil _ (filesOf_ne_nil small)
  have normal := begins.normal j
  rw [all j (mem_filesOf.mp member).2.2] at normal
  cases normal

theorem change_others (e : FilePriorities) (c : Change t) (j : Nat) (other : j ≠ c.file) : (withPriority e c).priority j = e.priority j :=
  Function.update_of_ne other _ _

theorem change_own (e : FilePriorities) (c : Change t) : (withPriority e c).priority c.file = c.priority := Function.update_self _ _ _

theorem change_settled (settled : Settled x) (c : Change t) (allows : Allows t (withPriority x.files c) c.file) : Settled (x.change c) := by
  intro i small
  have own := change_own x.files c
  show Agrees (withPriority x.files c) (x.control.downloadPriorityChanged (withPriority x.files c) c.file c.priority (x.files.priority c.file)) i
  by_cases excluded : c.priority = .excluded
  · unfold downloadPriorityChanged downloadStatusChanged
    rw [if_pos excluded,if_neg (by decide)]
    exact excluded_agrees (change_others x.files c) c.file.isLt (own.trans excluded) (allows.excluding (own.trans excluded)) small (settled i small)
  · have kept := included_agrees (change_others x.files c) (by rw [own]; exact excluded) allows small (settled i small)
    rwa [own] at kept

theorem change_lawful (c : Change t) (lawful : Lawful (x.change c)) : Allows t (withPriority x.files c) c.file := by
  by_contra refused
  obtain ⟨i,small,broken⟩ := refused_disagrees c.file.isLt refused x.control (x.files.priority c.file)
  rw [change_own] at broken
  exact broken (lawful i small)

-- All through a run from normal files the law holds, if and only if each change is of
-- a file that allows it.
theorem exclusion_law_iff (begins : Begins x) (changes : List (Change t)) :
    (∀ done, done <+: changes → Lawful (done.foldl change x)) ↔
      Along change (fun x c => Allows t (withPriority x.files c) c.file) x changes :=
  Along.states begins.settled (fun _ settled c small => (settled c small).excluded) (fun _ c _ => change_lawful c)
    (fun _ c settled => change_settled settled c) changes

-- The three files of which the one in the middle has two chunks, all of them normal.
def threeNormal : Prioritised middleFile := ⟨⟨fun _ => .normal,fun _ => false,fun _ => false,0,0⟩,fresh middleFile⟩

theorem threeNormal_begins : Begins threeNormal := ⟨fun _ => rfl,fun c => ChunkSet.new_get _ c,fun _ excluded => nomatch excluded⟩

def excludeFirst : Change middleFile := ⟨⟨0,by decide⟩,.excluded⟩

def excludeMiddle : Change middleFile := ⟨⟨1,by decide⟩,.excluded⟩

def excludeLast : Change middleFile := ⟨⟨2,by decide⟩,.excluded⟩

theorem ends_excluded : Lawful ([excludeFirst,excludeLast].foldl change threeNormal) := by
  refine (exclusion_law_iff threeNormal_begins [excludeFirst,excludeLast]).mpr ⟨?_,?_,trivial⟩ _ (List.prefix_refl _)
  · exact ⟨fun _ both => absurd both.1 (by decide),fun wanted => absurd rfl wanted,fun wanted => absurd rfl wanted⟩
  · exact ⟨fun _ both => absurd both.1 (by decide),fun wanted => absurd rfl wanted,fun wanted => absurd rfl wanted⟩

-- With the file in the middle the chunk is excluded that the last file needs.
theorem needed_chunk_excluded : ¬ ∀ (t : Files) (x : Prioritised t) (changes : List (Change t)), Begins x →
    ∀ done, done <+: changes → Lawful (done.foldl change x) := by
  intro law
  have lawful := law middleFile threeNormal [excludeMiddle] threeNormal_begins _ (List.prefix_refl _) 1 (by decide)
  have excluded : (threeNormal.change excludeMiddle).control.IsExcluded 1 := by
    unfold PriorityControl.IsExcluded
    decide +kernel
  have needed := lawful.mp excluded 2 (by decide +kernel)
  cases needed

end Prioritised

end KtorrentStream.Diskio
