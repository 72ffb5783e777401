import KtorrentStream.Diskio.ChunkView
set_option autoImplicit true

namespace KtorrentStream.Diskio
open KtorrentStream.Lib KtorrentStream.Util KtorrentStream.Torrent KtorrentStream.Torrent.Files

namespace PriorityControl

variable {t : Files} {e : FilePriorities} {s s' s'' : PriorityControl t}

def view (s : PriorityControl t) (c : Nat) : ChunkView := s.manager.view c

theorem resetChunk_view (inside : c < t.numChunks) (s : PriorityControl t) (i : Nat) :
    (s.resetChunk i).view c = if c = i then (s.view c).reset else s.view c := ChunkManager.resetChunk_view inside s.manager i

theorem prioritise_view (inside : c < t.numChunks) (s : PriorityControl t) (lower upper : Nat) (priority : Priority) :
    (s.prioritise lower upper priority).view c =
      if c ∈ ChunkManager.rangeOf t.numChunks lower upper then (s.view c).prioritise priority else s.view c :=
  ChunkManager.prioritise_view inside s.manager lower upper priority

theorem includeRange_view (inside : c < t.numChunks) (s : PriorityControl t) (lower upper : Nat) :
    (s.includeRange lower upper).view c = if c ∈ ChunkManager.rangeOf t.numChunks lower upper then (s.view c).reinclude else s.view c :=
  ChunkManager.includeRange_view inside s.manager lower upper

-- The signal resets the chunks that are being downloaded, and their downloads are gone.
theorem excluded_both (inside : c < t.numChunks) (s : PriorityControl t) (lower upper : Nat) :
    ((s.excluded lower upper).downloading c,(s.excluded lower upper).view c) =
      if c ∈ upTo lower upper then (if s.downloading c then (false,(s.view c).reset) else (s.downloading c,s.view c)) else (s.downloading c,s.view c) := by
  refine @foldl_local _ _ _ _ cancelDownload (fun s : PriorityControl t => (s.downloading c,s.view c))
    (fun d => if d.1 then (false,d.2.reset) else d) c (fun d => ?_) (fun s i => ?_) (upTo lower upper) s
  · cases downloads : d.1 <;> simp [downloads]
  · unfold cancelDownload
    by_cases here : c = i
    · subst here
      cases downloads : s.downloading c with
      | true =>
          have reset := resetChunk_view inside s c
          rw [if_pos rfl] at reset
          simp only [if_true]
          exact Prod.ext rfl reset
      | false => simp [downloads]
    · split
      · have reset := resetChunk_view inside s i
        rw [if_neg here] at reset
        simp only [if_neg here]
        exact Prod.ext rfl reset
      · simp

theorem excluded_in (inside : c < t.numChunks) (s : PriorityControl t) (low : lower ≤ c) (high : c ≤ upper) :
    (s.excluded lower upper).view c = if s.downloading c then (s.view c).reset else s.view c := by
  have both := congrArg Prod.snd (excluded_both inside s lower upper)
  rw [if_pos (mem_upTo.mpr ⟨low,high⟩)] at both
  apply both.trans
  split <;> rfl

theorem excluded_out (inside : c < t.numChunks) (s : PriorityControl t) (out : ¬ (lower ≤ c ∧ c ≤ upper)) :
    (s.excluded lower upper).view c = s.view c ∧ (s.excluded lower upper).downloading c = s.downloading c := by
  have both := excluded_both inside s lower upper
  rw [if_neg fun member => out (mem_upTo.mp member)] at both
  exact ⟨congrArg Prod.snd both,congrArg Prod.fst both⟩

theorem mem_range (inside : c < t.numChunks) : c ∈ ChunkManager.rangeOf t.numChunks lower upper ↔ min lower upper ≤ c ∧ c ≤ max lower upper := by
  rw [ChunkManager.mem_rangeOf]
  omega

theorem exclude_in (inside : c < t.numChunks) (s : PriorityControl t) (among : c ∈ ChunkManager.rangeOf t.numChunks lower upper) :
    (s.exclude lower upper).view c = if s.downloading c then (s.view c).exclude.reset else (s.view c).exclude := by
  have first : view {s with manager := s.manager.exclude lower upper} c = _ := ChunkManager.exclude_view inside s.manager lower upper
  rw [if_pos among] at first
  obtain ⟨low,high⟩ := (mem_range inside).mp among
  unfold exclude
  rw [excluded_in inside _ low high,first]
  rfl

theorem exclude_out (inside : c < t.numChunks) (s : PriorityControl t) (out : c ∉ ChunkManager.rangeOf t.numChunks lower upper) :
    (s.exclude lower upper).view c = s.view c := by
  have first : view {s with manager := s.manager.exclude lower upper} c = _ := ChunkManager.exclude_view inside s.manager lower upper
  rw [if_neg out] at first
  unfold exclude
  rw [(excluded_out inside _ fun range => out ((mem_range inside).mpr range)).1,first]
  rfl

theorem exclude_downloading (inside : c < t.numChunks) (s : PriorityControl t) (among : c ∈ ChunkManager.rangeOf t.numChunks lower upper) :
    (s.exclude lower upper).downloading c = false := by
  have both := excluded_both inside {s with manager := s.manager.exclude lower upper} (min lower upper) (max lower upper)
  rw [if_pos (mem_upTo.mpr ((mem_range inside).mp among))] at both
  refine (congrArg Prod.fst both).trans ?_
  show (if s.downloading c then (false,_) else (s.downloading c,_) : Bool × ChunkView).1 = false
  cases s.downloading c <;> rfl

-- What is being downloaded is not on disk.
def Apart (s : PriorityControl t) (c : Nat) : Prop := s.downloading c = true → (s.view c).present = false

-- Then the signal takes nothing from the disk.
structure Calm (s s' : PriorityControl t) (c : Nat) : Prop where
  present : (s'.view c).present = (s.view c).present
  downloading : s'.downloading c = true → s.downloading c = true

theorem Calm.refl (s : PriorityControl t) (c : Nat) : Calm s s c := ⟨rfl,id⟩

theorem Calm.trans (first : Calm s s' c) (second : Calm s' s'' c) : Calm s s'' c :=
  ⟨second.present.trans first.present,fun downloads => first.downloading (second.downloading downloads)⟩

theorem Calm.apart (calm : Calm s s' c) (apart : Apart s c) : Apart s' c := fun downloads => by
  rw [calm.present]
  exact apart (calm.downloading downloads)

theorem excluded_calm (inside : c < t.numChunks) (s : PriorityControl t) (lower upper : Nat) (apart : Apart s c) : Calm s (s.excluded lower upper) c := by
  have both := excluded_both inside s lower upper
  split at both
  · have view := congrArg Prod.snd both
    have downloading := congrArg Prod.fst both
    dsimp only at view downloading
    cases downloads : s.downloading c with
    | false =>
        rw [downloads] at view downloading
        refine ⟨congrArg ChunkView.present view,fun later => ?_⟩
        cases later.symm.trans downloading
    | true =>
        rw [downloads] at view downloading
        refine ⟨(congrArg ChunkView.present view).trans ?_,fun _ => downloads⟩
        show (s.view c).reset.present = (s.view c).present
        rw [apart downloads]
        unfold ChunkView.reset
        split
        · exact apart downloads
        · rfl
  · exact ⟨congrArg (fun d : Bool × ChunkView => d.2.present) both,fun later => (congrArg Prod.fst both).symm.trans later⟩

-- The chunks of R are given another priority than EXCLUDED, and the others are left
-- alone.
structure Places (R : Nat → Prop) (s s' : PriorityControl t) : Prop where
  calm : ∀ c < t.numChunks, Apart s c → Calm s s' c
  moves : ∀ c < t.numChunks, ChunkView.Moves (s.view c) (s'.view c)
  placed : ∀ c < t.numChunks, R c ∨ (s.view c).Placed → (s'.view c).Placed
  others : ∀ c < t.numChunks, ¬ R c → s'.view c = s.view c ∧ s'.downloading c = s.downloading c

theorem Places.refl (s : PriorityControl t) : Places (fun _ => False) s s :=
  ⟨fun c _ _ => .refl s c,fun _ _ => .refl _,fun _ _ either => either.resolve_left id,fun _ _ _ => ⟨rfl,rfl⟩⟩

theorem Places.trans (first : Places R s s') (second : Places R' s' s'') : Places (fun c => R c ∨ R' c) s s'' := by
  refine ⟨fun c inside apart => ?_,fun c inside => (first.moves c inside).trans (second.moves c inside),fun c inside either => ?_,fun c inside out => ?_⟩
  · have calm := first.calm c inside apart
    exact calm.trans (second.calm c inside (calm.apart apart))
  · apply second.placed c inside
    rcases either with (here | there) | already
    · exact .inr (first.placed c inside (.inl here))
    · exact .inl there
    · exact .inr (first.placed c inside (.inr already))
  · obtain ⟨view,downloading⟩ := first.others c inside fun here => out (.inl here)
    obtain ⟨view',downloading'⟩ := second.others c inside fun there => out (.inr there)
    exact ⟨view'.trans view,downloading'.trans downloading⟩

theorem Places.congr (places : Places R s s') (same : ∀ c < t.numChunks, R c ↔ R' c) : Places R' s s' :=
  ⟨places.calm,places.moves,fun c inside either => places.placed c inside (either.imp_left (same c inside).mpr),
    fun c inside out => places.others c inside fun here => out ((same c inside).mp here)⟩

theorem prioritise_places (s : PriorityControl t) (lower upper : Nat) {p : Priority} (wanted : p ≠ .excluded) :
    Places (fun c => min lower upper ≤ c ∧ c ≤ max lower upper) s (s.prioritise lower upper p) := by
  refine ⟨fun c inside _ => ⟨?_,id⟩,fun c inside => ?_,fun c inside either => ?_,fun c inside out => ?_⟩
  · rw [prioritise_view inside]
    split <;> rfl
  · rw [prioritise_view inside]
    split
    · exact ChunkView.prioritise_moves _ p
    · exact .refl _
  · rw [prioritise_view inside]
    split
    · exact ChunkView.prioritise_placed _ wanted
    · rename_i out
      exact either.resolve_left fun range => out ((mem_range inside).mpr range)
  · rw [prioritise_view inside,if_neg fun among => out ((mem_range inside).mp among)]
    exact ⟨rfl,rfl⟩

theorem Places.signal (places : Places R s s') (range : ∀ c, lower ≤ c → c ≤ upper → R c) : Places R s (s'.excluded lower upper) := by
  refine ⟨fun c inside apart => ?_,fun c inside => (places.moves c inside).trans ?_,fun c inside either => ?_,fun c inside out => ?_⟩
  · have calm := places.calm c inside apart
    exact calm.trans (excluded_calm inside s' lower upper (calm.apart apart))
  · by_cases here : lower ≤ c ∧ c ≤ upper
    · rw [excluded_in inside s' here.1 here.2]
      split
      · exact ChunkView.reset_moves _
      · exact .refl _
    · rw [(excluded_out inside s' here).1]
      exact .refl _
  · have placed := places.placed c inside either
    by_cases here : lower ≤ c ∧ c ≤ upper
    · rw [excluded_in inside s' here.1 here.2]
      split
      · exact placed.reset
      · exact placed
    · rw [(excluded_out inside s' here).1]
      exact placed
  · obtain ⟨view,downloading⟩ := places.others c inside out
    obtain ⟨view',downloading'⟩ := excluded_out inside s' fun both : lower ≤ c ∧ c ≤ upper => out (range c both.1 both.2)
    exact ⟨view'.trans view,downloading'.trans downloading⟩

theorem filesAt_places (s : PriorityControl t) (idx : Nat) : Places (fun _ => False) s (s.filesAt idx).2 :=
  ⟨fun _ _ _ => ⟨rfl,id⟩,fun _ _ => .refl _,fun _ _ either => either.resolve_left id,fun _ _ _ => ⟨rfl,rfl⟩⟩

theorem setBorderChunkPriority_places (s : PriorityControl t) (idx : Nat) {p : Priority} (wanted : p ≠ .excluded) :
    Places (· = idx) s (s.setBorderChunkPriority e idx p) := by
  have enough := (highest_ge e (s.filesAt idx).1 p).1
  have more := Nat.lt_of_lt_of_le (value_more wanted) enough
  have placed {q : Priority} (higher : Priority.excluded.value < q.value) : Places (· = idx) s ((s.filesAt idx).2.prioritise idx idx q) := by
    have wanted : q ≠ .excluded := by
      intro same
      rw [same] at higher
      exact Nat.lt_irrefl _ higher
    refine ((filesAt_places s idx).trans (prioritise_places _ idx idx wanted)).congr fun c _ => ?_
    simp only [false_or]
    omega
  unfold setBorderChunkPriority
  dsimp only
  split
  · exact (placed more).signal fun c low high => Nat.le_antisymm high low
  · exact placed more

-- The chunks of a file that the preview takes.
def taken (t : Files) (e : FilePriorities) (k : Nat) : List Nat :=
  let f := t.file k
  let nchunks := previewChunkRangeSize e t k
  if e.priority k = .excluded ∨ e.priority k = .onlySeed then []
  else if f.firstChunk = f.lastChunk then ChunkManager.rangeOf t.numChunks f.firstChunk f.lastChunk
  else if nchunks = 0 then []
  else
    let front := ChunkManager.rangeOf t.numChunks f.firstChunk (uint32 (f.firstChunk + nchunks))
    if uint32Sub f.lastChunk f.firstChunk > nchunks then
      front ++ ChunkManager.rangeOf t.numChunks (uint32Sub f.lastChunk nchunks) f.lastChunk
    else front

theorem doPreviewPriority_places (s : PriorityControl t) (k : Nat) : Places (· ∈ taken t e k) s (s.doPreviewPriority e k) := by
  have preview : Priority.preview ≠ .excluded := by decide
  have nothing : Places (· ∈ ([] : List Nat)) s s := (Places.refl s).congr fun c _ => by simp
  have among (s : PriorityControl t) (lower upper : Nat) :
      Places (· ∈ ChunkManager.rangeOf t.numChunks lower upper) s (s.prioritise lower upper .preview) :=
    (prioritise_places s lower upper preview).congr fun c inside => (mem_range inside).symm
  unfold doPreviewPriority taken
  dsimp only
  split
  · exact nothing
  · split
    · exact among s _ _
    · split
      · exact nothing
      · split
        · exact ((among s _ _).trans (among _ _ _)).congr fun c _ => List.mem_append.symm
        · exact among s _ _

theorem prioritiseFile_places (s : PriorityControl t) (k : Nat) {p : Priority} (wanted : p ≠ .excluded) :
    Places (fun c => (t.file k).firstChunk ≤ c ∧ c ≤ (t.file k).lastChunk) s (s.prioritiseFile e k p) := by
  have order := firstChunk_le_lastChunk t k
  have end_ (s : PriorityControl t) (c goes : Nat) :
      Places (fun i => i = c ∧ isBorderChunk t c = true) s (if isBorderChunk t c then (goes,s.setBorderChunkPriority e c p) else (c,s)).2 := by
    cases border : isBorderChunk t c with
    | true => exact (setBorderChunkPriority_places s c wanted).congr fun i _ => by simp
    | false => exact (Places.refl s).congr fun i _ => by simp
  unfold prioritiseFile
  dsimp only
  by_cases single : (t.file k).firstChunk = (t.file k).lastChunk
  · rw [if_pos single]
    have given : Places (fun c => (t.file k).firstChunk ≤ c ∧ c ≤ (t.file k).lastChunk) s
        (if isBorderChunk t (t.file k).firstChunk then s.setBorderChunkPriority e (t.file k).firstChunk p
          else s.prioritise (t.file k).firstChunk (t.file k).firstChunk p) := by
      split
      · exact (setBorderChunkPriority_places s _ wanted).congr fun c _ => by omega
      · exact (prioritise_places s _ _ wanted).congr fun c _ => by omega
    split
    · exact given.signal fun c low high => ⟨low,high⟩
    · exact given
  · rw [if_neg single]
    have front := end_ s (t.file k).firstChunk ((t.file k).firstChunk + 1)
    have low : (if isBorderChunk t (t.file k).firstChunk then ((t.file k).firstChunk + 1,s.setBorderChunkPriority e (t.file k).firstChunk p)
        else ((t.file k).firstChunk,s)).1 = if isBorderChunk t (t.file k).firstChunk then (t.file k).firstChunk + 1 else (t.file k).firstChunk := by
      split <;> rfl
    generalize (if isBorderChunk t (t.file k).firstChunk then _ else _ : Nat × PriorityControl t) = f at front low ⊢
    have back := end_ f.2 (t.file k).lastChunk ((t.file k).lastChunk - 1)
    have high : (if isBorderChunk t (t.file k).lastChunk then ((t.file k).lastChunk - 1,f.2.setBorderChunkPriority e (t.file k).lastChunk p)
        else ((t.file k).lastChunk,f.2)).1 = if isBorderChunk t (t.file k).lastChunk then (t.file k).lastChunk - 1 else (t.file k).lastChunk := by
      split <;> rfl
    generalize (if isBorderChunk t (t.file k).lastChunk then _ else _ : Nat × PriorityControl t) = b at back high ⊢
    have ends := front.trans back
    -- What is left between the ends is given the priority; together they are the file.
    have whole (c : Nat) : ((c = (t.file k).firstChunk ∧ isBorderChunk t (t.file k).firstChunk = true) ∨
        (c = (t.file k).lastChunk ∧ isBorderChunk t (t.file k).lastChunk = true)) ∨ (f.1 ≤ c ∧ c ≤ b.1) ↔
          (t.file k).firstChunk ≤ c ∧ c ≤ (t.file k).lastChunk := by
      rw [low,high]
      cases isBorderChunk t (t.file k).firstChunk <;> cases isBorderChunk t (t.file k).lastChunk <;>
        simp only [Bool.false_eq_true,if_true,if_false,and_true,and_false,or_false,false_or] <;> omega
    split
    · rename_i some_
      have all := ends.trans (prioritise_places b.2 f.1 b.1 wanted)
      rw [Nat.min_eq_left some_,Nat.max_eq_right some_] at all
      split
      · exact (all.signal fun c low high => .inr ⟨low,high⟩).congr fun c _ => whole c
      · exact all.congr fun c _ => whole c
    · refine ends.congr fun c _ => ?_
      rw [← whole c]
      exact ⟨.inl,fun either => either.resolve_right (by omega)⟩

def InFile (t : Files) (k c : Nat) : Prop := (t.file k).firstChunk ≤ c ∧ c ≤ (t.file k).lastChunk

def shown (t : Files) (e : FilePriorities) (k : Nat) : List Nat := if e.isMultimedia k then taken t e k else []

theorem shown_places (s : PriorityControl t) (k : Nat) : Places (· ∈ shown t e k) s (if e.isMultimedia k then s.doPreviewPriority e k else s) := by
  unfold shown
  split
  · exact doPreviewPriority_places s k
  · exact (Places.refl s).congr fun c _ => by simp

def Reincludes (oldpriority : Priority) : Prop := oldpriority = .excluded ∨ oldpriority = .onlySeed

theorem includeFile_view (inside : c < t.numChunks) (s : PriorityControl t) (k : Nat) :
    (InFile t k c → (s.includeRange (t.file k).firstChunk (t.file k).lastChunk).view c = (s.view c).reinclude) ∧
      (¬ InFile t k c → (s.includeRange (t.file k).firstChunk (t.file k).lastChunk).view c = s.view c) := by
  have order := firstChunk_le_lastChunk t k
  rw [includeRange_view inside]
  have range : c ∈ ChunkManager.rangeOf t.numChunks (t.file k).firstChunk (t.file k).lastChunk ↔ InFile t k c := by
    rw [mem_range inside,Nat.min_eq_left order,Nat.max_eq_right order]
    rfl
  constructor
  · intro here
    rw [if_pos (range.mpr here)]
  · intro out
    rw [if_neg fun among => out (range.mp among)]

-- A file that is given another priority than EXCLUDED: its chunks are included again
-- if they were excluded or only seeded, and are given their priorities then.
theorem downloadPriorityChanged_places (s : PriorityControl t) (k : Nat) (oldpriority : Priority) {newpriority : Priority} (wanted : newpriority ≠ .excluded) :
    ∃ s₁ : PriorityControl t, Places (fun c => InFile t k c ∨ c ∈ shown t e k) s₁ (s.downloadPriorityChanged e k newpriority oldpriority) ∧
      s₁.downloading = s.downloading ∧ ∀ c < t.numChunks, (Reincludes oldpriority ∧ InFile t k c → s₁.view c = (s.view c).reinclude) ∧
        (¬ (Reincludes oldpriority ∧ InFile t k c) → s₁.view c = s.view c) := by
  have given (s : PriorityControl t) : Places (fun c => InFile t k c ∨ c ∈ shown t e k) s
      (if e.isMultimedia k then (s.prioritiseFile e k newpriority).doPreviewPriority e k else s.prioritiseFile e k newpriority) :=
    (prioritiseFile_places s k wanted).trans (shown_places _ k)
  have again (again : Reincludes oldpriority) (c : Nat) (inside : c < t.numChunks) :
      (Reincludes oldpriority ∧ InFile t k c → (s.includeRange (t.file k).firstChunk (t.file k).lastChunk).view c = (s.view c).reinclude) ∧
        (¬ (Reincludes oldpriority ∧ InFile t k c) → (s.includeRange (t.file k).firstChunk (t.file k).lastChunk).view c = s.view c) := by
    obtain ⟨here,out⟩ := includeFile_view inside s k
    exact ⟨fun both => here both.2,fun not => out fun among => not ⟨again,among⟩⟩
  unfold downloadPriorityChanged downloadStatusChanged
  dsimp only
  rw [if_neg wanted]
  by_cases excluded : oldpriority = .excluded
  · subst excluded
    simp only [if_true,reduceCtorEq,if_false]
    refine ⟨s.includeRange (t.file k).firstChunk (t.file k).lastChunk,?_,rfl,again (.inl rfl)⟩
    exact ((shown_places _ k).trans (given _)).congr fun c _ => ⟨fun either => either.elim .inr id,.inr⟩
  · rw [if_neg excluded]
    by_cases seed : oldpriority = .onlySeed
    · subst seed
      rw [if_pos rfl]
      exact ⟨s.includeRange (t.file k).firstChunk (t.file k).lastChunk,given _,rfl,again (.inr rfl)⟩
    · rw [if_neg seed]
      exact ⟨s,given s,rfl,fun c _ => ⟨fun both => absurd both.1 (by simp [Reincludes,excluded,seed]),fun _ => rfl⟩⟩

def Represents (s : PriorityControl t) : Prop := ∀ c < t.numChunks, (s.view c).Sound

-- Another priority than EXCLUDED keeps the representation if and only if no chunk of
-- the file or of its preview is excluded, but for those that are included again.
theorem downloadPriorityChanged_represents (sound : Represents s) (k : Nat) {newpriority oldpriority : Priority} (wanted : newpriority ≠ .excluded) :
    Represents (s.downloadPriorityChanged e k newpriority oldpriority) ↔
      ∀ c < t.numChunks, InFile t k c ∨ c ∈ shown t e k → ¬ (Reincludes oldpriority ∧ InFile t k c) → s.bits.get c = false := by
  obtain ⟨s₁,places,_,views⟩ := downloadPriorityChanged_places (e := e) s k oldpriority wanted
  refine forall_congr' fun c => forall_congr' fun inside => ?_
  obtain ⟨again,same⟩ := views c inside
  have moves := places.moves c inside
  by_cases included : Reincludes oldpriority ∧ InFile t k c
  · have placed := places.placed c inside (.inl (.inl included.2))
    rw [again included] at moves
    refine iff_of_true ((placed.sound_iff moves ?_).mpr rfl) fun _ not => absurd included not
    exact (sound c inside).present
  · rw [same included] at moves
    by_cases here : InFile t k c ∨ c ∈ shown t e k
    · rw [(places.placed c inside (.inl here)).sound_iff moves (sound c inside).present]
      exact ⟨fun off _ _ => off,fun off => off here included⟩
    · rw [(places.others c inside here).1,same included]
      exact iff_of_true (sound c inside) fun there => absurd there here

-- The chunks of R are reset, and nothing else.
structure Cleared (R : Nat → Prop) (s s' : PriorityControl t) : Prop where
  reset : ∀ c < t.numChunks, R c → s'.view c = (s.view c).reset
  others : ∀ c < t.numChunks, ¬ R c → s'.view c = s.view c
  downloading : s'.downloading = s.downloading

theorem resetChunk_cleared (s : PriorityControl t) (i : Nat) : Cleared (· = i) s (s.resetChunk i) := by
  refine ⟨fun c inside here => ?_,fun c inside other => ?_,rfl⟩
  · rw [resetChunk_view inside,if_pos here]
  · rw [resetChunk_view inside,if_neg other]

theorem foldl_cleared (s : PriorityControl t) (l : List Nat) : Cleared (· ∈ l) s (l.foldl resetChunk s) := by
  have view {c : Nat} (inside : c < t.numChunks) : (l.foldl resetChunk s).view c = if c ∈ l then (s.view c).reset else s.view c :=
    foldl_local (f := fun s : PriorityControl t => s.view c) ChunkView.reset_reset (resetChunk_view inside) l s
  refine ⟨fun c inside here => ?_,fun c inside other => ?_,@foldl_fixed _ _ resetChunk _ downloading (fun _ _ => rfl) l s⟩
  · rw [view inside,if_pos here]
  · rw [view inside,if_neg other]

-- What becomes of an end of a file that gets excluded: it is reset where no other file
-- needs it, and is given the priority for the others where one does.
def EndOf (t : Files) (e : FilePriorities) (k c stays goes moved : Nat) (s s' : PriorityControl t) : Prop :=
  moved = stays ∧ ¬ Needed t e k c ∧ Cleared (· = c) s s' ∨ moved = goes ∧ Needed t e k c ∧ Places (· = c) s s'

theorem resetBorderChunk_end (s : PriorityControl t) (c k stays goes : Nat) :
    EndOf t e k c stays goes (if (s.resetBorderChunk e c k).1 then stays else goes) s (s.resetBorderChunk e c k).2 := by
  have spec := resetBorderChunk_spec (e := e) s c k
  cases search : (s.filesAt c).1.find? fun j => j != k && e.priority j != .excluded with
  | some other =>
      have result : s.resetBorderChunk e c k = (false,(s.filesAt c).2.setBorderChunkPriority e c (e.priority other)) := by
        unfold resetBorderChunk
        dsimp only
        rw [search]
      rw [result] at spec ⊢
      have found := List.find?_some search
      rw [Bool.and_eq_true,bne_iff_ne,bne_iff_ne] at found
      refine .inr ⟨rfl,(spec.needed rfl).2,((filesAt_places s c).trans (setBorderChunkPriority_places _ c found.2)).congr fun i _ => ?_⟩
      simp only [false_or]
  | none =>
      have result : s.resetBorderChunk e c k = (true,(s.filesAt c).2.resetChunk c) := by
        unfold resetBorderChunk
        dsimp only
        rw [search]
      rw [result] at spec ⊢
      obtain ⟨reset,others,_⟩ := resetChunk_cleared (s.filesAt c).2 c
      exact .inl ⟨rfl,unneeded (spec.free rfl),reset,others,rfl⟩

theorem end_of (s : PriorityControl t) (c k goes : Nat) (border : Needed t e k c → isBorderChunk t c = true) :
    EndOf t e k c c goes
      (if !isBorderChunk t c then (c,s.resetChunk c) else (if (s.resetBorderChunk e c k).1 then c else goes,(s.resetBorderChunk e c k).2)).1 s
      (if !isBorderChunk t c then (c,s.resetChunk c) else (if (s.resetBorderChunk e c k).1 then c else goes,(s.resetBorderChunk e c k).2)).2 := by
  split
  · rename_i apart
    refine .inl ⟨rfl,fun needed => ?_,resetChunk_cleared s c⟩
    rw [border needed] at apart
    cases apart
  · exact resetBorderChunk_end s c k c goes

-- Where the first chunk of two is needed, the loop variable has come to the last one,
-- which is not looked at any more.
def Skipped (t : Files) (e : FilePriorities) (k c : Nat) : Prop :=
  c = (t.file k).lastChunk ∧ (t.file k).firstChunk + 1 = (t.file k).lastChunk ∧ Needed t e k (t.file k).firstChunk

-- A chunk that is left alone, and one that is given another priority than EXCLUDED.
def Same (c : Nat) (s s' : PriorityControl t) : Prop := s'.view c = s.view c ∧ s'.downloading c = s.downloading c

structure Given (c : Nat) (s s' : PriorityControl t) : Prop where
  moves : ChunkView.Moves (s.view c) (s'.view c)
  placed : (s'.view c).Placed
  calm : Apart s c → Calm s s' c

theorem Same.trans (first : Same c s s') (second : Same c s' s'') : Same c s s'' := ⟨second.1.trans first.1,second.2.trans first.2⟩

theorem Same.calm (same : Same c s s') : Calm s s' c := ⟨congrArg ChunkView.present same.1,fun downloads => same.2.symm.trans downloads⟩

theorem EndOf.others (end_ : EndOf t e k c stays goes moved s s') (small : c' < t.numChunks) (other : c' ≠ c) : Same c' s s' := by
  rcases end_ with ⟨_,_,resets⟩ | ⟨_,_,places⟩
  · exact ⟨resets.others c' small other,congrFun resets.downloading c'⟩
  · exact places.others c' small other

theorem Places.given (places : Places R s s') (inside : c < t.numChunks) (here : R c) : Given c s s' :=
  ⟨places.moves c inside,places.placed c inside (.inl here),places.calm c inside⟩

theorem Given.between (first : Same c s s₀) (given : Given c s₀ s₁) (last : Same c s₁ s₂) : Given c s s₂ := by
  obtain ⟨moves,placed,calm⟩ := given
  rw [first.1] at moves
  refine ⟨by rw [last.1]; exact moves,by rw [last.1]; exact placed,fun apart => ?_⟩
  have middle := calm (first.calm.apart apart)
  exact (first.calm.trans middle).trans last.calm

structure Fate (t : Files) (e : FilePriorities) (k f b c : Nat) (s s' : PriorityControl t) : Prop where
  outside : ¬ InFile t k c → Same c s s' ∧ ¬ (f ≤ c ∧ c ≤ b)
  free : InFile t k c → ¬ Skipped t e k c → ¬ Needed t e k c → s'.view c = (s.view c).reset ∧ f ≤ c ∧ c ≤ b
  skipped : Skipped t e k c → Same c s s' ∧ f ≤ c ∧ c ≤ b
  needed : InFile t k c → ¬ Skipped t e k c → Needed t e k c → Given c s s' ∧ ¬ (f ≤ c ∧ c ≤ b)

theorem excludeFile_single (inside : k < t.numFiles) (s : PriorityControl t) (single : (t.file k).firstChunk = (t.file k).lastChunk) :
    ∃ (s₁ : PriorityControl t) (f b : Nat), s.excludeFile e k = (if f ≤ b then s₁.exclude f b else s₁) ∧ ∀ c < t.numChunks, Fate t e k f b c s s₁ := by
  have border : Needed t e k (t.file k).firstChunk → isBorderChunk t (t.file k).firstChunk = true := fun needed =>
    (needed_end inside (Nat.le_refl _) (Nat.le_of_eq single) needed).1
  have own {c : Nat} (here : InFile t k c) : c = (t.file k).firstChunk := by
    unfold InFile at here
    omega
  have member : InFile t k (t.file k).firstChunk := ⟨Nat.le_refl _,Nat.le_of_eq single⟩
  have apart {c : Nat} : ¬ Skipped t e k c := fun skipped => by
    have := skipped.2.1
    omega
  have outcome {moved : Nat} {s₁ : PriorityControl t} (end_ : EndOf t e k (t.file k).firstChunk 1 0 moved s s₁) :
      ∀ c < t.numChunks, Fate t e k (if moved = 1 then (t.file k).firstChunk else 1) (if moved = 1 then (t.file k).firstChunk else 0) c s s₁ := by
    intro c small
    rcases end_ with ⟨rfl,free,resets⟩ | ⟨rfl,needed,places⟩
    · rw [if_pos rfl,if_pos rfl]
      refine ⟨fun out => ?_,fun here _ _ => ?_,fun skipped => absurd skipped apart,fun here _ needed => ?_⟩
      · have other : c ≠ (t.file k).firstChunk := fun same => out (same ▸ member)
        exact ⟨⟨resets.others c small other,congrFun resets.downloading c⟩,by omega⟩
      · have same := own here
        exact ⟨resets.reset c small same,by omega,by omega⟩
      · rw [own here] at needed
        exact absurd needed free
    · rw [if_neg (by decide),if_neg (by decide)]
      refine ⟨fun out => ?_,fun here _ free => ?_,fun skipped => absurd skipped apart,fun here _ _ => ?_⟩
      · have other : c ≠ (t.file k).firstChunk := fun same => out (same ▸ member)
        exact ⟨places.others c small other,by omega⟩
      · rw [own here] at free
        exact absurd needed free
      · exact ⟨places.given small (own here),by omega⟩
  unfold excludeFile
  dsimp only
  rw [if_pos single,← single]
  cases plain : isBorderChunk t (t.file k).firstChunk with
  | false =>
      have end_ : EndOf t e k (t.file k).firstChunk 1 0 1 s (s.resetChunk (t.file k).firstChunk) := by
        refine .inl ⟨rfl,fun needed => ?_,resetChunk_cleared s _⟩
        cases plain.symm.trans (border needed)
      refine ⟨_,_,_,?_,outcome end_⟩
      simp
  | true =>
      refine ⟨_,_,_,?_,outcome (resetBorderChunk_end s _ k 1 0)⟩
      cases (s.resetBorderChunk e (t.file k).firstChunk k).1 with
      | true => simp
      | false => simp

theorem excludeFile_several (inside : k < t.numFiles) (s : PriorityControl t) (several : (t.file k).firstChunk ≠ (t.file k).lastChunk) :
    ∃ (s₁ : PriorityControl t) (f b : Nat), s.excludeFile e k = (if f ≤ b then s₁.exclude f b else s₁) ∧ ∀ c < t.numChunks, Fate t e k f b c s s₁ := by
  have needed {c : Nat} := @needed_end t e k c inside
  have order : (t.file k).firstChunk < (t.file k).lastChunk := by
    have := firstChunk_le_lastChunk t k
    omega
  unfold excludeFile
  dsimp only
  rw [if_neg several]
  have start := foldl_cleared s (List.range' ((t.file k).firstChunk + 1) ((t.file k).lastChunk - ((t.file k).firstChunk + 1)))
  generalize (List.range' _ _).foldl resetChunk s = s₀ at start ⊢
  have middle {c : Nat} : c ∈ List.range' ((t.file k).firstChunk + 1) ((t.file k).lastChunk - ((t.file k).firstChunk + 1)) ↔
      (t.file k).firstChunk < c ∧ c < (t.file k).lastChunk := by
    rw [List.mem_range'_1]
    omega
  have front := end_of (e := e) s₀ (t.file k).firstChunk k ((t.file k).firstChunk + 1) fun wanted =>
    (needed (Nat.le_refl _) (Nat.le_of_lt order) wanted).1
  generalize (if (!isBorderChunk t (t.file k).firstChunk) = true then _ else _ : Nat × PriorityControl t) = f at front ⊢
  have back := end_of (e := e) f.2 (t.file k).lastChunk k ((t.file k).lastChunk - 1) fun wanted =>
    (needed (Nat.le_of_lt order) (Nat.le_refl _) wanted).1
  generalize (if (!isBorderChunk t (t.file k).lastChunk) = true then _ else _ : Nat × PriorityControl t) = b at back ⊢
  have initial {c : Nat} (small : c < t.numChunks) (out : ¬ ((t.file k).firstChunk < c ∧ c < (t.file k).lastChunk)) : Same c s s₀ :=
    ⟨start.others c small fun member => out (middle.mp member),congrFun start.downloading c⟩
  have beside {c : Nat} (small : c < t.numChunks) (other : c ≠ (t.file k).firstChunk) : Same c s₀ f.2 := front.others small other
  have behind {c : Nat} (small : c < t.numChunks) (other : c ≠ (t.file k).lastChunk) : Same c f.2 b.2 := back.others small other
  by_cases met : (t.file k).lastChunk = f.1
  · rw [if_neg (not_not_intro met)]
    refine ⟨f.2,f.1,(t.file k).lastChunk,rfl,fun c small => ?_⟩
    rcases front with ⟨stays,_⟩ | ⟨goes,wanted,places⟩
    · omega
    · have skipped (last : c = (t.file k).lastChunk) : Skipped t e k c := ⟨last,by omega,wanted⟩
      refine ⟨fun out => ?_,fun here other free => ?_,fun skipped => ?_,fun here other _ => ?_⟩
      · unfold InFile at out
        exact ⟨(initial small (by omega)).trans (beside small (by omega)),by omega⟩
      · unfold InFile at here
        by_cases last : c = (t.file k).lastChunk
        · exact absurd (skipped last) other
        · obtain rfl : c = (t.file k).firstChunk := by omega
          exact absurd wanted free
      · obtain ⟨rfl,_,_⟩ := skipped
        exact ⟨(initial small (by omega)).trans (beside small (by omega)),by omega,Nat.le_refl _⟩
      · unfold InFile at here
        have last : c ≠ (t.file k).lastChunk := fun last => other (skipped last)
        obtain rfl : c = (t.file k).firstChunk := by omega
        exact ⟨(places.given small rfl).between (initial small (by omega)) ⟨rfl,rfl⟩,by omega⟩
  · rw [if_pos met]
    refine ⟨b.2,f.1,b.1,rfl,fun c small => ?_⟩
    have apart : ¬ Skipped t e k c := by
      rintro ⟨_,two,wanted⟩
      rcases front with ⟨_,free,_⟩ | ⟨goes,_,_⟩
      · exact free wanted
      · omega
    have low : f.1 = (t.file k).firstChunk ∨ f.1 = (t.file k).firstChunk + 1 := front.imp And.left And.left
    have high : b.1 = (t.file k).lastChunk ∨ b.1 = (t.file k).lastChunk - 1 := back.imp And.left And.left
    refine ⟨fun out => ?_,fun here _ free => ?_,fun skipped => absurd skipped apart,fun here _ wanted => ?_⟩
    · unfold InFile at out
      exact ⟨((initial small (by omega)).trans (beside small (by omega))).trans (behind small (by omega)),by omega⟩
    · unfold InFile at here
      by_cases first : c = (t.file k).firstChunk
      · subst first
        rcases front with ⟨stays,_,resets⟩ | ⟨_,wanted,_⟩
        · rw [(behind small several).1,resets.reset _ small rfl,(initial small (by omega)).1]
          exact ⟨rfl,by omega,by omega⟩
        · exact absurd wanted free
      · by_cases last : c = (t.file k).lastChunk
        · subst last
          rcases back with ⟨stays,_,resets⟩ | ⟨_,wanted,_⟩
          · rw [resets.reset _ small rfl,(beside small first).1,(initial small (by omega)).1]
            exact ⟨rfl,by omega,by omega⟩
          · exact absurd wanted free
        · rw [(behind small last).1,(beside small first).1,start.reset c small (middle.mpr (by omega))]
          exact ⟨rfl,by omega,by omega⟩
    · rcases (needed here.1 here.2 wanted).2 with rfl | rfl
      · rcases front with ⟨_,free,_⟩ | ⟨goes,_,places⟩
        · exact absurd wanted free
        · exact ⟨(places.given small rfl).between (initial small (by omega)) (behind small several),by omega⟩
      · rcases back with ⟨_,free,_⟩ | ⟨goes,_,places⟩
        · exact absurd wanted free
        · exact ⟨(places.given small rfl).between ((initial small (by omega)).trans (beside small (Ne.symm several))) ⟨rfl,rfl⟩,by omega⟩

-- A file gets excluded: each of its chunks that are on disk is reset before it is
-- excluded, or by the signal after, and no chunk that stays has been excluded.
structure Leaves (e : FilePriorities) (k : Nat) (s : PriorityControl t) (c : Nat) : Prop where
  skipped : Skipped t e k c → s.manager.bitset.get c = true → s.downloading c = true ∧ s.manager.duringLoad = false
  needed : ¬ Skipped t e k c → Needed t e k c → s.bits.get c = false
  free : ¬ Skipped t e k c → ¬ Needed t e k c → s.manager.bitset.get c = true → s.manager.duringLoad = false

theorem excluded_sound_iff (sound : ChunkView.Sound v) (downloads : Bool) :
    (if downloads then v.exclude.reset else v.exclude).Sound ↔ (v.present = true → downloads = true ∧ v.duringLoad = false) := by
  have status : v.present = true ↔ v.status = .onDisk := by rw [sound.present,beq_iff_eq]
  have plain : v.exclude.Sound ↔ v.present ≠ true := by rw [ChunkView.exclude_sound_iff,ne_eq,ne_eq,status]
  cases downloads with
  | false =>
      rw [if_neg Bool.false_ne_true,plain]
      exact ⟨fun gone present => absurd present gone,fun kept present => Bool.false_ne_true (kept present).1⟩
  | true =>
      rw [if_pos rfl]
      cases loading : v.duringLoad with
      | false => exact iff_of_true (ChunkView.exclude_reset_sound v loading) fun _ => ⟨rfl,rfl⟩
      | true =>
          have same : v.exclude.reset = v.exclude := by
            unfold ChunkView.reset
            exact if_pos loading
          rw [same,plain]
          exact ⟨fun gone present => absurd present gone,fun kept present => Bool.false_ne_true (kept present).2.symm⟩

theorem reset_excluded_sound_iff (sound : ChunkView.Sound v) (downloads : Bool) :
    (if downloads then v.reset.exclude.reset else v.reset.exclude).Sound ↔ (v.present = true → v.duringLoad = false) := by
  rw [excluded_sound_iff sound.reset]
  unfold ChunkView.reset
  cases loading : v.duringLoad with
  | true =>
      rw [if_pos rfl,loading]
      exact forall_congr' fun _ => ⟨And.right,fun off => absurd off.symm Bool.false_ne_true⟩
  | false =>
      rw [if_neg Bool.false_ne_true]
      exact iff_of_true (fun present => absurd present Bool.false_ne_true) fun _ => rfl

theorem excludeFile_fate (inside : k < t.numFiles) (s : PriorityControl t) :
    ∃ (s₁ : PriorityControl t) (f b : Nat), s.excludeFile e k = (if f ≤ b then s₁.exclude f b else s₁) ∧ ∀ c < t.numChunks, Fate t e k f b c s s₁ := by
  by_cases single : (t.file k).firstChunk = (t.file k).lastChunk
  · exact excludeFile_single inside s single
  · exact excludeFile_several inside s single

theorem excludeFile_represents (inside : k < t.numFiles) (sound : Represents s) :
    Represents (s.excludeFile e k) ↔ ∀ c < t.numChunks, InFile t k c → Leaves e k s c := by
  obtain ⟨s₁,f,b,result,fates⟩ := excludeFile_fate (e := e) inside s
  refine forall_congr' fun c => forall_congr' fun small => ?_
  have fate := fates c small
  have out (beyond : ¬ (f ≤ c ∧ c ≤ b)) : (s.excludeFile e k).view c = s₁.view c := by
    rw [result]
    split
    · rename_i some_
      apply exclude_out small
      rw [mem_range small,Nat.min_eq_left some_,Nat.max_eq_right some_]
      exact beyond
    · rfl
  have in_ (low : f ≤ c) (high : c ≤ b) :
      (s.excludeFile e k).view c = if s₁.downloading c then (s₁.view c).exclude.reset else (s₁.view c).exclude := by
    rw [result,if_pos (Nat.le_trans low high)]
    apply exclude_in small
    rw [mem_range small,Nat.min_eq_left (Nat.le_trans low high),Nat.max_eq_right (Nat.le_trans low high)]
    exact ⟨low,high⟩
  by_cases here : InFile t k c
  · rw [forall_prop_of_true here]
    by_cases skipped : Skipped t e k c
    · obtain ⟨⟨view,downloading⟩,low,high⟩ := fate.skipped skipped
      rw [in_ low high,view,downloading,excluded_sound_iff (sound c small)]
      exact ⟨fun kept => ⟨fun _ => kept,fun not => absurd skipped not,fun not => absurd skipped not⟩,fun leaves => leaves.skipped skipped⟩
    · by_cases needed : Needed t e k c
      · obtain ⟨given,beyond⟩ := fate.needed here skipped needed
        rw [out beyond,given.placed.sound_iff given.moves (sound c small).present]
        exact ⟨fun off => ⟨fun there => absurd there skipped,fun _ _ => off,fun _ not => absurd needed not⟩,fun leaves => leaves.needed skipped needed⟩
      · obtain ⟨view,low,high⟩ := fate.free here skipped needed
        rw [in_ low high,view,reset_excluded_sound_iff (sound c small)]
        exact ⟨fun kept => ⟨fun there => absurd there skipped,fun _ there => absurd there needed,fun _ _ => kept⟩,
          fun leaves => leaves.free skipped needed⟩
  · obtain ⟨same,beyond⟩ := fate.outside here
    rw [out beyond,same.1]
    exact iff_of_true (sound c small) fun there => absurd there here

-- A chunk when a file gets excluded: it is left alone, excluded, or given the priority
-- that other files need.
theorem excludeFile_chunk (inside : k < t.numFiles) (s : PriorityControl t) (small : c < t.numChunks) :
    Same c s (s.excludeFile e k) ∨ ((s.excludeFile e k).view c).todo = false ∧ (s.excludeFile e k).downloading c = false ∨
      InFile t k c ∧ Given c s (s.excludeFile e k) := by
  obtain ⟨s₁,f,b,result,fates⟩ := excludeFile_fate (e := e) inside s
  have fate := fates c small
  have among (low : f ≤ c) (high : c ≤ b) : c ∈ ChunkManager.rangeOf t.numChunks f b := by
    rw [mem_range small,Nat.min_eq_left (Nat.le_trans low high),Nat.max_eq_right (Nat.le_trans low high)]
    exact ⟨low,high⟩
  have out (beyond : ¬ (f ≤ c ∧ c ≤ b)) : Same c s₁ (s.excludeFile e k) := by
    rw [result]
    split
    · rename_i some_
      have apart : ¬ (min f b ≤ c ∧ c ≤ max f b) := by rwa [Nat.min_eq_left some_,Nat.max_eq_right some_]
      refine ⟨exclude_out small s₁ fun member => apart ((mem_range small).mp member),?_⟩
      exact (excluded_out small _ apart).2
    · exact ⟨rfl,rfl⟩
  have in_ (low : f ≤ c) (high : c ≤ b) : ((s.excludeFile e k).view c).todo = false ∧ (s.excludeFile e k).downloading c = false := by
    rw [result,if_pos (Nat.le_trans low high),exclude_in small s₁ (among low high)]
    refine ⟨?_,exclude_downloading small s₁ (among low high)⟩
    split
    · unfold ChunkView.reset
      split <;> rfl
    · rfl
  by_cases here : InFile t k c
  · by_cases skipped : Skipped t e k c
    · obtain ⟨_,low,high⟩ := fate.skipped skipped
      exact .inr (.inl (in_ low high))
    · by_cases needed : Needed t e k c
      · obtain ⟨given,beyond⟩ := fate.needed here skipped needed
        exact .inr (.inr ⟨here,given.between ⟨rfl,rfl⟩ (out beyond)⟩)
      · obtain ⟨_,low,high⟩ := fate.free here skipped needed
        exact .inr (.inl (in_ low high))
  · obtain ⟨same,beyond⟩ := fate.outside here
    exact .inl (same.trans (out beyond))

-- Chunks are given another priority than EXCLUDED; those of R are.
structure Works (R : Nat → Prop) (s s' : PriorityControl t) : Prop where
  moves : ∀ c < t.numChunks, ChunkView.Moves (s.view c) (s'.view c)
  placed : ∀ c < t.numChunks, R c ∨ (s.view c).Placed → (s'.view c).Placed
  sound : ∀ c < t.numChunks, ¬ R c → (s.view c).Sound → (s'.view c).Sound

theorem Works.refl (s : PriorityControl t) : Works (fun _ => False) s s :=
  ⟨fun _ _ => .refl _,fun _ _ either => either.resolve_left id,fun _ _ _ sound => sound⟩

theorem Works.trans (first : Works R s s') (second : Works R' s' s'') : Works (fun c => R c ∨ R' c) s s'' := by
  refine ⟨fun c inside => (first.moves c inside).trans (second.moves c inside),fun c inside either => ?_,fun c inside out sound => ?_⟩
  · apply second.placed c inside
    rcases either with (here | there) | already
    · exact .inr (first.placed c inside (.inl here))
    · exact .inl there
    · exact .inr (first.placed c inside (.inr already))
  · apply second.sound c inside fun there => out (.inr there)
    exact first.sound c inside (fun here => out (.inl here)) sound

theorem Places.works (places : Places R s s') : Works R s s' := by
  refine ⟨places.moves,places.placed,fun c inside out sound => ?_⟩
  rw [(places.others c inside out).1]
  exact sound

theorem Works.represents_iff (works : Works R s s') (sound : Represents s) :
    Represents s' ↔ ∀ c < t.numChunks, R c → s.bits.get c = false := by
  have each {c : Nat} (inside : c < t.numChunks) (here : R c) : (s'.view c).Sound ↔ s.bits.get c = false :=
    (works.placed c inside (.inl here)).sound_iff (works.moves c inside) (sound c inside).present
  constructor
  · intro after c inside here
    exact (each inside here).mp (after c inside)
  · intro free c inside
    by_cases here : R c
    · exact (each inside here).mpr (free c inside here)
    · exact works.sound c inside here (sound c inside)

theorem foldl_works {f : PriorityControl t → Nat → PriorityControl t} {R : Nat → Nat → Prop} (each : ∀ s k, Works (R k) s (f s k)) (l : List Nat)
    (s : PriorityControl t) : Works (fun c => ∃ k ∈ l, R k c) s (l.foldl f s) := by
  induction l generalizing s with
  | nil =>
      obtain ⟨moves,placed,sound⟩ := Works.refl s
      exact ⟨moves,fun c inside either => placed c inside (either.imp_left fun ⟨_,member,_⟩ => absurd member List.not_mem_nil),
        fun c inside _ => sound c inside id⟩
  | cons k rest ih =>
      obtain ⟨moves,placed,sound⟩ := (each s k).trans (ih (f s k))
      have same (c : Nat) : (R k c ∨ ∃ j ∈ rest, R j c) ↔ ∃ j ∈ k :: rest, R j c := by simp
      exact ⟨moves,fun c inside either => placed c inside (either.imp_left (same c).mpr),fun c inside out => sound c inside fun here => out ((same c).mp here)⟩

-- Of a torrent of several files; what is done for one of one file is prioritise.
def setupPriorities (e : FilePriorities) (s : PriorityControl t) : PriorityControl t :=
  ((List.range t.numFiles).filter e.isMultimedia).foldl (doPreviewPriority e) s

def recreateFile (s : PriorityControl t) (k : Nat) : PriorityControl t := (upTo (t.file k).firstChunk (t.file k).lastChunk).foldl resetChunk s

-- The end of recreateMissingFiles and dndMissingFiles. An index file that cannot be
-- saved is an Error, and chunksLeft is not called.
def saveIndexFile (writes : Bool) (s : PriorityControl t) : PriorityControl t :=
  if writes then {s with manager := {s.manager.saveIndexFile with recalcChunksLeft := true}.chunksLeft.2} else s

-- All chunks of a torrent of one file are reset.
def recreateMissingFiles (multi : Bool) (missing : Nat → Bool) (writes : Bool) (s : PriorityControl t) : PriorityControl t :=
  let reset :=
    if multi then ((List.range t.numFiles).filter missing).foldl recreateFile s
    else (List.range t.numChunks).foldl resetChunk s
  reset.saveIndexFile writes

-- The chunks that are reset, one after the other.
def recreated (t : Files) (multi : Bool) (missing : Nat → Bool) : List Nat :=
  if multi then ((List.range t.numFiles).filter missing).flatMap fun k => upTo (t.file k).firstChunk (t.file k).lastChunk
  else List.range t.numChunks

theorem recreateMissingFiles_eq (multi : Bool) (missing : Nat → Bool) (writes : Bool) (s : PriorityControl t) :
    s.recreateMissingFiles multi missing writes = ((recreated t multi missing).foldl resetChunk s).saveIndexFile writes := by
  unfold recreateMissingFiles recreated
  cases multi with
  | false => rfl
  | true =>
      dsimp only
      rw [if_pos rfl,if_pos rfl,List.foldl_flatMap]
      rfl

theorem mem_recreated (small : c < t.numChunks) :
    c ∈ recreated t multi missing ↔ (multi = true → ∃ k < t.numFiles, missing k = true ∧ InFile t k c) := by
  unfold recreated
  split
  · rename_i several
    rw [forall_prop_of_true several,List.mem_flatMap]
    constructor
    · rintro ⟨k,member,here⟩
      obtain ⟨few,gone⟩ := List.mem_filter.mp member
      exact ⟨k,List.mem_range.mp few,gone,mem_upTo.mp here⟩
    · rintro ⟨k,few,gone,here⟩
      exact ⟨k,List.mem_filter.mpr ⟨List.mem_range.mpr few,gone⟩,mem_upTo.mpr here⟩
  · rename_i one
    exact iff_of_true (List.mem_range.mpr small) fun several => absurd several one

theorem saveIndexFile_same (writes : Bool) (s : PriorityControl t) (c : Nat) : Same c s (s.saveIndexFile writes) := by
  cases writes with
  | false => exact ⟨rfl,rfl⟩
  | true => exact ⟨ChunkManager.saved_view {s.manager with recalcChunksLeft := true} true c,rfl⟩

theorem recreateMissingFiles_cleared (multi : Bool) (missing : Nat → Bool) (writes : Bool) (s : PriorityControl t) :
    Cleared (· ∈ recreated t multi missing) s (s.recreateMissingFiles multi missing writes) := by
  have cleared := foldl_cleared s (recreated t multi missing)
  rw [recreateMissingFiles_eq]
  have same := saveIndexFile_same writes ((recreated t multi missing).foldl resetChunk s)
  refine ⟨fun c inside here => (same c).1.trans (cleared.reset c inside here),fun c inside other => (same c).1.trans (cleared.others c inside other),?_⟩
  exact (funext fun c => (same c).2).trans cleared.downloading

theorem foldl_files_represents {f : PriorityControl t → Nat → PriorityControl t} {R : Nat → Nat → Prop} (each : ∀ s k, Works (R k) s (f s k))
    (p : Nat → Bool) (sound : Represents s) : Represents (((List.range t.numFiles).filter p).foldl f s) ↔
      ∀ c < t.numChunks, ∀ k < t.numFiles, p k = true → R k c → s.bits.get c = false := by
  refine ((foldl_works each _ s).represents_iff sound).trans (forall_congr' fun c => forall_congr' fun small => ?_)
  constructor
  · intro free k few some_ here
    exact free ⟨k,List.mem_filter.mpr ⟨List.mem_range.mpr few,some_⟩,here⟩
  · rintro free ⟨k,member,here⟩
    obtain ⟨few,some_⟩ := List.mem_filter.mp member
    exact free k (List.mem_range.mp few) some_ here

def markDownloaded (s : PriorityControl t) (j : Nat) : PriorityControl t :=
  {s with
    manager := {s.manager with
      chunk := s.manager.modify j ({· with status := .onDisk})
      bitset := s.manager.bitset.set j true
      todo := s.manager.todo.set j false}}

def allFilesExistOfChunk (existing : Nat → Bool) (s : PriorityControl t) (idx : Nat) : Bool × PriorityControl t :=
  ((s.filesAt idx).1.all existing,(s.filesAt idx).2)

def markEnd (existing : Nat → Bool) (s : PriorityControl t) (idx : Nat) : PriorityControl t :=
  let exist := s.allFilesExistOfChunk existing idx
  if exist.1 then exist.2.markDownloaded idx else exist.2

def markFile (existing : Nat → Bool) (s : PriorityControl t) (k : Nat) : PriorityControl t :=
  let f := t.file k
  if !existing k then s
  else
    let s := (List.range' (f.firstChunk + 1) (f.lastChunk - (f.firstChunk + 1))).foldl markDownloaded s
    (s.markEnd existing f.firstChunk).markEnd existing f.lastChunk

-- hasFiles is what the cache of a torrent of one file says. An index file that cannot
-- be saved is left as it is.
def markExistingFilesAsDownloaded (multi : Bool) (existing : Nat → Bool) (hasFiles writes : Bool) (s : PriorityControl t) : PriorityControl t :=
  let marked :=
    if multi then (List.range t.numFiles).foldl (markFile existing) s
    else if hasFiles then (List.range t.numChunks).foldl markDownloaded s
    else s
  let m := {marked.manager with recalcChunksLeft := true}
  {marked with manager := (if writes then m.saveIndexFile else m).chunksLeft.2}

-- What the chunk manager keeps of its chunks changes only in being on disk.
def Marks (s s' : PriorityControl t) : Prop := ∀ c < t.numChunks, (s.view c).Sound → (s'.view c).Sound

theorem Marks.refl (s : PriorityControl t) : Marks s s := fun _ _ sound => sound

theorem Marks.trans (first : Marks s s') (second : Marks s' s'') : Marks s s'' := fun c inside sound => second c inside (first c inside sound)

theorem markDownloaded_marks (s : PriorityControl t) (j : Nat) : Marks s (s.markDownloaded j) := by
  intro c inside sound
  have view : (s.markDownloaded j).view c = if c = j then (s.view c).mark else s.view c := by
    unfold markDownloaded view ChunkManager.view ChunkView.mark
    by_cases here : c = j
    · subst here
      simp [ChunkManager.modify_same,ChunkManager.set_same,inside]
    · simp [ChunkManager.modify_other,ChunkManager.set_other,here]
  rw [view]
  split
  · exact sound.mark
  · exact sound

theorem markEnd_marks (existing : Nat → Bool) (s : PriorityControl t) (idx : Nat) : Marks s (s.markEnd existing idx) := by
  have same : Marks s (s.allFilesExistOfChunk existing idx).2 := Marks.refl s
  unfold markEnd
  dsimp only
  split
  · exact same.trans (markDownloaded_marks _ idx)
  · exact same

theorem markFile_marks (existing : Nat → Bool) (s : PriorityControl t) (k : Nat) : Marks s (s.markFile existing k) := by
  unfold markFile
  dsimp only
  split
  · exact .refl s
  · have middle := foldl_related Marks.refl Marks.trans (List.range' ((t.file k).firstChunk + 1) ((t.file k).lastChunk - ((t.file k).firstChunk + 1)))
      (fun s j _ => markDownloaded_marks s j) s
    exact (middle.trans (markEnd_marks existing _ _)).trans (markEnd_marks existing _ _)

theorem markExistingFilesAsDownloaded_marks (multi : Bool) (existing : Nat → Bool) (hasFiles writes : Bool) (s : PriorityControl t) :
    Marks s (s.markExistingFilesAsDownloaded multi existing hasFiles writes) := by
  have marked : Marks s (if multi then (List.range t.numFiles).foldl (markFile existing) s
      else if hasFiles then (List.range t.numChunks).foldl markDownloaded s else s) := by
    split
    · exact foldl_related Marks.refl Marks.trans _ (fun s k _ => markFile_marks existing s k) s
    · split
      · exact foldl_related Marks.refl Marks.trans _ (fun s j _ => markDownloaded_marks s j) s
      · exact .refl s
  intro c inside sound
  have view : (s.markExistingFilesAsDownloaded multi existing hasFiles writes).view c = _ := ChunkManager.saved_view _ writes c
  rw [view]
  exact marked c inside sound

end PriorityControl

namespace Prioritised
open PriorityControl

variable {t : Files} {x : Prioritised t}

-- download is the Downloader's, which begins a ChunkDownload or is done with it, and
-- setLoading stands around the calls of createFiles and loadPriorityInfo. dndMissingFiles
-- is resetChunk and downloadPriorityChanged for its files, and saveIndexFile.
inductive Call (t : Files) where
  | setupPriorities
  | downloadPriorityChanged (k : Fin t.numFiles) (newpriority oldpriority : Priority)
  | prioritise (lower upper : Nat) (priority : Priority)
  | exclude (lower upper : Nat)
  | includeRange (lower upper : Nat)
  | resetChunk (i : Nat)
  | chunkDownloaded (writes : Bool) (i : Nat)
  | dataChecked (okChunks : BitSet) (lower upper : Nat) (writes : Bool)
  | markExistingFilesAsDownloaded (multi : Bool) (existing : Nat → Bool) (hasFiles writes : Bool)
  | recreateMissingFiles (multi : Bool) (missing : Nat → Bool) (writes : Bool)
  | saveIndexFile (writes : Bool)
  | setLoading (on : Bool)
  | endLoadIndexFile (opens : Bool) (hdr : Nat) (fails : Option Nat)
  | download (i : Nat) (on : Bool)

def withManager (x : Prioritised t) (m : ChunkManager t.numChunks) : Prioritised t := {x with control := {x.control with manager := m}}

def step (x : Prioritised t) : Call t → Prioritised t
  | .setupPriorities => {x with control := x.control.setupPriorities x.files}
  | .downloadPriorityChanged k newpriority oldpriority =>
      let files := withPriority x.files ⟨k,newpriority⟩
      ⟨files,x.control.downloadPriorityChanged files k newpriority oldpriority⟩
  | .prioritise lower upper priority => {x with control := x.control.prioritise lower upper priority}
  | .exclude lower upper => {x with control := x.control.exclude lower upper}
  | .includeRange lower upper => {x with control := x.control.includeRange lower upper}
  | .resetChunk i => {x with control := x.control.resetChunk i}
  | .chunkDownloaded writes i => x.withManager (x.control.manager.chunkDownloaded writes i).2
  | .dataChecked okChunks lower upper writes => x.withManager (x.control.manager.dataChecked okChunks lower upper writes)
  | .markExistingFilesAsDownloaded multi existing hasFiles writes =>
      {x with control := x.control.markExistingFilesAsDownloaded multi existing hasFiles writes}
  | .recreateMissingFiles multi missing writes => {x with control := x.control.recreateMissingFiles multi missing writes}
  | .saveIndexFile writes => {x with control := x.control.saveIndexFile writes}
  | .setLoading on => x.withManager {x.control.manager with duringLoad := on}
  | .endLoadIndexFile opens hdr fails => x.withManager (x.control.manager.endLoadIndexFile opens hdr fails)
  | .download i on => {x with control := {x.control with downloading := Function.update x.control.downloading i on}}

-- What a call has to meet.
def Keeps (x : Prioritised t) : Call t → Prop
  | .setupPriorities => ∀ c < t.numChunks, ∀ k < t.numFiles, x.files.isMultimedia k = true → c ∈ taken t x.files k → x.control.bits.get c = false
  | .downloadPriorityChanged k newpriority oldpriority =>
      let files := withPriority x.files ⟨k,newpriority⟩
      if newpriority = .excluded then ∀ c < t.numChunks, InFile t k c → Leaves files k x.control c
      else ∀ c < t.numChunks, InFile t k c ∨ c ∈ shown t files k → ¬ (Reincludes oldpriority ∧ InFile t k c) → x.control.bits.get c = false
  | .prioritise lower upper priority => ∀ c ∈ ChunkManager.rangeOf t.numChunks lower upper, x.control.bits.get c = (priority == .excluded)
  | .exclude lower upper => ∀ c ∈ ChunkManager.rangeOf t.numChunks lower upper, x.control.manager.bitset.get c = true →
      x.control.downloading c = true ∧ x.control.manager.duringLoad = false
  | .includeRange lower upper => ∀ c ∈ ChunkManager.rangeOf t.numChunks lower upper, x.control.manager.onlySeedChunks.get c = false
  | .chunkDownloaded writes i => writes = true ∨ t.numChunks ≤ i ∨ (x.control.manager.chunk i).isExcluded = true ∨ (x.control.manager.chunk i).status = .onDisk
  | _ => True

theorem represents_range {s s' : PriorityControl t} {Q : Nat → Prop} {l : List Nat} (sound : Represents s) (inside : ∀ c ∈ l, c < t.numChunks)
    (in_ : ∀ c ∈ l, (s'.view c).Sound ↔ Q c) (out : ∀ c < t.numChunks, c ∉ l → s'.view c = s.view c) : Represents s' ↔ ∀ c ∈ l, Q c := by
  constructor
  · intro after c here
    exact (in_ c here).mp (after c (inside c here))
  · intro each c small
    by_cases here : c ∈ l
    · exact (in_ c here).mpr (each c here)
    · rw [out c small here]
      exact sound c small

theorem range_inside (c : Nat) (among : c ∈ ChunkManager.rangeOf n lower upper) : c < n := (ChunkManager.mem_rangeOf.mp among).2.2

theorem step_represents (sound : Represents x.control) (c : Call t) : Represents (x.step c).control ↔ x.Keeps c := by
  cases c with
  | downloadPriorityChanged k newpriority oldpriority =>
      unfold step Keeps
      dsimp only
      split
      · rename_i excluded
        subst excluded
        exact excludeFile_represents k.isLt sound
      · exact downloadPriorityChanged_represents sound k ‹_›
  | prioritise lower upper priority =>
      refine represents_range sound range_inside (fun i among => ?_) fun i small out => ?_
      · show ((x.control.prioritise lower upper priority).view i).Sound ↔ _
        rw [prioritise_view (range_inside i among),if_pos among]
        exact (sound i (range_inside i among)).prioritise_iff priority
      · show (x.control.prioritise lower upper priority).view i = _
        rw [prioritise_view small,if_neg out]
  | exclude lower upper =>
      refine represents_range sound range_inside (fun i among => ?_) fun i small out => exclude_out small x.control out
      show ((x.control.exclude lower upper).view i).Sound ↔ _
      rw [exclude_in (range_inside i among) x.control among]
      exact excluded_sound_iff (sound i (range_inside i among)) _
  | includeRange lower upper =>
      refine represents_range sound range_inside (fun i among => ?_) fun i small out => ?_
      · show ((x.control.includeRange lower upper).view i).Sound ↔ _
        rw [includeRange_view (range_inside i among),if_pos among]
        exact (sound i (range_inside i among)).reinclude_iff
      · show (x.control.includeRange lower upper).view i = _
        rw [includeRange_view small,if_neg out]
  | resetChunk i =>
      refine iff_of_true (fun c small => ?_) trivial
      show ((x.control.resetChunk i).view c).Sound
      rw [resetChunk_view small]
      split
      · exact (sound c small).reset
      · exact sound c small
  | chunkDownloaded writes i => exact ChunkManager.chunkDownloaded_sound_iff x.control.manager writes i sound
  | dataChecked okChunks lower upper writes =>
      exact iff_of_true (fun c small => ChunkManager.dataChecked_sound small x.control.manager okChunks lower upper writes (sound c small)) trivial
  | markExistingFilesAsDownloaded multi existing hasFiles writes =>
      exact iff_of_true (fun c small => markExistingFilesAsDownloaded_marks multi existing hasFiles writes x.control c small (sound c small)) trivial
  | setupPriorities => exact foldl_files_represents (fun s k => (doPreviewPriority_places s k).works) x.files.isMultimedia sound
  | recreateMissingFiles multi missing writes =>
      refine iff_of_true (fun c small => ?_) trivial
      have cleared := recreateMissingFiles_cleared multi missing writes x.control
      show ((x.control.recreateMissingFiles multi missing writes).view c).Sound
      by_cases here : c ∈ recreated t multi missing
      · rw [cleared.reset c small here]
        exact (sound c small).reset
      · rw [cleared.others c small here]
        exact sound c small
  | saveIndexFile writes =>
      refine iff_of_true (fun c small => ?_) trivial
      show ((x.control.saveIndexFile writes).view c).Sound
      rw [(saveIndexFile_same writes x.control c).1]
      exact sound c small
  | setLoading on => exact iff_of_true (fun c small => ChunkManager.setLoading_sound x.control.manager on (sound c small)) trivial
  | endLoadIndexFile opens hdr fails =>
      exact iff_of_true (fun c small => ChunkManager.endLoadIndexFile_sound small x.control.manager opens hdr fails (sound c small)) trivial
  | download i on => exact iff_of_true sound trivial

-- A chunk is in todo if and only if it is wanted and not on disk, and a torrent is
-- completed if and only if something is on disk and nothing is wanted any more.
def Exact (x : Prioritised t) : Prop :=
  Represents x.control ∧ (x.control.manager.completed = true ↔ (∃ i < t.numChunks, x.control.manager.bitset.get i = true) ∧
    ∀ i < t.numChunks, x.control.manager.IsWanted i → x.control.manager.bitset.get i = true)

theorem new_represents (begins : x.control.manager = .new t.numChunks index) : Represents x.control := by
  intro c small
  have todo : ((ChunkSet.new t.numChunks).setAll true).get c = true := BitSet.setAll_get _ true small
  unfold view ChunkManager.view
  rw [begins]
  refine ⟨?_,ChunkSet.new_get _ c,ChunkSet.new_get _ c,ChunkSet.new_get _ c⟩
  show ((ChunkSet.new t.numChunks).setAll true).get c = (!(ChunkSet.new t.numChunks).get c && !(ChunkSet.new t.numChunks).get c && !(ChunkSet.new t.numChunks).get c)
  rw [todo,ChunkSet.new_get]
  rfl

-- All through a run of a new chunk manager its four sets, the priorities and the
-- statuses of the chunks say the same, and completed is right, if and only if each call
-- meets what it has to.
theorem representation_iff (begins : x.control.manager = .new t.numChunks index) (calls : List (Call t)) :
    (∀ done, done <+: calls → Exact (done.foldl step x)) ↔ Along step Keeps x calls := by
  apply Along.states (I := fun x : Prioritised t => Represents x.control)
  · exact new_represents begins
  · intro x sound
    exact ⟨sound,ChunkManager.completed_iff x.control.manager sound⟩
  · intro x c sound after
    exact (step_represents sound c).mp after.1
  · intro x c sound keeps
    exact (step_represents sound c).mpr keeps

-- The first of three files is excluded, and the last chunk downloaded.
theorem excluded_then_downloaded :
    Exact ([.downloadPriorityChanged ⟨0,by decide⟩ .excluded .normal,.chunkDownloaded true 1].foldl step threeNormal) := by
  refine (representation_iff (x := threeNormal) rfl
    [.downloadPriorityChanged ⟨0,by decide⟩ .excluded .normal,.chunkDownloaded true 1]).mpr ⟨?_,.inl rfl,trivial⟩ _ (List.prefix_refl _)
  intro c small _
  have absent : threeNormal.control.manager.bitset.get c ≠ true := by
    show (ChunkSet.new _).get c ≠ true
    rw [ChunkSet.new_get]
    exact Bool.false_ne_true
  exact ⟨fun _ present => absurd present absent,fun _ _ => ChunkSet.new_get _ c,fun _ _ present => absurd present absent⟩

end Prioritised

end KtorrentStream.Diskio
