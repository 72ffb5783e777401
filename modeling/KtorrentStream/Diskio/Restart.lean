import KtorrentStream.Diskio.ChunkStates
import KtorrentStream.Util.File
import KtorrentStream.Util.Word
set_option autoImplicit true

namespace KtorrentStream.Diskio
open KtorrentStream.Lib KtorrentStream.Util KtorrentStream.Torrent KtorrentStream.Torrent.Files

namespace PriorityControl

variable {t : Files} {e : FilePriorities}

-- What relates a state to those that the single operations lead to relates it to those
-- that a change of a priority leads to.
structure Closed (R : PriorityControl t → PriorityControl t → Prop) : Prop where
  refl : ∀ s, R s s
  trans : ∀ {a b c}, R a b → R b c → R a c
  resetChunk : ∀ s i, R s (s.resetChunk i)
  cancelDownload : ∀ s i, R s (s.cancelDownload i)
  prioritise : ∀ s lower upper priority, R s (s.prioritise lower upper priority)
  excludeChunks : ∀ s lower upper, R s {s with manager := s.manager.exclude lower upper}
  includeRange : ∀ s lower upper, R s (s.includeRange lower upper)
  filesAt : ∀ s idx, R s (s.filesAt idx).2

namespace Closed

variable {R : PriorityControl t → PriorityControl t → Prop} (closed : Closed R) (s : PriorityControl t)
include closed

theorem excluded (lower upper : Nat) : R s (s.excluded lower upper) :=
  foldl_related closed.refl closed.trans _ (fun s i _ => closed.cancelDownload s i) s

theorem exclude (lower upper : Nat) : R s (s.exclude lower upper) := closed.trans (closed.excludeChunks s lower upper) (closed.excluded _ _ _)

theorem setBorderChunkPriority (idx : Nat) (prio : Priority) : R s (s.setBorderChunkPriority e idx prio) := by
  unfold PriorityControl.setBorderChunkPriority
  have set (p : Priority) := closed.trans (closed.filesAt s idx) (closed.prioritise _ idx idx p)
  dsimp only
  split
  · exact closed.trans (set _) (closed.excluded _ idx idx)
  · exact set _

theorem resetBorderChunk (idx k : Nat) : R s (s.resetBorderChunk e idx k).2 := by
  unfold PriorityControl.resetBorderChunk
  dsimp only
  split
  · exact closed.trans (closed.filesAt s idx) (closed.setBorderChunkPriority _ idx _)
  · exact closed.trans (closed.filesAt s idx) (closed.resetChunk _ idx)

theorem doPreviewPriority (k : Nat) : R s (s.doPreviewPriority e k) := by
  unfold PriorityControl.doPreviewPriority
  dsimp only
  split
  · exact closed.refl s
  · split
    · exact closed.prioritise s _ _ _
    · split
      · exact closed.refl s
      · split
        · exact closed.trans (closed.prioritise s _ _ _) (closed.prioritise _ _ _ _)
        · exact closed.prioritise s _ _ _

theorem prioritiseFile (k : Nat) (p : Priority) : R s (s.prioritiseFile e k p) := by
  have end_ (s : PriorityControl t) (c goes : Nat) : R s (if isBorderChunk t c then (goes,s.setBorderChunkPriority e c p) else (c,s)).2 := by
    split
    · exact closed.setBorderChunkPriority s c p
    · exact closed.refl s
  have signal (s : PriorityControl t) (lower upper : Nat) : R s (if p = .onlySeed then s.excluded lower upper else s) := by
    split
    · exact closed.excluded s lower upper
    · exact closed.refl s
  unfold PriorityControl.prioritiseFile
  dsimp only
  split
  · refine closed.trans ?_ (signal _ _ _)
    split
    · exact closed.setBorderChunkPriority s _ p
    · exact closed.prioritise s _ _ p
  · have front := end_ s (t.file k).firstChunk ((t.file k).firstChunk + 1)
    generalize (if isBorderChunk t (t.file k).firstChunk then _ else _ : Nat × PriorityControl t) = f at front ⊢
    have back := closed.trans front (end_ f.2 (t.file k).lastChunk ((t.file k).lastChunk - 1))
    generalize (if isBorderChunk t (t.file k).lastChunk then _ else _ : Nat × PriorityControl t) = b at back ⊢
    split
    · exact closed.trans back (closed.trans (closed.prioritise _ _ _ p) (signal _ _ _))
    · exact back

theorem excludeFile (k : Nat) : R s (s.excludeFile e k) := by
  have end_ (s : PriorityControl t) (c goes : Nat) :
      R s (if !isBorderChunk t c then (c,s.resetChunk c) else (if (s.resetBorderChunk e c k).1 then c else goes,(s.resetBorderChunk e c k).2)).2 := by
    split
    · exact closed.resetChunk s c
    · exact closed.resetBorderChunk s c k
  unfold PriorityControl.excludeFile
  dsimp only
  split
  · split
    · exact closed.trans (closed.resetChunk s _) (closed.exclude _ _ _)
    · split
      · exact closed.trans (closed.resetBorderChunk s _ k) (closed.exclude _ _ _)
      · exact closed.resetBorderChunk s _ k
  · have middle := foldl_related closed.refl closed.trans (List.range' ((t.file k).firstChunk + 1) ((t.file k).lastChunk - ((t.file k).firstChunk + 1)))
      (fun s i _ => closed.resetChunk s i) s
    have front := closed.trans middle (end_ _ (t.file k).firstChunk ((t.file k).firstChunk + 1))
    generalize (if (!isBorderChunk t (t.file k).firstChunk) = true then _ else _ : Nat × PriorityControl t) = f at front ⊢
    have back : R s (if (t.file k).lastChunk ≠ f.1 then
        (if !isBorderChunk t (t.file k).lastChunk then ((t.file k).lastChunk,f.2.resetChunk (t.file k).lastChunk)
          else (if (f.2.resetBorderChunk e (t.file k).lastChunk k).1 then (t.file k).lastChunk else (t.file k).lastChunk - 1,
            (f.2.resetBorderChunk e (t.file k).lastChunk k).2)) else ((t.file k).lastChunk,f.2)).2 := by
      split
      · exact closed.trans front (end_ f.2 _ _)
      · exact front
    generalize (if (t.file k).lastChunk ≠ f.1 then _ else _ : Nat × PriorityControl t) = b at back ⊢
    split
    · exact closed.trans back (closed.exclude _ _ _)
    · exact back

theorem downloadPriorityChanged (k : Nat) (newpriority oldpriority : Priority) : R s (s.downloadPriorityChanged e k newpriority oldpriority) := by
  have previewed (s : PriorityControl t) : R s (if e.isMultimedia k then s.doPreviewPriority e k else s) := by
    split
    · exact closed.doPreviewPriority s k
    · exact closed.refl s
  have status (s : PriorityControl t) (download : Bool) : R s (s.downloadStatusChanged e k download) := by
    unfold PriorityControl.downloadStatusChanged
    split
    · exact closed.trans (closed.includeRange s _ _) (previewed _)
    · exact closed.excludeFile s k
  unfold PriorityControl.downloadPriorityChanged
  split
  · exact status s false
  · dsimp only
    refine closed.trans (closed.trans ?_ (closed.prioritiseFile _ k newpriority)) (previewed _)
    have first : R s (if oldpriority = .excluded then s.downloadStatusChanged e k true else s) := by
      split
      · exact status s true
      · exact closed.refl s
    split
    · exact closed.trans first (closed.includeRange _ _ _)
    · exact first

end Closed

-- The index file stays as it is, no chunk is marked as being on disk, and no download
-- begins.
structure Drops (s s' : PriorityControl t) : Prop where
  downloading : ∀ c, s'.downloading c = true → s.downloading c = true
  index : s'.manager.index = s.manager.index
  bits : ∀ c, s.manager.bitset.get c = false → s'.manager.bitset.get c = false

theorem drops_closed : Closed (Drops (t := t)) := by
  have reset (s : PriorityControl t) (i : Nat) : Drops s (s.resetChunk i) := by
    refine ⟨fun _ downloads => downloads,?_,fun c off => ?_⟩
    · show (s.manager.resetChunk i).index = _
      unfold ChunkManager.resetChunk
      split <;> rfl
    · show (s.manager.resetChunk i).bitset.get c = false
      rw [ChunkManager.resetChunk_bitset]
      split
      · rfl
      · exact off
  refine ⟨fun s => ⟨fun _ downloads => downloads,rfl,fun _ off => off⟩,?_,reset,?_,?_,?_,?_,fun s idx => ⟨fun _ downloads => downloads,rfl,fun _ off => off⟩⟩
  · intro a b c first second
    exact ⟨fun c downloads => first.downloading c (second.downloading c downloads),second.index.trans first.index,fun c off => second.bits c (first.bits c off)⟩
  · intro s i
    unfold cancelDownload
    split
    · refine ⟨fun c downloads => ?_,(reset s i).index,(reset s i).bits⟩
      dsimp only at downloads
      split at downloads
      · cases downloads
      · exact downloads
    · exact ⟨fun _ downloads => downloads,rfl,fun _ off => off⟩
  · intro s lower upper priority
    refine ⟨fun _ downloads => downloads,foldl_fixed (f := ChunkManager.index) (fun m i => ?_) _ s.manager,fun c off => ?_⟩
    · unfold ChunkManager.prioritiseChunk
      cases priority <;> rfl
    · show (s.manager.prioritise lower upper priority).bitset.get c = false
      rw [ChunkManager.prioritise_bitset]
      exact off
  · intro s lower upper
    refine ⟨fun _ downloads => downloads,@foldl_fixed _ _ ChunkManager.excludeChunk _ ChunkManager.index (fun _ _ => rfl) _ s.manager,fun c off => ?_⟩
    show (s.manager.exclude lower upper).bitset.get c = false
    rw [ChunkManager.exclude_bitset]
    split
    · rfl
    · exact off
  · intro s lower upper
    refine ⟨fun _ downloads => downloads,foldl_fixed (f := ChunkManager.index) (fun m i => ?_) _ s.manager,fun c off => ?_⟩
    · unfold ChunkManager.includeChunk
      dsimp only
      split <;> rfl
    · show (s.manager.includeRange lower upper).bitset.get c = false
      rw [ChunkManager.includeRange_bitset]
      exact off

theorem setupPriorities_drops (s : PriorityControl t) : Drops s (s.setupPriorities e) :=
  foldl_related drops_closed.refl drops_closed.trans _ (fun s k _ => drops_closed.doPreviewPriority s k) s

theorem recreated_drops (s : PriorityControl t) (l : List Nat) : Drops s (l.foldl resetChunk s) :=
  foldl_related drops_closed.refl drops_closed.trans l (fun s i _ => drops_closed.resetChunk s i) s

end PriorityControl

namespace ChunkManager

variable {n : Nat}

theorem mem_saveIndexFile (m : ChunkManager n) : c ∈ m.saveIndexFile.index ↔ c < n ∧ (m.chunk c).status = .onDisk := by
  show c ∈ (List.range n).filter _ ↔ _
  rw [List.mem_filter,List.mem_range]
  refine and_congr_right fun _ => ?_
  cases (m.chunk c).status <;> simp

theorem chunksLeft_index (m : ChunkManager n) : m.chunksLeft.2.index = m.index := by
  unfold chunksLeft
  split <;> rfl

theorem loadEntries_bit (entries : List Nat) (m : ChunkManager n) : (entries.foldl loadEntry m).bitset.get c = true ↔
    m.bitset.get c = true ∨ c < n ∧ c ∈ entries := by
  by_cases inside : c < n
  · have view := foldl_local (f := fun m : ChunkManager n => m.view c) (g := ChunkView.mark) (fun _ => rfl) (loadEntry_view inside) entries m
    have bit := congrArg ChunkView.present view
    refine (Bool.eq_iff_iff.mp bit).trans ?_
    split
    · rename_i among
      exact iff_of_true rfl (.inr ⟨inside,among⟩)
    · rename_i out
      exact ⟨.inl,fun either => either.resolve_right fun both => out both.2⟩
  · have beyond : n ≤ c := Nat.le_of_not_lt inside
    rw [ChunkSet.get_of_ge _ beyond,ChunkSet.get_of_ge _ beyond]
    exact ⟨.inl,fun either => either.resolve_right fun both => inside both.1⟩

theorem loadEntries_index (entries : List Nat) (m : ChunkManager n) : (entries.foldl loadEntry m).index = m.index := by
  refine foldl_fixed (f := index) (fun m i => ?_) entries m
  unfold loadEntry
  split <;> rfl

theorem endLoadIndexFile_index (m : ChunkManager n) (opens : Bool) (hdr : Nat) (fails : Option Nat) :
    (m.endLoadIndexFile opens hdr fails).index = m.index := by
  unfold endLoadIndexFile
  split
  · rfl
  · dsimp only
    cases fails with
    | some k => exact loadEntries_index _ m
    | none => exact loadEntries_index _ m

-- What is on disk after a load was so before, or is read.
theorem endLoadIndexFile_bit (m : ChunkManager n) (opens : Bool) (hdr : Nat) (fails : Option Nat)
    (present : (m.endLoadIndexFile opens hdr fails).bitset.get c = true) : m.bitset.get c = true ∨ c ∈ m.index ∨ c = hdr := by
  have among (entries : List Nat) (part : entries ⊆ if m.index.isEmpty then [] else m.index ++ [hdr])
      (bit : (entries.foldl loadEntry m).bitset.get c = true) : m.bitset.get c = true ∨ c ∈ m.index ∨ c = hdr := by
    rcases (loadEntries_bit entries m).mp bit with old | ⟨_,member⟩
    · exact .inl old
    · have read := part member
      split at read
      · cases read
      · rw [List.mem_append,List.mem_singleton] at read
        exact .inr read
  unfold endLoadIndexFile at present
  split at present
  · exact .inl present
  · dsimp only at present
    cases fails with
    | some k => exact among _ (List.take_subset _ _) present
    | none => exact among _ (List.Subset.refl _) present

end ChunkManager

theorem PriorityControl.markedFiles_index {t : Files} (multi : Bool) (existing : Nat → Bool) (hasFiles : Bool) (s : PriorityControl t) :
    (if multi then (List.range t.numFiles).foldl (markFile existing) s
      else if hasFiles then (List.range t.numChunks).foldl markDownloaded s else s).manager.index = s.manager.index := by
  have marks (l : List Nat) (s : PriorityControl t) : (l.foldl markDownloaded s).manager.index = s.manager.index :=
    @foldl_fixed _ _ markDownloaded _ (fun s : PriorityControl t => s.manager.index) (fun _ _ => rfl) l s
  have end_ (s : PriorityControl t) (idx : Nat) : (s.markEnd existing idx).manager.index = s.manager.index := by
    unfold markEnd
    dsimp only
    split <;> rfl
  split
  · refine foldl_fixed (f := fun s : PriorityControl t => s.manager.index) (fun s k => ?_) _ s
    unfold markFile
    dsimp only
    split
    · rfl
    · rw [end_,end_,marks]
  · split
    · exact marks _ s
    · rfl

namespace Prioritised
open PriorityControl

variable {t : Files} {x : Prioritised t}

-- The calls that write the index file anew.
def Saves : Call t → Prop
  | .dataChecked _ _ _ writes => writes = true
  | .markExistingFilesAsDownloaded _ _ _ writes => writes = true
  | .recreateMissingFiles _ _ writes => writes = true
  | .saveIndexFile writes => writes = true
  | _ => False

-- The calls that put a chunk into it.
def Records (c : Nat) (x : Prioritised t) (call : Call t) : Prop :=
  match call with
  | .chunkDownloaded writes i => writes = true ∧ i = c ∧ (x.control.manager.chunk c).isExcluded = false
  | .dataChecked _ _ _ writes => writes = true ∧ ((x.step call).control.manager.chunk c).status = .onDisk
  | .markExistingFilesAsDownloaded _ _ _ writes => writes = true ∧ ((x.step call).control.manager.chunk c).status = .onDisk
  | .recreateMissingFiles _ _ writes => writes = true ∧ ((x.step call).control.manager.chunk c).status = .onDisk
  | .saveIndexFile writes => writes = true ∧ ((x.step call).control.manager.chunk c).status = .onDisk
  | _ => False

-- A new chunk manager over the same index file, with the priorities that it is given
-- while it loads.
def restart (x : Prioritised t) (files : FilePriorities) (loads : List (Fin t.numFiles × Priority × Priority)) (hdr : Nat) : Prioritised t :=
  let fresh : Prioritised t := ⟨files,.new t.numChunks x.control.manager.index,⟨0,0⟩,start_posValid t,fun _ => false⟩
  let loading := (fresh.step .setupPriorities).step (.setLoading true)
  let loaded := loads.foldl (fun x l => x.step (.downloadPriorityChanged l.1 l.2.1 l.2.2)) loading
  loaded.step (.endLoadIndexFile true hdr none)

theorem restart_bit (x : Prioritised t) (files : FilePriorities) (loads : List (Fin t.numFiles × Priority × Priority)) (hdr : Nat) :
    (x.restart files loads hdr).control.manager.bitset.get c = true ↔
      c < t.numChunks ∧ (c ∈ x.control.manager.index ∨ x.control.manager.index ≠ [] ∧ c = hdr) := by
  have each (x : Prioritised t) (l : Fin t.numFiles × Priority × Priority) :
      Drops x.control (x.step (.downloadPriorityChanged l.1 l.2.1 l.2.2)).control := drops_closed.downloadPriorityChanged x.control _ _ _
  unfold restart
  dsimp only
  generalize hfresh : (⟨files,.new t.numChunks x.control.manager.index,⟨0,0⟩,start_posValid t,fun _ => false⟩ : Prioritised t) = fresh
  have index : fresh.control.manager.index = x.control.manager.index := by
    rw [← hfresh]
    rfl
  have off (c : Nat) : fresh.control.manager.bitset.get c = false := by
    rw [← hfresh]
    exact ChunkSet.new_get _ c
  have loading : Drops fresh.control ((fresh.step .setupPriorities).step (.setLoading true)).control := by
    obtain ⟨downloading,index,bits⟩ := setupPriorities_drops (e := fresh.files) fresh.control
    exact ⟨downloading,index,bits⟩
  generalize (fresh.step .setupPriorities).step (.setLoading true) = y at loading ⊢
  have loaded := drops_closed.trans loading (foldl_related (R := fun x x' : Prioritised t => Drops x.control x'.control)
    (fun x => drops_closed.refl x.control) drops_closed.trans loads (fun x l _ => each x l) y)
  generalize loads.foldl _ y = z at loaded ⊢
  have still := loaded.bits c (off c)
  have entries : z.control.manager.index = x.control.manager.index := loaded.index.trans index
  show (z.control.manager.endLoadIndexFile true hdr none).bitset.get c = true ↔ _
  unfold ChunkManager.endLoadIndexFile
  rw [if_neg (by decide),entries]
  show ((if x.control.manager.index.isEmpty then [] else x.control.manager.index ++ [hdr]).foldl ChunkManager.loadEntry z.control.manager).bitset.get c = true ↔ _
  rw [ChunkManager.loadEntries_bit,still]
  cases x.control.manager.index with
  | nil => simp
  | cons first rest => simp [or_assoc]

-- The calls that neither mark a chunk nor touch the index file, and begin no download.
def Quiet : Call t → Prop
  | .chunkDownloaded .. => False
  | .dataChecked .. => False
  | .markExistingFilesAsDownloaded .. => False
  | .recreateMissingFiles .. => False
  | .saveIndexFile .. => False
  | .endLoadIndexFile .. => False
  | .download .. => False
  | _ => True

theorem step_drops (x : Prioritised t) (call : Call t) (quiet : Quiet call) : Drops x.control (x.step call).control := by
  cases call with
  | setupPriorities => exact setupPriorities_drops x.control
  | downloadPriorityChanged k newpriority oldpriority => exact drops_closed.downloadPriorityChanged x.control _ _ _
  | prioritise lower upper priority => exact drops_closed.prioritise x.control lower upper priority
  | exclude lower upper => exact drops_closed.exclude x.control lower upper
  | includeRange lower upper => exact drops_closed.includeRange x.control lower upper
  | resetChunk i => exact drops_closed.resetChunk x.control i
  | setLoading on => exact ⟨fun _ downloads => downloads,rfl,fun _ off => off⟩
  | chunkDownloaded | dataChecked | markExistingFilesAsDownloaded | recreateMissingFiles | saveIndexFile | endLoadIndexFile | download =>
      exact quiet.elim

theorem mem_saved (m : ChunkManager n) (small : c < n) : c ∈ m.saveIndexFile.chunksLeft.2.index ↔ (m.saveIndexFile.chunksLeft.2.chunk c).status = .onDisk := by
  have same : (m.saveIndexFile.chunksLeft.2.chunk c).status = (m.chunk c).status := congrArg ChunkView.status (m.saved_view true c)
  rw [ChunkManager.chunksLeft_index,ChunkManager.mem_saveIndexFile,same]
  exact and_iff_right small

theorem saveIndexFile_index (small : c < t.numChunks) (writes : Bool) (s : PriorityControl t) : c ∈ (s.saveIndexFile writes).manager.index ↔
    writes = true ∧ ((s.saveIndexFile writes).manager.chunk c).status = .onDisk ∨ ¬ writes = true ∧ c ∈ s.manager.index := by
  cases writes with
  | false => simp [saveIndexFile]
  | true =>
      refine (mem_saved {s.manager with recalcChunksLeft := true} small).trans ?_
      simp only [true_and,not_true_eq_false,false_and,or_false]
      rfl

theorem step_index (x : Prioritised t) (call : Call t) (small : c < t.numChunks) : c ∈ (x.step call).control.manager.index ↔
    Records c x call ∨ ¬ Saves call ∧ c ∈ x.control.manager.index := by
  have kept (same : (x.step call).control.manager.index = x.control.manager.index) (silent : ¬ Records c x call) (quiet : ¬ Saves call) :
      c ∈ (x.step call).control.manager.index ↔ Records c x call ∨ ¬ Saves call ∧ c ∈ x.control.manager.index := by
    rw [same]
    exact ⟨fun member => .inr ⟨quiet,member⟩,fun either => (either.resolve_left silent).2⟩
  cases call with
  | chunkDownloaded writes i =>
      unfold step withManager ChunkManager.chunkDownloaded Records Saves
      dsimp only
      by_cases beyond : i ≥ t.numChunks
      · rw [if_pos beyond]
        exact ⟨fun member => .inr ⟨id,member⟩,fun either => either.elim (fun ⟨_,same,_⟩ => absurd beyond (by omega)) And.right⟩
      · rw [if_neg beyond]
        cases excluded : (x.control.manager.chunk i).isExcluded with
        | true =>
            refine ⟨fun member => .inr ⟨id,member⟩,fun either => either.elim (fun ⟨_,same,not⟩ => ?_) And.right⟩
            rw [← same,excluded] at not
            cases not
        | false =>
            cases writes with
            | false => simp
            | true =>
                show c ∈ x.control.manager.index ++ [i] ↔ _
                rw [List.mem_append,List.mem_singleton]
                constructor
                · rintro (old | rfl)
                  · exact .inr ⟨id,old⟩
                  · exact .inl ⟨rfl,rfl,excluded⟩
                · rintro (⟨_,same,_⟩ | ⟨_,old⟩)
                  · exact .inr same.symm
                  · exact .inl old
  | dataChecked okChunks lower upper writes =>
      cases writes with
      | true =>
          show _ ↔ (_ ∧ _) ∨ ¬ true = true ∧ _
          refine (mem_saved _ small).trans ?_
          simp only [true_and,not_true_eq_false,false_and,or_false]
          rfl
      | false =>
          refine kept ?_ (fun records => Bool.false_ne_true records.1) Bool.false_ne_true
          refine (ChunkManager.chunksLeft_index _).trans ?_
          refine foldl_fixed (f := ChunkManager.index) (fun m i => ?_) _ x.control.manager
          unfold ChunkManager.chunkChecked
          split
          · rfl
          · split <;> rfl
  | markExistingFilesAsDownloaded multi existing hasFiles writes =>
      cases writes with
      | true =>
          show _ ↔ (_ ∧ _) ∨ ¬ true = true ∧ _
          refine (mem_saved _ small).trans ?_
          simp only [true_and,not_true_eq_false,false_and,or_false]
          rfl
      | false =>
          refine kept ?_ (fun records => Bool.false_ne_true records.1) Bool.false_ne_true
          exact (ChunkManager.chunksLeft_index _).trans (markedFiles_index multi existing hasFiles x.control)
  | recreateMissingFiles multi missing writes =>
      show c ∈ (x.control.recreateMissingFiles multi missing writes).manager.index ↔
        (_ ∧ ((x.control.recreateMissingFiles multi missing writes).manager.chunk c).status = .onDisk) ∨ ¬ writes = true ∧ _
      rw [recreateMissingFiles_eq,saveIndexFile_index small]
      refine or_congr_right (and_congr_right fun _ => ?_)
      rw [(recreated_drops x.control _).index]
  | saveIndexFile writes => exact saveIndexFile_index small writes x.control
  | endLoadIndexFile opens hdr fails =>
      exact kept (ChunkManager.endLoadIndexFile_index _ opens hdr fails) id id
  | download i on => exact kept rfl id id
  | setupPriorities | downloadPriorityChanged | prioritise | exclude | includeRange | resetChunk | setLoading =>
      exact kept (step_drops x _ (by exact trivial)).index id id

-- What is written to the index file succeeds, and a load leaves nothing in the header
-- that it has not read.
def Written (x : Prioritised t) : Call t → Prop
  | .chunkDownloaded writes _ => writes = true
  | .dataChecked _ _ _ writes => writes = true
  | .markExistingFilesAsDownloaded _ _ _ writes => writes = true
  | .recreateMissingFiles _ _ writes => writes = true
  | .saveIndexFile writes => writes = true
  | .endLoadIndexFile _ hdr _ => hdr ∈ x.control.manager.index ∨ t.numChunks ≤ hdr
  | _ => True

-- What is on disk is in the index file.
def Indexed (x : Prioritised t) : Prop := ∀ c < t.numChunks, x.control.manager.bitset.get c = true → c ∈ x.control.manager.index

theorem step_indexed (sound : Represents x.control) (indexed : Indexed x) (call : Call t) (keeps : x.Keeps call) (written : x.Written call) :
    Indexed (x.step call) := by
  intro c small present
  have after := (step_represents sound call).mpr keeps c small
  have status : ((x.step call).control.manager.chunk c).status = .onDisk := beq_iff_eq.mp (after.present.symm.trans present)
  rw [step_index x call small]
  have old (bits : x.control.manager.bitset.get c = false → (x.step call).control.manager.bitset.get c = false) (quiet : ¬ Saves call) :
      Records c x call ∨ ¬ Saves call ∧ c ∈ x.control.manager.index := by
    refine .inr ⟨quiet,indexed c small ?_⟩
    by_contra off
    rw [bits (Bool.eq_false_iff.mpr off)] at present
    cases present
  cases call with
  | chunkDownloaded writes i =>
      have bit : (x.control.manager.chunkDownloaded writes i).2.bitset.get c = true := present
      rw [ChunkManager.chunkDownloaded_bitset] at bit
      split at bit
      · rename_i here
        exact .inl ⟨written,here.1,by rw [← here.1]; exact here.2.2⟩
      · exact .inr ⟨id,indexed c small bit⟩
  | dataChecked okChunks lower upper writes => exact .inl ⟨written,status⟩
  | markExistingFilesAsDownloaded multi existing hasFiles writes => exact .inl ⟨written,status⟩
  | recreateMissingFiles multi missing writes => exact .inl ⟨written,status⟩
  | saveIndexFile writes => exact .inl ⟨written,status⟩
  | endLoadIndexFile opens hdr fails =>
      refine .inr ⟨id,?_⟩
      rcases ChunkManager.endLoadIndexFile_bit x.control.manager opens hdr fails present with old | member | same
      · exact indexed c small old
      · exact member
      · rcases written with member | beyond
        · rw [same]
          exact member
        · omega
  | download i on => exact old id id
  | setupPriorities | downloadPriorityChanged | prioritise | exclude | includeRange | resetChunk | setLoading =>
      exact old ((step_drops x _ (by exact trivial)).bits c) id

-- After a run a restart reports the chunks that the last writing of the index file has
-- found on disk, those downloaded since, and the one that the header names which is not
-- read at the end of the file. Where the file has been written all chunks on disk are
-- among them; those that have been reset or excluded since the last writing are too.
theorem restart_reports (begins : x.control.manager = .new t.numChunks []) (calls : List (Call t)) (files : FilePriorities)
    (loads : List (Fin t.numFiles × Priority × Priority)) (hdr c : Nat) (small : c < t.numChunks) :
    (((calls.foldl step x).restart files loads hdr).control.manager.bitset.get c = true ↔
      (∃ before call after, calls = before ++ call :: after ∧ Records c (before.foldl step x) call ∧ ∀ later ∈ after, ¬ Saves later) ∨
        (calls.foldl step x).control.manager.index ≠ [] ∧ c = hdr) ∧
      (Along step (fun x call => x.Keeps call ∧ x.Written call) x calls → (calls.foldl step x).control.manager.bitset.get c = true →
        ((calls.foldl step x).restart files loads hdr).control.manager.bitset.get c = true) := by
  constructor
  · rw [restart_bit,and_iff_right small]
    refine or_congr_left ?_
    rw [foldl_since (P := fun x : Prioritised t => c ∈ x.control.manager.index) (fun x call => step_index x call small) calls x]
    refine or_iff_right fun both => ?_
    rw [begins] at both
    exact absurd both.1 List.not_mem_nil
  · intro along present
    rw [restart_bit]
    have indexed : Represents (calls.foldl step x).control ∧ Indexed (calls.foldl step x) := by
      apply Along.kept (I := fun x : Prioritised t => Represents x.control ∧ Indexed x) ?_ ?_ along
      · refine ⟨new_represents begins,fun c small present => ?_⟩
        rw [begins] at present
        rw [ChunkManager.new,ChunkSet.new_get] at present
        cases present
      · intro x call now meets
        exact ⟨(step_represents now.1 call).mpr meets.1,step_indexed now.1 now.2 call meets.1 meets.2⟩
    exact ⟨small,.inl (indexed.2 c small present)⟩

-- A chunk that has been reset is on disk again after the restart.
theorem reset_restarted : (([.chunkDownloaded true 1,.resetChunk 1].foldl step threeNormal).restart threeNormal.files [] 9).control.manager.bitset.get 1 = true := by
  refine (restart_reports (x := threeNormal) rfl [.chunkDownloaded true 1,.resetChunk 1] threeNormal.files [] 9 1 (by decide)).1.mpr
    (.inl ⟨[],.chunkDownloaded true 1,[.resetChunk 1],rfl,⟨rfl,rfl,rfl⟩,fun later member => ?_⟩)
  rw [List.mem_singleton.mp member]
  exact id

end Prioritised

-- The priorities of the files, which are kept apart from the index file.

-- An array of Uint32 as it lies in a file.
def uint32s : List UInt8 → List Nat
  | a :: b :: c :: d :: rest => (a.toNat + 256 * b.toNat + 65536 * c.toNat + 16777216 * d.toNat) :: uint32s rest
  | _ => []

theorem uint32s_bytes (l : List Nat) (small : ∀ n ∈ l, n < 4294967296) : uint32s (l.flatMap uint32Bytes) = l := by
  induction l with
  | nil => rfl
  | cons n rest ih =>
      have word := uint32Of_bytes (small n List.mem_cons_self)
      have split : uint32s (uint32Bytes n ++ rest.flatMap uint32Bytes) =
          ((UInt8.ofNat n).toNat + 256 * (UInt8.ofNat (n / 256)).toNat + 65536 * (UInt8.ofNat (n / 65536)).toNat +
            16777216 * (UInt8.ofNat (n / 16777216)).toNat) :: uint32s (rest.flatMap uint32Bytes) := rfl
      rw [List.flatMap_cons,split,ih fun m member => small m (List.mem_cons_of_mem _ member)]
      exact congrArg (· :: rest) (Option.some.inj word)

theorem words_length (l : List Nat) : (l.flatMap uint32Bytes).length = 4 * l.length := by
  induction l with
  | nil => rfl
  | cons n rest ih =>
      rw [List.flatMap_cons,List.length_append,ih,uint32Bytes_length,List.length_cons]
      omega

theorem readUint32_short (f : File) (short : f.length < 4) : f.readUint32 = none := by
  rcases f with _ | ⟨a,_ | ⟨b,_ | ⟨c,_ | ⟨d,rest⟩⟩⟩⟩
  · rfl
  · rfl
  · rfl
  · rfl
  · simp only [List.length_cons] at short
    omega

theorem readUint32_taken (small : n < 4294967296) (rest : List UInt8) (cut : Nat) :
    File.readUint32 ((uint32Bytes n ++ rest).take (4 + cut)) = some (n,rest.take cut) := by
  have front : (uint32Bytes n ++ rest).take (4 + cut) = uint32Bytes n ++ rest.take cut :=
    @List.take_length_add_append _ (uint32Bytes n) _ cut
  rw [front,File.readUint32_bytes small]

theorem readUint32_torn (f : File) (early : cut < 4) : File.readUint32 (f.take cut) = none := by
  apply readUint32_short
  have most := List.length_take_le cut f
  omega

-- The number of entries, and the entries.
def counted (l : List Nat) : File := uint32Bytes l.length ++ l.flatMap uint32Bytes

theorem counted_length (l : List Nat) : (counted l).length = 4 + 4 * l.length := by
  rw [counted,List.length_append,words_length,uint32Bytes_length]

-- The contents of file_info and file_priority; a file that is not there can not be opened.
structure SavedPriorities where
  fileInfo : Option File
  filePriority : Option File

section
variable (t : Files) (e : FilePriorities)

def dnd : List Nat := (List.range t.numFiles).filter fun i => e.priority i == .excluded

def saveFileInfo : File := counted (dnd t e)

-- The files in l whose priority is not the default one, each with its priority.
def pairsOf (l : List Nat) : List Nat := l.flatMap fun i => if e.priority i = .normal then [] else [i,(e.priority i).value]

-- The list is called dnd here too.
def prioritisedFiles : List Nat := pairsOf e (List.range t.numFiles)

def savePriorityInfo : SavedPriorities := ⟨some (saveFileInfo t e),some (counted (prioritisedFiles t e))⟩

theorem pairsOf_length (l : List Nat) : (pairsOf e l).length ≤ 2 * l.length := by
  induction l with
  | nil => exact Nat.le_refl _
  | cons i rest ih =>
      unfold pairsOf at ih ⊢
      rw [List.flatMap_cons,List.length_append,List.length_cons]
      split
      · rw [List.length_nil]
        omega
      · rw [List.length_cons,List.length_singleton]
        omega

theorem prioritisedFiles_length (t : Files) (e : FilePriorities) : (prioritisedFiles t e).length ≤ 2 * t.numFiles := by
  have most := pairsOf_length e (List.range t.numFiles)
  rw [List.length_range] at most
  exact most

theorem priority_small (p : Priority) : p.value < 4294967296 := by
  cases p <;> decide

theorem pairsOf_small (l : List Nat) (inside : ∀ i ∈ l, i < 4294967296) : ∀ n ∈ pairsOf e l, n < 4294967296 := by
  intro n member
  obtain ⟨i,here,pair⟩ := List.mem_flatMap.mp member
  split at pair
  · cases pair
  · rcases List.mem_cons.mp pair with rfl | last
    · exact inside _ here
    · rw [List.mem_singleton.mp last]
      exact priority_small _

theorem mem_dnd : k ∈ dnd t e ↔ k < t.numFiles ∧ e.priority k = .excluded := by
  unfold dnd
  rw [List.mem_filter,List.mem_range,beq_iff_eq]

theorem dnd_length : (dnd t e).length ≤ t.numFiles := by
  have most := List.length_filter_le (fun i => e.priority i == .excluded) (List.range t.numFiles)
  rwa [List.length_range] at most

end

-- A torrent with its files and the two files that its priorities are kept in.
structure PrioritySession (t : Files) where
  x : Prioritised t
  disk : SavedPriorities

namespace PrioritySession

variable {t : Files}

def priority (s : PrioritySession t) : Nat → Priority := s.x.files.priority

-- ChunkManager::downloadPriorityChanged, which saves the priorities but for a load. The
-- files can be opened and written.
def tell (s : PrioritySession t) (c : Change t) : PrioritySession t :=
  let x := s.x.step (.downloadPriorityChanged c.file c.priority (s.priority c.file))
  ⟨x,if s.x.control.manager.duringLoad then s.disk else savePriorityInfo t x.files⟩

-- emit_status_changed is set, as TorrentFile's constructor leaves it.
def setDoNotDownload (s : PrioritySession t) (k : Fin t.numFiles) (dnd : Bool) : PrioritySession t :=
  if s.priority k ≠ .excluded ∧ dnd = true then s.tell ⟨k,.excluded⟩
  else if s.priority k = .excluded ∧ dnd = false then s.tell ⟨k,.normal⟩
  else s

def setPriority (s : PrioritySession t) (k : Fin t.numFiles) (newpriority : Priority) : PrioritySession t :=
  if s.priority k = newpriority then s
  else
    let s := if s.priority k = .excluded then s.setDoNotDownload k false else s
    if newpriority = .excluded then s.setDoNotDownload k true else s.tell ⟨k,newpriority⟩

-- The loop of loadFileInfo. There is no file with an index that is too large.
def loadDnd (s : PrioritySession t) : Nat → File → PrioritySession t
  | 0,_ => s
  | num + 1,fptr =>
    match fptr.readUint32 with
    | none => s
    | some (tmp,fptr) => loadDnd (if inside : tmp < t.numFiles then s.setDoNotDownload ⟨tmp,inside⟩ true else s) num fptr

def loadFileInfo (s : PrioritySession t) : PrioritySession t :=
  match s.disk.fileInfo with
  | none => s
  | some fptr =>
    match fptr.readUint32 with
    | none => s
    | some (num,fptr) => s.loadDnd num fptr

-- The numbers are those of the enumeration, and older ones.
def setSaved (s : PrioritySession t) (k : Fin t.numFiles) (n : Nat) : PrioritySession t :=
  if n = 50 ∨ n = 3 then s.setPriority k .first
  else if n = 40 ∨ n = 2 then s
  else if n = 10 ∨ n = 0 then s.setPriority k .excluded
  else if n = 20 ∨ n = 4294967295 then s.setPriority k .onlySeed
  else s.setPriority k .last

-- Where the number of entries is odd the last priority is read from behind the array.
def loadPairs (beyond : Nat) (s : PrioritySession t) : List Nat → PrioritySession t × Bool
  | [] => (s,true)
  | [idx] => if inside : idx < t.numFiles then (s.setSaved ⟨idx,inside⟩ beyond,true) else (s,false)
  | idx :: n :: buf => if inside : idx < t.numFiles then loadPairs beyond (s.setSaved ⟨idx,inside⟩ n) buf else (s,false)

-- The size is a Uint32 for File::read, and is compared as a size_t.
def loadPriorityInfo (beyond : Nat) (s : PrioritySession t) : PrioritySession t :=
  match s.disk.filePriority with
  | none => s.loadFileInfo
  | some fptr =>
    match fptr.readUint32 with
    | none => s.loadFileInfo
    | some (num,fptr) =>
      if num > uint32 (2 * t.numFiles) then s.loadFileInfo
      else
        let buf := (fptr.read (uint32 (4 * num))).1
        if buf.length ≠ 4 * num then s.loadFileInfo
        else
          match s.loadPairs beyond (uint32s buf) with
          | (s,true) => s
          | (s,false) => s.loadFileInfo

-- What a single call does to the priorities.

@[simp] theorem tell_priority (s : PrioritySession t) (c : Change t) : (s.tell c).priority = Function.update s.priority c.file c.priority := rfl

theorem setDoNotDownload_priority (s : PrioritySession t) (k : Fin t.numFiles) :
    (s.setDoNotDownload k true).priority = Function.update s.priority k .excluded := by
  unfold setDoNotDownload
  by_cases already : s.priority k = .excluded
  · rw [if_neg fun both => both.1 already,if_neg fun both => (by cases both.2),← already,Function.update_eq_self]
  · rw [if_pos ⟨already,rfl⟩]
    rfl

theorem setPriority_priority (s : PrioritySession t) (k : Fin t.numFiles) (newpriority : Priority) :
    (s.setPriority k newpriority).priority = Function.update s.priority k newpriority := by
  unfold setPriority
  by_cases same : s.priority k = newpriority
  · rw [if_pos same,← same,Function.update_eq_self]
  · rw [if_neg same]
    dsimp only
    by_cases was : s.priority k = .excluded
    · have becomes : newpriority ≠ .excluded := fun now => same (was.trans now.symm)
      rw [if_pos was,if_neg becomes,tell_priority]
      unfold setDoNotDownload
      rw [if_neg fun both => both.1 was,if_pos ⟨was,rfl⟩,tell_priority,Function.update_idem]
    · rw [if_neg was]
      split
      · rename_i now
        rw [setDoNotDownload_priority,now]
      · rfl

-- A change by the user tells the chunk manager once or twice, or not at all.
theorem setDoNotDownload_tells (s : PrioritySession t) (k : Fin t.numFiles) (dnd : Bool) :
    ∃ changes : List (Change t), s.setDoNotDownload k dnd = changes.foldl tell s := by
  unfold setDoNotDownload
  split
  · exact ⟨[_],rfl⟩
  · split
    · exact ⟨[_],rfl⟩
    · exact ⟨[],rfl⟩

theorem setPriority_tells (s : PrioritySession t) (k : Fin t.numFiles) (newpriority : Priority) :
    ∃ changes : List (Change t), s.setPriority k newpriority = changes.foldl tell s := by
  have first : ∃ changes : List (Change t), (if s.priority k = .excluded then s.setDoNotDownload k false else s) = changes.foldl tell s := by
    split
    · exact setDoNotDownload_tells s k false
    · exact ⟨[],rfl⟩
  unfold setPriority
  split
  · exact ⟨[],rfl⟩
  · dsimp only
    obtain ⟨changes,is⟩ := first
    rw [is]
    split
    · obtain ⟨more,last⟩ := setDoNotDownload_tells (changes.foldl tell s) k true
      exact ⟨changes ++ more,by rw [last,List.foldl_append]⟩
    · exact ⟨changes ++ [⟨k,newpriority⟩],by rw [List.foldl_append]; rfl⟩

-- The loops of the two loads.

theorem set_first (f g : Nat → Priority) {i j : Nat} {later any : Prop} [Decidable later] [Decidable any] (either : any ↔ later ∨ j = i) :
    (if later then g j else Function.update f i (g i) j) = if any then g j else f j := by
  by_cases rest : later
  · rw [if_pos rest,if_pos (either.mpr (.inl rest))]
  · rw [if_neg rest]
    by_cases same : j = i
    · rw [if_pos (either.mpr (.inr same)),same,Function.update_self]
    · rw [if_neg fun one => (either.mp one).elim rest same,Function.update_of_ne same]

-- Of file_info as much is read as was written, one file after the other.
theorem loadDnd_taken (l : List Nat) (inside : ∀ i ∈ l, i < t.numFiles) (few : t.numFiles ≤ 4294967296) (cut : Nat) (s : PrioritySession t) :
    ∃ m, (4 * l.length ≤ cut → m = l.length) ∧
      ∀ j, (s.loadDnd l.length ((l.flatMap uint32Bytes).take cut)).priority j = if j ∈ l.take m then .excluded else s.priority j := by
  induction l generalizing cut s with
  | nil => exact ⟨0,fun _ => rfl,fun j => (if_neg List.not_mem_nil).symm⟩
  | cons i rest ih =>
      have here := inside i List.mem_cons_self
      rcases Nat.lt_or_ge cut 4 with early | enough
      · refine ⟨0,fun whole => ?_,fun j => ?_⟩
        · rw [List.length_cons] at whole
          omega
        · rw [List.length_cons,loadDnd,readUint32_torn _ early]
          exact (if_neg List.not_mem_nil).symm
      · obtain ⟨cut,rfl⟩ := Nat.exists_eq_add_of_le enough
        obtain ⟨m,whole,reads⟩ := ih (fun j member => inside j (List.mem_cons_of_mem _ member)) cut (s.setDoNotDownload ⟨i,here⟩ true)
        refine ⟨m + 1,fun long => ?_,fun j => ?_⟩
        · rw [List.length_cons] at long ⊢
          rw [whole (by omega)]
        · rw [List.length_cons,List.flatMap_cons,loadDnd,readUint32_taken (Nat.lt_of_lt_of_le here few)]
          dsimp only
          rw [dif_pos here,reads,setDoNotDownload_priority,List.take_succ_cons]
          exact set_first s.priority (fun _ => .excluded) (List.mem_cons.trans or_comm)

theorem loadFileInfo_taken (e : FilePriorities) (few : t.numFiles < 4294967296) (cut : Nat) (s : PrioritySession t)
    (disk : s.disk.fileInfo = some ((saveFileInfo t e).take cut)) :
    ∃ m, ((saveFileInfo t e).length ≤ cut → m = (dnd t e).length) ∧
      ∀ j, s.loadFileInfo.priority j = if j ∈ (dnd t e).take m then .excluded else s.priority j := by
  have most := dnd_length t e
  unfold loadFileInfo
  rw [disk]
  dsimp only
  unfold saveFileInfo
  rw [counted_length]
  rcases Nat.lt_or_ge cut 4 with early | enough
  · refine ⟨0,fun whole => by omega,fun j => ?_⟩
    rw [readUint32_torn _ early]
    exact (if_neg List.not_mem_nil).symm
  · obtain ⟨cut,rfl⟩ := Nat.exists_eq_add_of_le enough
    obtain ⟨m,whole,reads⟩ := loadDnd_taken (dnd t e) (fun i member => ((mem_dnd t e).mp member).1) (Nat.le_of_lt few) cut s
    refine ⟨m,fun long => whole (by omega),fun j => ?_⟩
    rw [counted,readUint32_taken (Nat.lt_of_le_of_lt most few)]
    exact reads j

-- What a restart makes of a priority: none is PREVIEW_PRIORITY.
def kept : Priority → Priority
  | .preview => .last
  | p => p

theorem setSaved_priority (s : PrioritySession t) (k : Fin t.numFiles) (p : Priority) (other : p ≠ .normal) :
    (s.setSaved k p.value).priority = Function.update s.priority k (kept p) := by
  cases p with
  | normal => exact absurd rfl other
  | excluded | onlySeed | last | first | preview => exact setPriority_priority s k _

theorem loadPairs_saved (beyond : Nat) (e : FilePriorities) (l : List Nat) (inside : ∀ i ∈ l, i < t.numFiles) (s : PrioritySession t) :
    ∃ s', s.loadPairs beyond (pairsOf e l) = (s',true) ∧
      ∀ j, s'.priority j = if j ∈ l ∧ e.priority j ≠ .normal then kept (e.priority j) else s.priority j := by
  induction l generalizing s with
  | nil => exact ⟨s,rfl,fun j => (if_neg fun both => List.not_mem_nil both.1).symm⟩
  | cons i rest ih =>
      have later := fun j member => inside j (List.mem_cons_of_mem i member)
      have here := inside i List.mem_cons_self
      unfold pairsOf at ih ⊢
      rw [List.flatMap_cons]
      by_cases normal : e.priority i = .normal
      · obtain ⟨s',reads,all⟩ := ih later s
        rw [if_pos normal,List.nil_append]
        refine ⟨s',reads,fun j => (all j).trans (if_congr ⟨fun both => ⟨List.mem_cons_of_mem _ both.1,both.2⟩,fun both => ⟨?_,both.2⟩⟩ rfl rfl)⟩
        rcases List.mem_cons.mp both.1 with rfl | member
        · exact absurd normal both.2
        · exact member
      · obtain ⟨s',reads,all⟩ := ih later (s.setSaved ⟨i,here⟩ (e.priority i).value)
        rw [if_neg normal]
        refine ⟨s',?_,fun j => ?_⟩
        · rw [List.cons_append,List.singleton_append,loadPairs,dif_pos here]
          exact reads
        · have either : j ∈ i :: rest ∧ e.priority j ≠ .normal ↔ (j ∈ rest ∧ e.priority j ≠ .normal) ∨ j = i := by
            constructor
            · intro both
              rcases List.mem_cons.mp both.1 with same | tail
              · exact .inr same
              · exact .inl ⟨tail,both.2⟩
            · rintro (both | rfl)
              · exact ⟨List.mem_cons_of_mem _ both.1,both.2⟩
              · exact ⟨List.mem_cons_self,normal⟩
          rw [all,setSaved_priority _ _ _ normal]
          exact set_first s.priority (fun k => kept (e.priority k)) either

-- A torrent that is loaded again, with all its files normal.
variable {e : FilePriorities} {beyond : Nat} {s : PrioritySession t}

theorem loadPriorityInfo_saved (few : t.numFiles < 536870912) (normal : ∀ k, s.priority k = .normal)
    (disk : s.disk.filePriority = some (counted (prioritisedFiles t e))) (k : Nat) (inside : k < t.numFiles) :
    (s.loadPriorityInfo beyond).priority k = kept (e.priority k) := by
  have most := prioritisedFiles_length t e
  have small : (prioritisedFiles t e).length < 4294967296 := by omega
  have range : ∀ i ∈ List.range t.numFiles, i < t.numFiles := fun i member => List.mem_range.mp member
  obtain ⟨s',reads,all⟩ := loadPairs_saved beyond e (List.range t.numFiles) range s
  have read : ((counted (prioritisedFiles t e)).readUint32) = some ((prioritisedFiles t e).length,(prioritisedFiles t e).flatMap uint32Bytes) :=
    File.readUint32_bytes small _
  have twice : uint32 (2 * t.numFiles) = 2 * t.numFiles := uint32_of_lt (by omega)
  have size : uint32 (4 * (prioritisedFiles t e).length) = ((prioritisedFiles t e).flatMap uint32Bytes).length := by
    rw [words_length]
    exact uint32_of_lt (by omega)
  have whole : (File.read ((prioritisedFiles t e).flatMap uint32Bytes) (uint32 (4 * (prioritisedFiles t e).length))).1 =
      (prioritisedFiles t e).flatMap uint32Bytes := by
    rw [size]
    exact List.take_length
  have words : uint32s ((prioritisedFiles t e).flatMap uint32Bytes) = pairsOf e (List.range t.numFiles) :=
    uint32s_bytes _ (pairsOf_small e _ fun i member => by have := range i member; omega)
  unfold loadPriorityInfo
  rw [disk]
  dsimp only
  rw [read]
  dsimp only
  rw [twice,if_neg (Nat.not_lt.mpr most),whole,if_neg (not_not_intro (words_length _)),words,reads]
  dsimp only
  rw [all]
  by_cases usual : e.priority k = .normal
  · rw [if_neg fun both => both.2 usual,normal,usual]
    rfl
  · rw [if_pos ⟨List.mem_range.mpr inside,usual⟩]

-- A file_priority that was not written to its end is not used.
theorem loadPriorityInfo_torn (few : t.numFiles < 536870912) (torn : cut < (counted (prioritisedFiles t e)).length)
    (disk : s.disk.filePriority = some ((counted (prioritisedFiles t e)).take cut)) : s.loadPriorityInfo beyond = s.loadFileInfo := by
  have most := prioritisedFiles_length t e
  have small : (prioritisedFiles t e).length < 4294967296 := by omega
  unfold loadPriorityInfo
  rw [disk]
  dsimp only
  rcases Nat.lt_or_ge cut 4 with early | enough
  · rw [readUint32_torn _ early]
  · obtain ⟨cut,rfl⟩ := Nat.exists_eq_add_of_le enough
    rw [counted_length] at torn
    rw [counted,readUint32_taken small]
    dsimp only
    have short : (File.read (((prioritisedFiles t e).flatMap uint32Bytes).take cut) (uint32 (4 * (prioritisedFiles t e).length))).1.length ≠
        4 * (prioritisedFiles t e).length := by
      have less : (((prioritisedFiles t e).flatMap uint32Bytes).take cut).length ≤ cut := List.length_take_le _ _
      have cuts := List.length_take_le' (uint32 (4 * (prioritisedFiles t e).length)) (((prioritisedFiles t e).flatMap uint32Bytes).take cut)
      exact Nat.ne_of_lt (Nat.lt_of_le_of_lt (cuts.trans less) (by omega))
    rw [if_pos short,ite_self]

theorem loadPriorityInfo_absent (disk : s.disk.filePriority = none) : s.loadPriorityInfo beyond = s.loadFileInfo := by
  unfold loadPriorityInfo
  rw [disk]

theorem loading_closed : PriorityControl.Closed (fun s s' : PriorityControl t => s'.manager.duringLoad = s.manager.duringLoad) where
  refl _ := rfl
  trans first second := second.trans first
  resetChunk s i := s.manager.resetChunk_loads i
  cancelDownload s i := by
    unfold PriorityControl.cancelDownload
    split
    · exact s.manager.resetChunk_loads i
    · rfl
  prioritise s lower upper priority := by
    refine foldl_fixed (f := ChunkManager.duringLoad) (fun m i => ?_) _ s.manager
    unfold ChunkManager.prioritiseChunk
    cases priority <;> rfl
  excludeChunks s lower upper := @foldl_fixed _ _ ChunkManager.excludeChunk _ ChunkManager.duringLoad (fun _ _ => rfl) _ s.manager
  includeRange s lower upper := by
    refine foldl_fixed (f := ChunkManager.duringLoad) (fun m i => ?_) _ s.manager
    unfold ChunkManager.includeChunk
    dsimp only
    split <;> rfl
  filesAt _ _ := rfl

-- The priorities are those on disk; before the first change there is nothing on disk.
structure Current (s : PrioritySession t) : Prop where
  loaded : s.x.control.manager.duringLoad = false
  saved : s.disk = savePriorityInfo t s.x.files ∨ s.disk = ⟨none,none⟩ ∧ ∀ k, s.priority k = .normal

theorem Current.tell (current : Current s) (c : Change t) : Current (s.tell c) := by
  refine ⟨(loading_closed.downloadPriorityChanged s.x.control _ _ _).trans current.loaded,.inl ?_⟩
  show (if s.x.control.manager.duringLoad then s.disk else savePriorityInfo t (s.tell c).x.files) = _
  rw [current.loaded]
  rfl

def run (s : PrioritySession t) (changes : List (Change t)) : PrioritySession t := changes.foldl tell s

theorem Current.run (current : Current s) (changes : List (Change t)) : Current (s.run changes) := by
  induction changes generalizing s with
  | nil => exact current
  | cons c rest ih => exact ih (current.tell c)

-- The priorities that a new chunk manager finds.
def reload (beyond : Nat) (fresh : Prioritised t) (disk : SavedPriorities) : Nat → Priority :=
  (loadPriorityInfo beyond ⟨fresh.step (.setLoading true),disk⟩).priority

-- What is on disk when the saving stops in the middle; file_info is written first.
inductive Torn (t : Files) (e : FilePriorities) (before : SavedPriorities) : SavedPriorities → Prop
  | fileInfo (cut : Nat) : Torn t e before ⟨some ((saveFileInfo t e).take cut),before.filePriority⟩
  | filePriority (cut : Nat) : Torn t e before ⟨some (saveFileInfo t e),some ((counted (prioritisedFiles t e)).take cut)⟩

def exclusions (e : FilePriorities) (k : Nat) : Priority := if e.priority k = .excluded then .excluded else .normal

-- Either the old priorities or the new ones come back, or of the new ones those that
-- are EXCLUDED.
inductive Recovers (beyond : Nat) (fresh : Prioritised t) (old new : FilePriorities) (disk : SavedPriorities) : Prop
  | old (restored : ∀ k < t.numFiles, reload beyond fresh disk k = kept (old.priority k))
  | exclusions (restored : ∀ k < t.numFiles, reload beyond fresh disk k = exclusions new k)
  | new (restored : ∀ k < t.numFiles, reload beyond fresh disk k = kept (new.priority k))

variable {fresh : Prioritised t} {disk : SavedPriorities}

theorem reload_saved (few : t.numFiles < 536870912) (normal : ∀ k, fresh.files.priority k = .normal)
    (found : disk.filePriority = some (counted (prioritisedFiles t e))) (k : Nat) (inside : k < t.numFiles) :
    reload beyond fresh disk k = kept (e.priority k) :=
  loadPriorityInfo_saved (s := ⟨fresh.step (.setLoading true),disk⟩) few normal found k inside

theorem Current.reload (current : Current s) (few : t.numFiles < 536870912) (normal : ∀ k, fresh.files.priority k = .normal)
    (k : Nat) (inside : k < t.numFiles) : reload beyond fresh s.disk k = kept (s.priority k) := by
  rcases current.saved with saved | ⟨nothing,usual⟩
  · exact reload_saved few normal (congrArg SavedPriorities.filePriority saved) k inside
  · rw [nothing,usual]
    exact normal k

theorem reload_fileInfo (e : FilePriorities) (disk : SavedPriorities) (few : t.numFiles < 536870912) (normal : ∀ k, fresh.files.priority k = .normal) (cut : Nat)
    (info : disk.fileInfo = some ((saveFileInfo t e).take cut))
    (unused : loadPriorityInfo beyond ⟨fresh.step (.setLoading true),disk⟩ = loadFileInfo ⟨fresh.step (.setLoading true),disk⟩) :
    ∃ m, ((saveFileInfo t e).length ≤ cut → m = (dnd t e).length) ∧
      ∀ k, reload beyond fresh disk k = if k ∈ (dnd t e).take m then .excluded else .normal := by
  obtain ⟨m,whole,reads⟩ := loadFileInfo_taken e (by omega) cut ⟨fresh.step (.setLoading true),disk⟩ info
  refine ⟨m,whole,fun k => ?_⟩
  unfold PrioritySession.reload
  rw [unused,reads]
  exact if_congr Iff.rfl rfl (normal k)

theorem exclusions_dnd (e : FilePriorities) (k : Nat) (inside : k < t.numFiles) :
    (if k ∈ dnd t e then .excluded else .normal) = exclusions e k :=
  if_congr ((mem_dnd t e).trans (and_iff_right inside)) rfl rfl

theorem first_dnd (s : PrioritySession t) (c : Change t) (usual : ∀ k, s.priority k = .normal) : (dnd t (s.tell c).x.files).length ≤ 1 := by
  have once : (dnd t (s.tell c).x.files).Nodup := List.nodup_range.filter _
  have own : dnd t (s.tell c).x.files ⊆ [c.file.val] := by
    intro k member
    rw [List.mem_singleton]
    by_contra other
    have excluded : Function.update s.priority c.file c.priority k = .excluded := ((mem_dnd t _).mp member).2
    rw [Function.update_of_ne other,usual] at excluded
    cases excluded
  exact (List.subperm_of_subset once own).length_le

theorem Current.torn (current : Current s) (few : t.numFiles < 536870912) (normal : ∀ k, fresh.files.priority k = .normal) (beyond : Nat) (c : Change t)
    (torn : Torn t (s.tell c).x.files s.disk disk) : Recovers beyond fresh s.x.files (s.tell c).x.files disk := by
  cases torn with
  | fileInfo cut =>
      rcases current.saved with saved | ⟨nothing,usual⟩
      · exact .old (reload_saved few normal (congrArg SavedPriorities.filePriority saved))
      · obtain ⟨m,_,reads⟩ := reload_fileInfo (s.tell c).x.files ⟨some _,s.disk.filePriority⟩ few normal cut rfl
          (loadPriorityInfo_absent (congrArg SavedPriorities.filePriority nothing))
        have most := first_dnd s c usual
        rcases Nat.eq_zero_or_pos m with rfl | some_
        · refine .old fun k inside => ?_
          rw [reads,List.take_zero,if_neg List.not_mem_nil]
          exact (congrArg kept (usual k)).symm
        · refine .exclusions fun k inside => ?_
          rw [reads,List.take_of_length_le (by omega)]
          exact exclusions_dnd _ k inside
  | filePriority cut =>
      rcases Nat.lt_or_ge cut (counted (prioritisedFiles t (s.tell c).x.files)).length with short | whole
      · obtain ⟨m,all,reads⟩ := reload_fileInfo (s.tell c).x.files ⟨some _,some _⟩ few normal
          (saveFileInfo t (s.tell c).x.files).length (congrArg some List.take_length.symm) (loadPriorityInfo_torn few short rfl)
        refine .exclusions fun k inside => ?_
        rw [reads,all (Nat.le_refl _),List.take_length]
        exact exclusions_dnd _ k inside
      · refine .new (reload_saved few normal ?_)
        exact congrArg some (List.take_of_length_le whole)

-- A new torrent.
structure Begins (s : PrioritySession t) : Prop where
  normal : ∀ k, s.priority k = .normal
  loaded : s.x.control.manager.duringLoad = false
  disk : s.disk = ⟨none,none⟩

-- After any changes of the priorities of any files a restart finds them again; a crash
-- in the middle of saving the next change costs at most the priorities of the files that
-- are not EXCLUDED. What the user does are such changes.
theorem priorities_survive (few : t.numFiles < 536870912) (begins : Begins s) (fresh : Prioritised t) (normal : ∀ k, fresh.files.priority k = .normal)
    (beyond : Nat) (changes : List (Change t)) :
    (∀ k < t.numFiles, reload beyond fresh (s.run changes).disk k = kept ((s.run changes).priority k)) ∧
      (∀ c disk, Torn t ((s.run changes).tell c).x.files (s.run changes).disk disk →
        Recovers beyond fresh (s.run changes).x.files ((s.run changes).tell c).x.files disk) ∧
      ∀ k newpriority, ((s.run changes).setPriority k newpriority).priority = Function.update (s.run changes).priority k newpriority ∧
        ∃ more, (s.run changes).setPriority k newpriority = s.run (changes ++ more) := by
  have current : Current (s.run changes) := Current.run ⟨begins.loaded,.inr ⟨begins.disk,begins.normal⟩⟩ changes
  refine ⟨current.reload few normal,fun c disk torn => current.torn few normal beyond c torn,fun k newpriority => ⟨setPriority_priority _ k newpriority,?_⟩⟩
  obtain ⟨more,is⟩ := setPriority_tells (s.run changes) k newpriority
  exact ⟨more,is.trans List.foldl_append.symm⟩

-- The second of three files is not wanted any more.
theorem exclusion_survives :
    reload 7 Prioritised.threeNormal (run ⟨Prioritised.threeNormal,⟨none,none⟩⟩ [Prioritised.excludeMiddle]).disk 1 = .excluded :=
  (priorities_survive (s := ⟨Prioritised.threeNormal,⟨none,none⟩⟩) (by decide) ⟨fun _ => rfl,rfl,rfl⟩ Prioritised.threeNormal (fun _ => rfl) 7
    [Prioritised.excludeMiddle]).1 1 (by decide)

end PrioritySession

end KtorrentStream.Diskio
