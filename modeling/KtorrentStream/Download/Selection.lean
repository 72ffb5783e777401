import KtorrentStream.Diskio.FilePriorities
import KtorrentStream.Download.StreamingBuffers
set_option autoImplicit true

namespace KtorrentStream.Download
open KtorrentStream.Util KtorrentStream.Torrent KtorrentStream.Diskio

namespace Streaming

variable {s : Streaming σ H} {pd : PieceDownloader}

-- A chunk from the cursor on that is missing, that nobody downloads and that the peer has.
structure Free (s : Streaming σ H) (pd : PieceDownloader) (i : Nat) : Prop where
  behind : s.csel.cursor ≤ i
  inRange : i ≤ s.csel.rangeEnd
  missing : s.state.bitset.get i = false
  idle : s.isDownloading i = false
  has : pd.hasChunk i = true

-- The chunk at the cursor is missing in the bitset, its status says that it is on disk, and
-- nobody downloads it.
structure Forgotten (s : Streaming σ H) : Prop where
  missing : s.state.bitset.get s.csel.cursor = false
  onDisk : s.state.onDisk s.csel.cursor = true
  idle : s.isDownloading s.csel.cursor = false

-- A chunk that nobody downloads takes forever, and the one at the cursor is needed now.
theorem cursor_late (absent : s.state.onDisk s.csel.cursor = false) (idle : s.isDownloading s.csel.cursor = false) :
    s.doesMeetRequirement s.csel.cursor = false := by
  have few := s.few
  have inRange := s.inRange
  have none : s.state.downer.downloadingChunks.find s.csel.cursor = none := Option.not_isSome_iff_eq_none.mp (by
    unfold isDownloading at idle
    rw [idle]
    exact Bool.false_ne_true)
  have forever : s.getTimeDownloadFinish s.csel.cursor = infinity := by
    unfold getTimeDownloadFinish
    rw [absent,none]
    rfl
  have now : s.getTimeUntilRequired s.csel.cursor = 0 := by
    unfold getTimeUntilRequired
    rw [uint32Sub_of_le (Nat.le_refl _) (by omega),Nat.sub_self]
    unfold uint64
    simp
  unfold doesMeetRequirement
  rw [forever,now]
  exact decide_eq_false (by unfold infinity; omega)

theorem starts_at_cursor (absent : s.state.onDisk s.csel.cursor = false) : s.bufferRequiredStartsFrom = s.csel.cursor := by
  unfold bufferRequiredStartsFrom
  rw [absent]
  rfl

-- The required buffer begins at the cursor, and its first chunk is selected.
theorem selects_cursor (free : s.Free pd s.csel.cursor) (absent : s.state.onDisk s.csel.cursor = false) :
    s.select pd = some s.csel.cursor := by
  have starts := starts_at_cursor absent
  have inBuffer : s.InBufferRequired s.csel.cursor := ⟨Nat.le_of_eq starts,by rw [← starts]; exact required_nonempty s⟩
  have found : s.selectChunkFromBufferRequiredNotMeetRequirement pd = some s.csel.cursor := by
    apply required_iff.mpr
    refine ⟨s.csel.cursor,inBuffer,cursor_late absent free.idle,?_,inBuffer,Nat.le_refl _,free.has,?_⟩
    · intro j inside less
      have low := inside.1
      rw [starts] at low
      omega
    · intro j low less
      omega
  unfold select
  rw [found]

-- A chunk behind the cursor is found by the last loop, if nothing was before it.
theorem selects_behind (free : s.Free pd i) (behind : s.csel.cursor < i) : ∃ j, s.select pd = some j := by
  unfold select
  cases s.selectChunkFromBufferRequiredNotMeetRequirement pd with
  | some j => exact ⟨j,rfl⟩
  | none =>
      cases s.selectChunkFromBufferPreferred pd with
      | some j => exact ⟨j,rfl⟩
      | none =>
          apply Option.isSome_iff_exists.mp
          apply List.find?_isSome.mpr
          refine ⟨i,?_,?_⟩
          · rw [List.mem_reverse,mem_upTo]
            exact ⟨behind,free.inRange⟩
          · rw [free.missing,free.idle,free.has]
            rfl

-- A peer that has only this chunk.
def onlyHas (i : Nat) : PieceDownloader := ⟨0,false,true,false,(BitSet.new (i + 1)).set i true,0,0,1,[],[],25⟩

theorem onlyHas_iff : (onlyHas i).hasChunk j = true ↔ j = i := by
  unfold PieceDownloader.hasChunk onlyHas
  rw [if_pos rfl,BitSet.set_get,BitSet.new_get]
  constructor
  · intro has
    split at has
    · rename_i here
      exact here.1.symm
    · cases has
  · intro same
    rw [if_pos ⟨same.symm,Nat.lt_succ_self i⟩]

theorem forgotten_unselected (forgotten : s.Forgotten) (i : Nat) : s.select (onlyHas s.csel.cursor) ≠ some i := by
  intro selected
  have bounds := required_bounds s
  unfold select at selected
  split at selected
  · rename_i j found
    obtain ⟨late,inBuffer,isLate,_,inside,after,has,_⟩ := required_iff.mp found
    rw [onlyHas_iff] at has
    have low := inBuffer.1
    have here : late = s.csel.cursor := by omega
    rw [here,onDisk_meets forgotten.onDisk] at isLate
    cases isLate
  · split at selected
    · rename_i j found
      have offered := (preferred_some.mp found).1.1
      have here := onlyHas_iff.mp offered.has
      have missing := offered.missing
      rw [here,forgotten.onDisk] at missing
      cases missing
    · have member := List.mem_of_find?_eq_some selected
      have chosen := List.find?_some selected
      rw [List.mem_reverse,mem_upTo] at member
      rw [Bool.and_eq_true,onlyHas_iff] at chosen
      omega

-- Each peer that has a free chunk is given one, exactly when the chunk at the cursor is
-- not forgotten.
theorem select_complete_iff (s : Streaming σ H) : (∀ pd, (∃ i, s.Free pd i) → ∃ i, s.select pd = some i) ↔ ¬ s.Forgotten := by
  constructor
  · intro complete forgotten
    have free : s.Free (onlyHas s.csel.cursor) s.csel.cursor :=
      ⟨Nat.le_refl _,s.inRange,forgotten.missing,forgotten.idle,onlyHas_iff.mpr rfl⟩
    obtain ⟨i,selected⟩ := complete (onlyHas s.csel.cursor) ⟨_,free⟩
    exact forgotten_unselected forgotten i selected
  · intro known pd offers
    obtain ⟨i,free⟩ := offers
    rcases Nat.eq_or_lt_of_le free.behind with here | behind
    · subst here
      cases there : s.state.onDisk s.csel.cursor with
      | false => exact ⟨_,selects_cursor free there⟩
      | true => exact absurd ⟨free.missing,there,free.idle⟩ known
    · exact selects_behind free behind

end Streaming

-- Two chunks of four bytes; the second file begins in the first one.
def sharedChunk : Files := ⟨4,[2,6],four_bytes,by decide,by decide⟩

-- What the user wants of the files: the first one, and the second one or not.
def wanting (second : Priority) : FilePriorities := ⟨fun k => if k = 1 then second else .normal,fun _ => false,fun _ => false,0,0⟩

def allDownloaded : PriorityControl sharedChunk :=
  ⟨(((ChunkManager.new sharedChunk.numChunks []).chunkDownloaded true 0).2.chunkDownloaded true 1).2,⟨0,0⟩,Files.start_posValid _,fun _ => false⟩

-- The second file is excluded and included again. Its first chunk, which the first file
-- needs, is kept, and the last one is excluded without a reset.
def includedAgain : PriorityControl sharedChunk :=
  (allDownloaded.downloadPriorityChanged (wanting .excluded) 1 .excluded .normal).downloadPriorityChanged (wanting .normal) 1 .normal .excluded

theorem includedAgain_bitset : includedAgain.manager.bitset.get 0 = true ∧ includedAgain.manager.bitset.get 1 = false := by decide +kernel

-- The second file is played then, and has come to its last chunk.
def playedAgain : Streaming Unit Unit where
  csel := ⟨0,1,1,⟨1,0,initialTimeChunkPlayedFor⟩⟩
  state := ⟨includedAgain.manager.bitset.bits,fun i => (includedAgain.manager.chunk i).status == .onDisk,idleDownloader⟩
  inRange := by decide
  few := by decide
  played := by decide
  saved i on := by
    have there : includedAgain.manager.bitset.get i = true := on
    by_cases inside : i < sharedChunk.numChunks
    · have small : i < 2 := inside
      rcases (show i = 0 ∨ i = 1 by omega) with rfl | rfl
      · decide +kernel
      · rw [includedAgain_bitset.2] at there
        cases there
    · rw [ChunkSet.get_of_ge _ (Nat.not_lt.mp inside)] at there
      cases there

-- The chunk is not selected for a peer that has it.
theorem last_chunk_forgotten : ¬ ∀ pd, (∃ i, playedAgain.Free pd i) → ∃ i, playedAgain.select pd = some i := by
  intro complete
  have free : playedAgain.Free (Streaming.onlyHas 1) 1 :=
    ⟨by decide,by decide,includedAgain_bitset.2,by decide,by decide⟩
  obtain ⟨i,selected⟩ := complete _ ⟨1,free⟩
  have none : playedAgain.select (Streaming.onlyHas 1) = none := by decide +kernel
  rw [none] at selected
  cases selected

end KtorrentStream.Download
