import Mathlib.Data.Nat.Find
import KtorrentStream.Download.GrabCount
import KtorrentStream.Download.ManagerOfStream
set_option autoImplicit true

namespace KtorrentStream.Download
open KtorrentStream.Util

namespace Streaming

variable {s : Streaming σ H} {pd : PieceDownloader}

def InBufferPreferred (s : Streaming σ H) (i : Nat) : Prop := s.bufferPreferredStartsFrom ≤ i ∧ i ≤ s.bufferPreferredFinishTo

-- The buffers as they are meant: the chunks to be played next, and as many as
-- getSizeOfBufferPreferred says behind them. No sum of indices wraps.
structure BuffersFollow (s : Streaming σ H) : Prop where
  required : s.bufferRequiredStartsFrom ≤ s.bufferRequiredFinishTo
  inRange : s.csel.cursor ≤ s.bufferRequiredStartsFrom ∧ s.bufferRequiredFinishTo ≤ s.csel.rangeEnd
  preferred : ∀ i, s.InBufferPreferred i ↔
    s.bufferRequiredFinishTo < i ∧ i ≤ s.bufferRequiredFinishTo + getSizeOfBufferPreferred ∧ i ≤ s.csel.rangeEnd
  noWrap : s.csel.cursor + 1 < 4294967296 ∧ s.bufferRequiredStartsFrom + s.csel.manager.getSizeOfBufferRequired < 4294967296 ∧
    s.bufferRequiredFinishTo + getSizeOfBufferPreferred < 4294967296

-- The first chunk that is needed, unless it is behind the range.
def firstNeeded (s : Streaming σ H) : Nat := if s.state.onDisk s.csel.cursor then s.csel.cursor + 1 else s.csel.cursor

theorem bufferRequiredFinishTo_eq (s : Streaming σ H) :
    s.bufferRequiredFinishTo = min (s.bufferRequiredStartsFrom + s.csel.manager.getSizeOfBufferRequired - 1) s.csel.rangeEnd := by
  have few := s.few
  have first := required_bounds s
  have size := size_bounds s
  unfold bufferRequiredFinishTo
  rw [uint32_of_lt (by omega)]

theorem bufferPreferred_eq (s : Streaming σ H) : s.bufferPreferredStartsFrom = min (s.bufferRequiredFinishTo + 1) s.csel.rangeEnd ∧
    s.bufferPreferredFinishTo = min (s.bufferRequiredFinishTo + 9) s.csel.rangeEnd := by
  have few := s.few
  have first := required_bounds s
  unfold bufferPreferredStartsFrom bufferPreferredFinishTo getSizeOfBufferPreferred
  rw [uint32_of_lt (show s.bufferRequiredFinishTo + 1 < 4294967296 by omega),
    uint32_of_lt (show s.bufferRequiredFinishTo + 10 - 1 < 4294967296 by omega)]
  exact ⟨rfl,rfl⟩

theorem bufferRequiredStartsFrom_eq (s : Streaming σ H) (before : s.bufferRequiredStartsFrom < s.csel.rangeEnd) :
    s.bufferRequiredStartsFrom = s.firstNeeded := by
  have few := s.few
  have inRange := s.inRange
  unfold bufferRequiredStartsFrom at before ⊢
  unfold firstNeeded
  cases there : s.state.onDisk s.csel.cursor with
  | false => rfl
  | true =>
      rw [there] at before
      by_cases last : s.csel.cursor = s.csel.rangeEnd
      · rw [last] at before
        simp at before
      · have other : (s.csel.cursor != s.csel.rangeEnd) = true := bne_iff_ne.mpr last
        rw [other]
        exact uint32_of_lt (by omega)

theorem firstNeeded_le (s : Streaming σ H) : s.bufferRequiredStartsFrom ≤ s.firstNeeded := by
  have few := s.few
  have inRange := s.inRange
  unfold bufferRequiredStartsFrom firstNeeded
  cases s.state.onDisk s.csel.cursor with
  | false => exact Nat.le_refl _
  | true =>
      rw [if_pos rfl]
      split
      · exact Nat.le_of_eq (uint32_of_lt (by omega))
      · exact Nat.le_succ _

theorem required_nonempty (s : Streaming σ H) : s.bufferRequiredStartsFrom ≤ s.bufferRequiredFinishTo := by
  have first := required_bounds s
  have size := size_bounds s
  rw [bufferRequiredFinishTo_eq]
  omega

-- What follows the required buffer is cut at the end of the range, and begins behind it.
theorem preferred_iff (s : Streaming σ H) : (∀ i, s.InBufferPreferred i ↔
    s.bufferRequiredFinishTo < i ∧ i ≤ s.bufferRequiredFinishTo + getSizeOfBufferPreferred ∧ i ≤ s.csel.rangeEnd) ↔
    s.bufferRequiredFinishTo < s.csel.rangeEnd ∧ s.csel.rangeEnd < s.bufferRequiredFinishTo + getSizeOfBufferPreferred := by
  have last := (required_bounds s).2.2
  have bounds := bufferPreferred_eq s
  unfold InBufferPreferred getSizeOfBufferPreferred
  rw [bounds.1,bounds.2]
  constructor
  · intro same
    constructor
    · have atEnd := same s.csel.rangeEnd
      omega
    · have tenth := same (s.bufferRequiredFinishTo + 10)
      omega
  · intro near i
    omega

theorem finish_iff (s : Streaming σ H) :
    s.bufferRequiredFinishTo < s.csel.rangeEnd ∧ s.csel.rangeEnd < s.bufferRequiredFinishTo + getSizeOfBufferPreferred ↔
      s.firstNeeded + s.csel.manager.getSizeOfBufferRequired ≤ s.csel.rangeEnd ∧
        s.csel.rangeEnd < s.firstNeeded + s.csel.manager.getSizeOfBufferRequired + 9 := by
  have size := size_bounds s
  have finish := bufferRequiredFinishTo_eq s
  have le := firstNeeded_le s
  unfold getSizeOfBufferPreferred
  by_cases before : s.bufferRequiredStartsFrom < s.csel.rangeEnd
  · have first := bufferRequiredStartsFrom_eq s before
    omega
  · omega

-- The required buffer is always as it is meant. The preferred one is exactly when between
-- one and nine chunks follow the required one.
theorem buffersFollow_iff (s : Streaming σ H) : s.BuffersFollow ↔
    s.firstNeeded + s.csel.manager.getSizeOfBufferRequired ≤ s.csel.rangeEnd ∧
      s.csel.rangeEnd < s.firstNeeded + s.csel.manager.getSizeOfBufferRequired + 9 := by
  rw [← finish_iff,← preferred_iff]
  constructor
  · intro follow
    exact follow.preferred
  · intro preferred
    have few := s.few
    have inRange := s.inRange
    have first := required_bounds s
    have size := size_bounds s
    refine ⟨required_nonempty s,⟨first.1,first.2.2⟩,preferred,?_⟩
    unfold getSizeOfBufferPreferred
    omega

end Streaming

-- The cursor is at the last chunk, which is in both buffers.
def lastChunkPlayed : Streaming Unit Unit where
  csel := ⟨0,3,3,⟨3,0,initialTimeChunkPlayedFor⟩⟩
  state := ⟨.new 4,fun _ => false,idleDownloader⟩
  inRange := by decide
  few := by decide
  played := by decide
  saved i on := by
    rw [BitSet.new_get] at on
    cases on

theorem buffers_overlap : ¬ lastChunkPlayed.BuffersFollow := by
  intro follow
  have both := (follow.preferred 3).mp ⟨by decide,by decide⟩
  revert both
  decide

namespace Streaming

variable {s : Streaming σ H} {pd : PieceDownloader}

-- A chunk of the preferred buffer that is missing and that the peer has.
structure Offered (s : Streaming σ H) (pd : PieceDownloader) (i : Nat) : Prop where
  inBuffer : s.InBufferPreferred i
  missing : s.state.onDisk i = false
  has : pd.hasChunk i = true

-- Nobody downloads the chunk, or it will be late.
def Urgent (s : Streaming σ H) (i : Nat) : Prop := s.isDownloading i = false ∨ s.doesMeetRequirement i = false

def takes (s : Streaming σ H) (pd : PieceDownloader) (i : Nat) : Bool :=
  !s.state.onDisk i && pd.hasChunk i && (!s.isDownloading i || !s.doesMeetRequirement i)

theorem takes_iff : s.InBufferPreferred i ∧ s.takes pd i = true ↔ s.Offered pd i ∧ s.Urgent i := by
  unfold takes Urgent
  rw [Bool.and_eq_true,Bool.and_eq_true,Bool.or_eq_true,Bool.not_eq_true',Bool.not_eq_true',Bool.not_eq_true']
  constructor
  · intro both
    obtain ⟨inBuffer,⟨missing,has⟩,urgent⟩ := both
    exact ⟨⟨inBuffer,missing,has⟩,urgent⟩
  · intro both
    obtain ⟨⟨inBuffer,missing,has⟩,urgent⟩ := both
    exact ⟨inBuffer,⟨missing,has⟩,urgent⟩

-- With time_download at 0 the maximum stays 0.
theorem preferredLoop_find (l : List Nat) (result : Nat) : s.preferredLoop pd 0 l 0 result = l.find? (s.takes pd) := by
  induction l with
  | nil => rfl
  | cons i rest ih =>
      rw [List.find?_cons]
      unfold preferredLoop takes
      cases offered : !s.state.onDisk i && pd.hasChunk i with
      | false => exact ih
      | true =>
          cases downloading : s.isDownloading i with
          | false => rfl
          | true =>
              cases meets : s.doesMeetRequirement i with
              | false => rfl
              | true =>
                  rw [if_pos rfl,if_neg (by simp),if_neg (by simp),if_neg (Nat.lt_irrefl 0)]
                  exact ih

theorem preferred_some : s.selectChunkFromBufferPreferred pd = some i ↔
    (s.Offered pd i ∧ s.Urgent i) ∧ ∀ j, s.Offered pd j → s.Urgent j → i ≤ j := by
  unfold selectChunkFromBufferPreferred
  rw [preferredLoop_find,find_upTo]
  constructor
  · intro found
    obtain ⟨inBuffer,taken,before⟩ := found
    refine ⟨takes_iff.mp ⟨inBuffer,taken⟩,?_⟩
    intro j offered urgent
    have both := takes_iff.mpr ⟨offered,urgent⟩
    apply Nat.le_of_not_lt
    intro less
    have passed := before j both.1.1 less
    rw [both.2] at passed
    cases passed
  · intro first
    obtain ⟨here,before⟩ := first
    have both := takes_iff.mpr here
    refine ⟨both.1,both.2,?_⟩
    intro j low less
    cases taken : s.takes pd j with
    | false => rfl
    | true =>
        have inBuffer : s.InBufferPreferred j := ⟨low,by have upper := both.1.2; omega⟩
        have urgent := takes_iff.mp ⟨inBuffer,taken⟩
        have le := before j urgent.1 urgent.2
        omega

end Streaming

end KtorrentStream.Download
