import KtorrentStream.Lib.Along
import KtorrentStream.Lib.MarkedSum
import KtorrentStream.Diskio.ChunkManager
set_option autoImplicit true

namespace KtorrentStream.Diskio.ChunkManager
open KtorrentStream.Lib KtorrentStream.Util KtorrentStream.Torrent KtorrentStream.Torrent.Files

variable {t : Files} {m m' : ChunkManager t.numChunks}

def owned (t : Files) (m : ChunkManager t.numChunks) : Nat := markedSum t.chunkLen m.bitset.get t.numChunks

theorem small_numChunks (t : Files) : t.numChunks < 2147483648 := Layout.numChunks_small (t.layout 0)

theorem chunkLen_min (fits : t.chunkSize < 4294967296) (inside : i < t.numChunks) :
    t.chunkLen i = min t.chunkSize (t.totalSize - i * t.chunkSize) :=
  Layout.chunkLen_eq (l := t.layout 0) fits (lt_numChunks.mp inside)

theorem chunkLen_before (fits : t.chunkSize < 4294967296) (inside : k < t.numChunks) (before : i < k) : t.chunkLen i = t.chunkSize := by
  have mono : (i + 1) * t.chunkSize ≤ k * t.chunkSize := Nat.mul_le_mul_right _ before
  have less := lt_numChunks.mp inside
  exact Layout.chunkLen_full (l := t.layout 0) fits (show (i + 1) * t.chunkSize ≤ t.totalSize by omega)

theorem chunkLen_sum (fits : t.chunkSize < 4294967296) : ∑ i ∈ Finset.range t.numChunks, t.chunkLen i = t.totalSize := by
  have upTo : ∀ k ≤ t.numChunks, ∑ i ∈ Finset.range k, t.chunkLen i = min (k * t.chunkSize) t.totalSize := by
    intro k
    induction k with
    | zero => simp
    | succ k ih =>
      intro inside
      rw [Finset.sum_range_succ,ih (by omega),chunkLen_min fits inside,Nat.succ_mul]
      omega
  have all : ¬ t.numChunks * t.chunkSize < t.totalSize := fun more => Nat.lt_irrefl _ (lt_numChunks.mpr more)
  rw [upTo _ (Nat.le_refl _)]
  omega

theorem missing_before (fits : t.chunkSize < 4294967296) (inside : k < t.numChunks) (few : j ≤ k) :
    markedSum t.chunkLen (fun i => !m.bitset.get i) j = (j - (List.range j).countP m.bitset.get) * t.chunkSize := by
  induction j with
  | zero => simp [markedSum]
  | succ j ih =>
    have count : (List.range j).countP m.bitset.get ≤ j := by
      have less := List.countP_le_length (p := m.bitset.get) (l := List.range j)
      rwa [List.length_range] at less
    rw [markedSum_succ,ih (by omega),List.range_succ,List.countP_append,List.countP_singleton,chunkLen_before fits inside few]
    cases m.bitset.get j with
    | false => simp [Nat.succ_sub count,Nat.succ_mul]
    | true => simp

theorem numOnBits_succ (count : t.numChunks = k + 1) :
    m.bitset.numOnBits = (List.range k).countP m.bitset.get + (m.bitset.get k).toNat := by
  rw [ChunkSet.numOnBits_eq,show List.range t.numChunks = List.range k ++ [k] by rw [count,List.range_succ],List.countP_append,
    List.countP_singleton]
  cases m.bitset.get k <;> rfl

theorem bytesLeft_missing (fits : t.chunkSize < 4294967296) :
    m.bytesLeft t = markedSum t.chunkLen (fun i => !m.bitset.get i) t.numChunks := by
  have few := small_numChunks t
  have less := m.bitset.numOnBits_le
  have left : uint32Sub t.numChunks m.bitset.numOnBits = t.numChunks - m.bitset.numOnBits := uint32Sub_of_le less (by omega)
  unfold bytesLeft
  rw [left]
  rcases Nat.eq_zero_or_pos t.numChunks with none | some_
  · simp [none,uint64,markedSum]
  · obtain ⟨k,count⟩ : ∃ k, t.numChunks = k + 1 := ⟨t.numChunks - 1,by omega⟩
    have inside : k < t.numChunks := by omega
    have last : uint32Sub t.numChunks 1 = k := by
      rw [uint32Sub_of_le some_ (by omega)]
      omega
    have before := missing_before (m := m) fits inside (Nat.le_refl k)
    have on := numOnBits_succ (m := m) count
    have long : t.totalSize < 9223372036854775808 := t.long
    have whole : markedSum t.chunkLen (fun i => !m.bitset.get i) t.numChunks ≤ t.totalSize := by
      rw [← chunkLen_sum fits,← markedSum_split (p := m.bitset.get)]
      exact Nat.le_add_right _ _
    rw [show markedSum t.chunkLen (fun i => !m.bitset.get i) t.numChunks = _ from count ▸ markedSum_succ,before] at whole ⊢
    dsimp only
    rw [last]
    cases here : m.bitset.get k with
    | false =>
      rw [here] at on whole
      simp only [Bool.toNat_false,Nat.add_zero,Bool.not_false,if_true] at on whole ⊢
      have left : uint32Sub (t.numChunks - m.bitset.numOnBits) 1 = k - (List.range k).countP m.bitset.get := by
        have count := List.countP_le_length (p := m.bitset.get) (l := List.range k)
        rw [List.length_range] at count
        rw [uint32Sub_of_le (by omega) (by omega)]
        omega
      rw [if_pos ⟨inside,trivial⟩,left,uint64_of_lt (by omega)]
    | true =>
      rw [here] at on whole
      simp only [Bool.toNat_true,Bool.not_true,Bool.false_eq_true,if_false,Nat.add_zero,Bool.true_eq_false,and_false] at on whole ⊢
      have left : t.numChunks - m.bitset.numOnBits = k - (List.range k).countP m.bitset.get := by omega
      rw [left,uint64_of_lt (by omega)]

theorem bytesLeft_owned (fits : t.chunkSize < 4294967296) : m.bytesLeft t + m.owned t = t.totalSize := by
  rw [bytesLeft_missing fits,owned,markedSum_split,chunkLen_sum fits]

end KtorrentStream.Diskio.ChunkManager

namespace KtorrentStream.Diskio.ChunkManager
open KtorrentStream.Lib

variable {n : Nat} {m : ChunkManager n}

-- Which chunks are there after an operation.

theorem mem_rangeOf : i ∈ rangeOf n lower upper ↔ min lower upper ≤ i ∧ i ≤ max lower upper ∧ i < n := by
  unfold rangeOf
  rw [List.mem_range'_1]
  omega

theorem resetChunk_bitset (i j : Nat) : (m.resetChunk i).bitset.get j =
    if i = j ∧ i < n ∧ m.duringLoad = false then false else m.bitset.get j := by
  unfold resetChunk
  by_cases idle : (i ≥ n || m.duringLoad) = true
  · rw [if_pos idle,if_neg]
    intro here
    rw [here.2.2] at idle
    simp at idle
    omega
  · rw [if_neg idle]
    simp at idle
    rw [ChunkSet.set_get]
    simp [idle.1,idle.2]

theorem chunkDownloaded_bitset (writes : Bool) (i j : Nat) : (m.chunkDownloaded writes i).2.bitset.get j =
    if i = j ∧ i < n ∧ (m.chunk i).isExcluded = false then true else m.bitset.get j := by
  unfold chunkDownloaded
  by_cases outside : i ≥ n
  · rw [if_pos outside,if_neg (by omega)]
  · rw [if_neg outside]
    cases excluded : (m.chunk i).isExcluded with
    | true => simp
    | false =>
      have inside : i < n := by omega
      cases writes <;> simp [ChunkSet.set_get,inside]

theorem excludeChunks_bitset (l : List Nat) (m : ChunkManager n) (j : Nat) :
    (l.foldl excludeChunk m).bitset.get j = if j ∈ l then false else m.bitset.get j := by
  induction l generalizing m with
  | nil => rfl
  | cons i rest ih =>
    rw [List.foldl_cons,ih]
    show (if j ∈ rest then false else (m.bitset.set i false).get j) = _
    rw [ChunkSet.set_get]
    by_cases here : i = j
    · subst here
      by_cases inside : i < n
      · simp [inside]
      · simp [inside,m.bitset.get_of_ge (show n ≤ i by omega)]
    · simp [here,Ne.symm here]

theorem exclude_bitset (lower upper j : Nat) :
    (m.exclude lower upper).bitset.get j = if j ∈ rangeOf n lower upper then false else m.bitset.get j :=
  excludeChunks_bitset _ m j

theorem includeRange_bitset (lower upper : Nat) : (m.includeRange lower upper).bitset = m.bitset := by
  apply foldl_fixed (f := bitset)
  intro m i
  unfold includeChunk
  dsimp only
  split <;> rfl

theorem prioritise_bitset (lower upper : Nat) (priority : Priority) : (m.prioritise lower upper priority).bitset = m.bitset := by
  apply foldl_fixed (f := bitset)
  intro m i
  cases priority <;> rfl

end KtorrentStream.Diskio.ChunkManager
