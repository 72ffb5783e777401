import KtorrentStream.Torrent.StreamPosition
set_option autoImplicit true

namespace KtorrentStream.Torrent
open KtorrentStream.Util

-- The files of a multi-file torrent, one behind the other. The hashes of the
-- chunks are in one QByteArray, so there are fewer than 2^31 of them.
structure Files where
  chunkSize : Nat
  sizes : List Nat
  chunked : 0 < chunkSize
  long : sizes.sum < 9223372036854775808
  few : sizes.sum / chunkSize < 2147483647

-- pos_cache_chunk and pos_cache_file
structure PosCache where
  chunk : Nat
  file : Nat

namespace Files

variable (t : Files)

def totalSize : Nat := t.sizes.sum

def numFiles : Nat := t.sizes.length

def size (k : Nat) : Nat := t.sizes.getD k 0

def start (k : Nat) : Nat := (t.sizes.take k).sum

theorem start_succ (k : Nat) : t.start (k + 1) = t.start k + t.size k := by
  unfold start size
  rw [List.take_add_one,List.sum_append,List.getD_eq_getElem?_getD]
  cases t.sizes[k]? with
  | none => rfl
  | some size => simp

theorem start_mono (less : j ≤ k) : t.start j ≤ t.start k := by
  induction less with
  | refl => exact Nat.le_refl _
  | step _ ih =>
    rw [start_succ]
    omega

theorem start_numFiles : t.start t.numFiles = t.totalSize := by
  unfold start numFiles totalSize
  rw [List.take_length]

theorem size_of_ge (past : t.numFiles ≤ k) : t.size k = 0 := by
  unfold size
  rw [List.getD_eq_getElem?_getD,List.getElem?_eq_none past]
  rfl

theorem start_le (k : Nat) : t.start k ≤ t.totalSize := by
  have whole : t.start k ≤ t.start (k + t.numFiles) := t.start_mono (Nat.le_add_right _ _)
  have ends : t.start (k + t.numFiles) = t.totalSize := by
    unfold start totalSize
    rw [List.take_of_length_le (show t.sizes.length ≤ k + t.numFiles from Nat.le_add_left _ _)]
  omega

def layout (k : Nat) : Layout where
  chunkSize := t.chunkSize
  totalSize := t.totalSize
  multiFile := true
  cacheOffset := t.start k
  size := t.size k
  chunked := t.chunked
  inside := t.start_succ k ▸ t.start_le (k + 1)
  whole := fun single => nomatch single
  long := t.long
  few := t.few

def file (k : Nat) : TorrentFile := .new (t.start k) (t.size k) t.chunkSize

-- hash_pieces.size()
def numChunks : Nat := (t.layout 0).numChunks

-- Chunk::getSize
def chunkLen (c : Nat) : Nat := (t.layout 0).chunkLen c

def has (chunk k : Nat) : Bool := (t.file k).firstChunk ≤ chunk && chunk ≤ (t.file k).lastChunk

def firstWith (chunk : Nat) : Nat → Nat
  | 0 => 0
  | i + 1 => if !t.has chunk i then i + 1 else firstWith chunk i

def search (chunk : Nat) : Nat → Nat → Nat → Nat
  | 0,start,_ => start
  | fuel + 1,start,last =>
    let mid := start + (last - start) / 2
    if start ≠ mid ∧ mid ≠ last then
      if t.has chunk mid then t.firstWith chunk mid
      else if chunk > (t.file mid).lastChunk then search chunk fuel (mid + 1) last
      else search chunk fuel start (mid - 1)
    else mid

def collect (chunk : Nat) : List Nat → List Nat
  | [] => []
  | i :: rest =>
    if t.has chunk i && t.size i != 0 then i :: collect chunk rest
    else if chunk < (t.file i).firstChunk then []
    else collect chunk rest

-- file_list.at(0) is there: every chunk is in a file.
def calcChunkPos (cache : PosCache) (chunk : Nat) : List Nat × PosCache :=
  if chunk ≥ t.numChunks ∨ t.numFiles = 0 then ([],cache)
  else
    let start := if chunk ≥ cache.chunk then cache.file else 0
    let mid := t.search chunk t.numFiles start (t.numFiles - 1)
    let fileList := t.collect chunk (List.range' mid (t.numFiles - mid))
    (fileList,⟨chunk,fileList.headD 0⟩)

-- TorrentFile::fileOffset
def fileOffset (f : TorrentFile) (cindex : Nat) : Nat :=
  if f.firstChunkOffset = 0 then uint64 (uint32Sub cindex f.firstChunk * t.chunkSize)
  else
    let off := if uint32Sub cindex f.firstChunk > 0 then uint64 (uint32Sub (uint32Sub cindex f.firstChunk) 1 * t.chunkSize) else 0
    if cindex > 0 then uint64 (off + (t.chunkSize - f.firstChunkOffset)) else off

end Files

namespace Files

variable {t : Files} {c i j k : Nat}

theorem firstChunk_eq : (t.file k).firstChunk = t.start k / t.chunkSize := by
  have same := (t.layout k).firstChunk_eq
  simp only [Layout.firstChunk,Layout.file,layout,if_true] at same
  exact same

theorem lastChunk_eq : (t.file k).lastChunk =
    if 0 < t.size k then (t.start k + t.size k - 1) / t.chunkSize else t.start k / t.chunkSize := by
  have same := (t.layout k).lastChunk_eq
  simp only [Layout.lastChunk,Layout.file,layout,if_true] at same
  exact same

theorem firstChunk_le_lastChunk (t : Files) (k : Nat) : (t.file k).firstChunk ≤ (t.file k).lastChunk := by
  have order := (t.layout k).firstChunk_le_lastChunk
  simp only [Layout.firstChunk,Layout.lastChunk,Layout.file,layout,if_true] at order
  exact order

theorem firstChunk_mono (less : j ≤ k) : (t.file j).firstChunk ≤ (t.file k).firstChunk := by
  rw [firstChunk_eq,firstChunk_eq]
  exact Nat.div_le_div_right (t.start_mono less)

theorem lastChunk_mono (less : j ≤ k) : (t.file j).lastChunk ≤ (t.file k).lastChunk := by
  rcases Nat.eq_or_lt_of_le less with same | before
  · rw [same]
  · have order := t.start_mono (show j + 1 ≤ k from before)
    rw [start_succ] at order
    rw [lastChunk_eq,lastChunk_eq]
    split <;> split <;> exact Nat.div_le_div_right (by omega)

-- The files that have bytes of a chunk.
def Overlaps (t : Files) (c k : Nat) : Prop :=
  0 < t.size k ∧ t.start k < (c + 1) * t.chunkSize ∧ c * t.chunkSize < t.start k + t.size k

theorem overlaps_iff : Overlaps t c k ↔ (t.has c k && t.size k != 0) = true := by
  unfold Overlaps has
  rw [Bool.and_eq_true,Bool.and_eq_true,decide_eq_true_iff,decide_eq_true_iff,bne_iff_ne,firstChunk_eq,lastChunk_eq]
  constructor
  · rintro ⟨some_,first,last⟩
    rw [if_pos some_,Nat.le_div_iff_mul_le t.chunked,← Nat.lt_add_one_iff,Nat.div_lt_iff_lt_mul t.chunked]
    exact ⟨⟨first,by omega⟩,by omega⟩
  · rintro ⟨⟨first,last⟩,some_⟩
    rw [if_pos (by omega),Nat.le_div_iff_mul_le t.chunked] at last
    rw [← Nat.lt_add_one_iff,Nat.div_lt_iff_lt_mul t.chunked] at first
    exact ⟨by omega,first,by omega⟩

instance : Decidable (Overlaps t c k) := inferInstanceAs (Decidable (_ ∧ _ ∧ _))

-- The files with a chunk from file k on.
def filesOf (t : Files) (c k : Nat) : List Nat := (List.range' k (t.numFiles - k)).filter fun i => decide (Overlaps t c i)

theorem range_step (less : k < t.numFiles) : List.range' k (t.numFiles - k) = k :: List.range' (k + 1) (t.numFiles - (k + 1)) := by
  rw [show t.numFiles - k = t.numFiles - (k + 1) + 1 by omega,List.range'_succ]

theorem filesOf_step (less : k < t.numFiles) :
    filesOf t c k = if Overlaps t c k then k :: filesOf t c (k + 1) else filesOf t c (k + 1) := by
  unfold filesOf
  rw [range_step less,List.filter_cons]
  by_cases here : Overlaps t c k
  · rw [if_pos here,if_pos (decide_eq_true here)]
  · rw [if_neg here,if_neg (by simpa using here)]

theorem filesOf_end (past : t.numFiles ≤ k) : filesOf t c k = [] := by
  unfold filesOf
  rw [show t.numFiles - k = 0 by omega]
  rfl

theorem mem_filesOf : i ∈ filesOf t c k ↔ k ≤ i ∧ i < t.numFiles ∧ Overlaps t c i := by
  unfold filesOf
  rw [List.mem_filter,List.mem_range'_1,decide_eq_true_iff]
  constructor
  · rintro ⟨range,here⟩
    exact ⟨range.1,by omega,here⟩
  · rintro ⟨low,high,here⟩
    exact ⟨by omega,here⟩

theorem filesOf_skip (less : j ≤ k) (none : ∀ i, j ≤ i → i < k → ¬ Overlaps t c i) : filesOf t c j = filesOf t c k := by
  obtain ⟨n,rfl⟩ := Nat.exists_eq_add_of_le less
  induction n with
  | zero => rfl
  | succ n ih =>
    rw [ih (Nat.le_add_right _ _) fun i low high => none i low (by omega)]
    by_cases more : j + n < t.numFiles
    · rw [filesOf_step more,if_neg (none _ (Nat.le_add_right _ _) (by omega)),Nat.add_assoc]
    · rw [filesOf_end (by omega),filesOf_end (by omega)]

theorem collect_eq (count : Nat) (left : k + count = t.numFiles) : t.collect c (List.range' k (t.numFiles - k)) = filesOf t c k := by
  induction count generalizing k with
  | zero =>
    rw [filesOf_end (by omega),show t.numFiles - k = 0 by omega]
    rfl
  | succ count ih =>
    rw [filesOf_step (by omega),range_step (by omega)]
    unfold collect
    by_cases here : Overlaps t c k
    · rw [if_pos here,if_pos (overlaps_iff.mp here),ih (by omega)]
    · rw [if_neg here,if_neg (fun on => here (overlaps_iff.mpr on))]
      split
      · rename_i behind
        have none : filesOf t c (k + 1) = [] := by
          apply List.eq_nil_iff_forall_not_mem.mpr
          intro i member
          obtain ⟨low,_,_,first,_⟩ := mem_filesOf.mp member
          have order := t.start_mono (show k ≤ i by omega)
          rw [firstChunk_eq,← Nat.add_one_le_iff,Nat.le_div_iff_mul_le t.chunked] at behind
          omega
        exact none.symm
      · exact ih (by omega)

theorem firstWith_le : t.firstWith c i ≤ i := by
  induction i with
  | zero => exact Nat.le_refl _
  | succ i ih =>
    unfold firstWith
    split
    · exact Nat.le_refl _
    · omega

theorem has_of_between (lower : t.has c j = true) (upper : t.has c k = true) (low : j ≤ i) (high : i ≤ k) : t.has c i = true := by
  unfold has at *
  simp only [Bool.and_eq_true,decide_eq_true_iff] at *
  exact ⟨Nat.le_trans (firstChunk_mono high) upper.1,Nat.le_trans lower.2 (lastChunk_mono low)⟩

theorem firstWith_first (here : t.has c k = true) (low : i ≤ k) (before : j < t.firstWith c i) : t.has c j = false := by
  induction i with
  | zero => exact absurd before (Nat.not_lt_zero j)
  | succ i ih =>
    unfold firstWith at before
    cases prior : t.has c i with
    | true =>
      rw [prior] at before
      exact ih (by omega) before
    | false =>
      rw [prior] at before
      cases there : t.has c j with
      | false => rfl
      | true =>
        simp only [Bool.not_false,if_true] at before
        have := has_of_between there here (show j ≤ i by omega) (by omega)
        rw [prior] at this
        cases this

def NoneBefore (t : Files) (c k : Nat) : Prop := ∀ j < k, ¬ Overlaps t c j

theorem not_overlaps (without : t.has c j = false) : ¬ Overlaps t c j := fun here => by
  have := overlaps_iff.mp here
  rw [without] at this
  cases this

theorem search_spec (fuel : Nat) {lower last : Nat} (none : NoneBefore t c lower) (order : lower ≤ last) :
    NoneBefore t c (t.search c fuel lower last) ∧ t.search c fuel lower last ≤ last := by
  induction fuel generalizing lower last with
  | zero => exact ⟨none,order⟩
  | succ fuel ih =>
    unfold search
    dsimp only
    have above : lower ≤ lower + (last - lower) / 2 := Nat.le_add_right _ _
    have inside : lower + (last - lower) / 2 ≤ last := by omega
    have ends : lower + (last - lower) / 2 = last → lower = last := by omega
    generalize lower + (last - lower) / 2 = mid at *
    split
    · rename_i going
      cases here : t.has c mid with
      | true =>
        rw [if_pos rfl]
        exact ⟨fun j before => not_overlaps (firstWith_first here (Nat.le_refl _) before),Nat.le_trans firstWith_le inside⟩
      | false =>
        rw [if_neg (by decide)]
        split
        · rename_i behind
          refine ih (fun j before overlaps => ?_) (by omega)
          have on := overlaps_iff.mp overlaps
          unfold has at on
          simp only [Bool.and_eq_true,decide_eq_true_iff] at on
          have := lastChunk_mono (t := t) (show j ≤ mid by omega)
          omega
        · obtain ⟨before,upper⟩ := ih none (show lower ≤ mid - 1 by omega)
          exact ⟨before,by omega⟩
    · rename_i stop
      have here : mid = lower := by omega
      rw [here]
      exact ⟨none,order⟩

theorem exists_file (inside : x < t.totalSize) : ∃ k < t.numFiles, t.start k ≤ x ∧ x < t.start k + t.size k := by
  have step : ∀ n ≤ t.numFiles, x < t.start n → ∃ k < n, t.start k ≤ x ∧ x < t.start k + t.size k := by
    intro n
    induction n with
    | zero => exact fun _ none => absurd none (Nat.not_lt_zero x)
    | succ n ih =>
      intro few less
      rw [start_succ] at less
      by_cases before : x < t.start n
      · obtain ⟨k,low,here⟩ := ih (by omega) before
        exact ⟨k,by omega,here⟩
      · exact ⟨n,Nat.lt_succ_self n,by omega,less⟩
  exact step t.numFiles (Nat.le_refl _) (t.start_numFiles ▸ inside)

theorem lt_numChunks : c < t.numChunks ↔ c * t.chunkSize < t.totalSize := Layout.lt_numChunks

theorem filesOf_ne_nil (inside : c < t.numChunks) : filesOf t c 0 ≠ [] := by
  obtain ⟨k,few,low,high⟩ := exists_file (lt_numChunks.mp inside)
  have positive := t.chunked
  have here : k ∈ filesOf t c 0 := mem_filesOf.mpr ⟨Nat.zero_le k,few,by omega,by rw [Nat.succ_mul]; omega,high⟩
  exact List.ne_nil_of_mem here

structure PosValid (t : Files) (cache : PosCache) : Prop where
  inside : 0 < t.numFiles → cache.file < t.numFiles
  first : NoneBefore t cache.chunk cache.file
  overlaps : cache.file = 0 ∨ Overlaps t cache.chunk cache.file

theorem start_posValid (t : Files) : PosValid t ⟨0,0⟩ := ⟨id,fun j less => absurd less (Nat.not_lt_zero j),.inl rfl⟩

theorem PosValid.later {cache : PosCache} (valid : PosValid t cache) (later : cache.chunk ≤ c) : NoneBefore t c cache.file := by
  intro j before overlaps
  rcases valid.overlaps with zero | here
  · omega
  · refine valid.first j before ⟨overlaps.1,?_,?_⟩
    · exact Nat.lt_of_le_of_lt (t.start_mono (Nat.le_of_lt before)) here.2.1
    · exact Nat.lt_of_le_of_lt (Nat.mul_le_mul_right _ later) overlaps.2.2

theorem calcChunkPos_spec {cache : PosCache} (valid : PosValid t cache) (inside : c < t.numChunks) :
    (t.calcChunkPos cache c).1 = filesOf t c 0 ∧ PosValid t (t.calcChunkPos cache c).2 := by
  obtain ⟨k,few,_⟩ := exists_file (lt_numChunks.mp inside)
  have some_ : 0 < t.numFiles := by omega
  have begin_ : NoneBefore t c (if c ≥ cache.chunk then cache.file else 0) ∧ (if c ≥ cache.chunk then cache.file else 0) ≤ t.numFiles - 1 := by
    split
    · rename_i later
      have := valid.inside some_
      exact ⟨valid.later later,by omega⟩
    · exact ⟨fun j less => absurd less (Nat.not_lt_zero j),Nat.zero_le _⟩
  unfold calcChunkPos
  rw [if_neg (by omega)]
  dsimp only
  generalize (if c ≥ cache.chunk then cache.file else 0) = start at *
  obtain ⟨none,upper⟩ := search_spec t.numFiles begin_.1 begin_.2
  generalize t.search c t.numFiles start (t.numFiles - 1) = mid at *
  have all : t.collect c (List.range' mid (t.numFiles - mid)) = filesOf t c 0 := by
    rw [collect_eq (t.numFiles - mid) (by omega)]
    exact (filesOf_skip (Nat.zero_le mid) fun i _ before => none i before).symm
  rw [all]
  refine ⟨rfl,?_⟩
  cases list : filesOf t c 0 with
  | nil => exact absurd list (filesOf_ne_nil inside)
  | cons first rest =>
    obtain ⟨_,inside,overlaps⟩ := mem_filesOf.mp (list ▸ List.mem_cons_self : first ∈ filesOf t c 0)
    refine ⟨fun _ => inside,fun j before here => ?_,.inr overlaps⟩
    have member : j ∈ filesOf t c 0 := mem_filesOf.mpr ⟨Nat.zero_le j,Nat.lt_trans before inside,here⟩
    have sorted : (filesOf t c 0).Pairwise (· < ·) := List.Pairwise.filter _ List.pairwise_lt_range'
    rw [list] at member sorted
    rcases List.mem_cons.mp member with same | after
    · change j < first at before
      omega
    · have := (List.pairwise_cons.mp sorted).1 j after
      change j < first at before
      omega

end Files

end KtorrentStream.Torrent
