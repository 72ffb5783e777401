import KtorrentStream.Diskio.AddressMap
import KtorrentStream.Torrent.Metadata
import KtorrentStream.Download.WebSeed
set_option autoImplicit true

namespace KtorrentStream.Download
open Util Torrent Torrent.Files
open Diskio.MultiFileCache (chunkLen_eq filesOf_head fileOffset_eq chunk_ends file_ends)

-- The bytes of a file from a to b, which are positions in the torrent.
def inFile (t : Files) (a b k : Nat) : Option FileRange :=
  if max a (t.start k) < min b (t.start (k + 1)) then
    some ⟨k,max a (t.start k) - t.start k,min b (t.start (k + 1)) - max a (t.start k)⟩
  else none

-- The bytes from a to b, cut where files end.
def split (t : Files) (a b : Nat) : List FileRange := (List.range t.numFiles).filterMap (inFile t a b)

section Split
variable {t : Files} {a b k m len : Nat}

theorem range_at (inside : k < n) : List.range n = List.range k ++ k :: (List.range (n - (k + 1))).map (k + 1 + ·) := by
  have sum : n = k + 1 + (n - (k + 1)) := by omega
  have parts := List.range_add (n := k + 1) (m := n - (k + 1))
  rw [← sum,List.range_succ,List.append_assoc] at parts
  exact parts

theorem filterMap_none {l : List Nat} {f : Nat → Option FileRange} (none : ∀ j ∈ l, f j = none) : l.filterMap f = [] := by
  rw [List.filterMap_eq_nil_iff]
  exact none

theorem inFile_before (less : t.start (k + 1) ≤ a) : inFile t a b k = none := by
  unfold inFile
  rw [if_neg]
  omega

theorem inFile_behind (less : b ≤ t.start k) : inFile t a b k = none := by
  unfold inFile
  rw [if_neg]
  omega

theorem split_of_le (none : b ≤ a) : split t a b = [] := by
  apply filterMap_none
  intro j _
  unfold inFile
  rw [if_neg]
  omega

theorem split_upTo (inside : k < t.numFiles) (upTo : b ≤ t.start (k + 1)) :
    split t a b = (List.range k).filterMap (inFile t a b) ++ (inFile t a b k).toList := by
  have rest : ((List.range (t.numFiles - (k + 1))).map (k + 1 + ·)).filterMap (inFile t a b) = [] := by
    apply filterMap_none
    intro j mem
    obtain ⟨i,_,rfl⟩ := List.mem_map.mp mem
    exact inFile_behind (Nat.le_trans upTo (t.start_mono (Nat.le_add_right _ _)))
  unfold split
  rw [range_at inside,List.filterMap_append,List.filterMap_cons,rest]
  cases inFile t a b k <;> rfl

-- Bytes of one file behind what is there: this is how fillRangeList goes on.
theorem addRange_split (inside : k < t.numFiles) (from_ : t.start k ≤ m) (upTo : m + len ≤ t.start (k + 1)) (some_ : 0 < len)
    (behind : a ≤ m) : WebSeed.addRange (split t a m) ⟨k,m - t.start k,len⟩ = split t a (m + len) := by
  have before : (List.range k).filterMap (inFile t a (m + len)) = (List.range k).filterMap (inFile t a m) := by
    apply List.filterMap_congr
    intro j mem
    have less := t.start_mono (show j + 1 ≤ k from List.mem_range.mp mem)
    unfold inFile
    rw [show min (m + len) (t.start (j + 1)) = min m (t.start (j + 1)) by omega]
  have here : inFile t a (m + len) k = some ⟨k,max a (t.start k) - t.start k,m + len - max a (t.start k)⟩ := by
    unfold inFile
    rw [if_pos (by omega),show min (m + len) (t.start (k + 1)) = m + len by omega]
  rw [split_upTo inside (show m ≤ _ by omega),split_upTo inside upTo,before,here]
  unfold WebSeed.addRange
  by_cases more : max a (t.start k) < m
  · have there : inFile t a m k = some ⟨k,max a (t.start k) - t.start k,m - max a (t.start k)⟩ := by
      unfold inFile
      rw [if_pos (by omega),show min m (t.start (k + 1)) = m by omega]
    rw [there,Option.toList_some,List.getLast?_concat]
    simp only [ne_eq,not_true_eq_false,if_false,List.dropLast_concat,Option.toList_some]
    rw [show m - max a (t.start k) + len = m + len - max a (t.start k) by omega]
  · have there : inFile t a m k = none := by
      unfold inFile
      rw [if_neg (by omega)]
    have same : max a (t.start k) = m := by omega
    rw [there,Option.toList_none,List.append_nil,same,Nat.add_sub_cancel_left,Option.toList_some]
    cases last : ((List.range k).filterMap (inFile t a m)).getLast? with
    | none =>
      rw [List.getLast?_eq_none_iff] at last
      rw [last]
      rfl
    | some l =>
      have other : l.file < k := by
        obtain ⟨j,mem,eq⟩ := List.mem_filterMap.mp (List.mem_of_getLast? last)
        unfold inFile at eq
        split at eq
        · cases eq
          exact List.mem_range.mp mem
        · cases eq
      dsimp only
      rw [if_pos (by omega)]

-- The first of the ranges starts at a and ends with its file or at b.
theorem split_first (less : a < b) (whole : b ≤ t.totalSize) : ∃ r, split t a b = r :: split t (a + r.len) b ∧
    t.start r.file + r.off = a ∧ 0 < r.len ∧ a + r.len = min b (t.start (r.file + 1)) ∧ r.file < t.numFiles := by
  obtain ⟨k,inside,low,high⟩ := exists_file (t := t) (x := a) (by omega)
  rw [← start_succ] at high
  refine ⟨⟨k,a - t.start k,min b (t.start (k + 1)) - a⟩,?_,by dsimp only; omega,by dsimp only; omega,by dsimp only; omega,inside⟩
  have ends : a + (min b (t.start (k + 1)) - a) = min b (t.start (k + 1)) := by omega
  dsimp only
  rw [ends]
  have first : (List.range k).filterMap (inFile t a b) = [] := by
    apply filterMap_none
    intro j mem
    exact inFile_before (Nat.le_trans (t.start_mono (show j + 1 ≤ k from List.mem_range.mp mem)) low)
  have again : (List.range k).filterMap (inFile t (min b (t.start (k + 1))) b) = [] := by
    apply filterMap_none
    intro j mem
    have less := t.start_mono (show j + 1 ≤ k + 1 from Nat.le_succ_of_le (List.mem_range.mp mem))
    unfold inFile
    rw [if_neg]
    omega
  have here : inFile t a b k = some ⟨k,a - t.start k,min b (t.start (k + 1)) - a⟩ := by
    unfold inFile
    rw [show max a (t.start k) = a by omega,if_pos (by omega)]
  have done : inFile t (min b (t.start (k + 1))) b k = none := by
    unfold inFile
    rw [if_neg]
    omega
  have rest : ((List.range (t.numFiles - (k + 1))).map (k + 1 + ·)).filterMap (inFile t (min b (t.start (k + 1))) b) =
      ((List.range (t.numFiles - (k + 1))).map (k + 1 + ·)).filterMap (inFile t a b) := by
    apply List.filterMap_congr
    intro j mem
    obtain ⟨i,_,rfl⟩ := List.mem_map.mp mem
    have later := t.start_mono (Nat.le_add_right (k + 1) i)
    unfold inFile
    rw [show max (min b (t.start (k + 1))) (t.start (k + 1 + i)) = max a (t.start (k + 1 + i)) by omega]
  unfold split
  rw [range_at inside,List.filterMap_append,List.filterMap_append,List.filterMap_cons,List.filterMap_cons,first,again,here,done,rest]
  rfl

end Split

section Fill
variable {t : Files} {a c k : Nat}

theorem fillFiles_rest (fits : t.chunkSize < 4294967296) (inside : c < t.numChunks) (before : a ≤ c * t.chunkSize) (n : Nat)
    (left : k + n = t.numFiles) (i : Nat) (later : 0 < i) (passed : Nat) (here : t.start k = c * t.chunkSize + passed)
    (ends : filesOf t c k = [] → passed = t.chunkLen c) :
    WebSeed.fillFiles t c (i + (filesOf t c k).length) i passed (filesOf t c k) (split t a (c * t.chunkSize + passed)) =
      split t a (c * t.chunkSize + t.chunkLen c) := by
  induction n generalizing k i passed with
  | zero =>
    have none : filesOf t c k = [] := filesOf_end (by omega)
    rw [none,WebSeed.fillFiles,ends none]
  | succ n more =>
    have len := chunkLen_eq fits inside
    have whole := lt_numChunks.mp inside
    by_cases overlaps : Overlaps t c k
    · have list : filesOf t c k = k :: filesOf t c (k + 1) := by rw [filesOf_step (by omega),if_pos overlaps]
      have total := t.start_le (k + 1)
      rw [start_succ] at total
      obtain ⟨some_,first,_⟩ := overlaps
      rw [Nat.succ_mul] at first
      have off : (⟨k,0,t.chunkLen c - passed⟩ : FileRange) = ⟨k,c * t.chunkSize + passed - t.start k,t.chunkLen c - passed⟩ := by
        rw [here,Nat.sub_self]
      have offSize : (⟨k,0,t.size k⟩ : FileRange) = ⟨k,c * t.chunkSize + passed - t.start k,t.size k⟩ := by
        rw [here,Nat.sub_self]
      rw [list,List.length_cons,WebSeed.fillFiles]
      have several : i + ((filesOf t c (k + 1)).length + 1) ≠ 1 := by omega
      simp only [if_neg several,if_neg (Nat.ne_of_gt later)]
      by_cases last : filesOf t c (k + 1) = []
      · have reaches := chunk_ends fits inside ⟨some_,by rw [Nat.succ_mul]; omega,by omega⟩ last
        simp only [last,List.length_nil,Nat.zero_add,if_true]
        rw [WebSeed.fillFiles,off,addRange_split (by omega) (by omega) (by rw [start_succ]; omega)
          (by omega) (by omega)]
        congr 1
        omega
      · have short := file_ends last
        have length := List.length_pos_iff.mpr last
        have unequal : i + 1 ≠ i + ((filesOf t c (k + 1)).length + 1) := by omega
        simp only [if_neg unequal]
        rw [offSize,addRange_split (by omega) (by omega) (by rw [start_succ]; omega) some_ (by omega),
          Nat.add_assoc (c * t.chunkSize)]
        have rest := more (k := k + 1) (by omega) (i + 1) (by omega) (passed + t.size k) (by rw [start_succ]; omega)
          fun none => absurd none last
        rw [show i + ((filesOf t c (k + 1)).length + 1) = i + 1 + (filesOf t c (k + 1)).length by omega]
        exact rest
    · have list : filesOf t c k = filesOf t c (k + 1) := by rw [filesOf_step (by omega),if_neg overlaps]
      by_cases empty : t.size k = 0
      · rw [list] at ends ⊢
        exact more (by omega) i later passed (by rw [start_succ]; omega) ends
      · have behind : (c + 1) * t.chunkSize ≤ t.start k := by
          refine Nat.le_of_not_lt fun first => overlaps ⟨by omega,first,by omega⟩
        have none : filesOf t c k = [] := by
          rw [list]
          apply List.eq_nil_iff_forall_not_mem.mpr
          intro j member
          obtain ⟨low,_,_,first,_⟩ := mem_filesOf.mp member
          have order := t.start_mono (show k ≤ j by omega)
          omega
        rw [none,WebSeed.fillFiles,ends none]

theorem lastChunkSize_last (last : (t.file k).lastChunk = c) : c * t.chunkSize + (t.file k).lastChunkSize = t.start k + t.size k := by
  have whole := t.start_le (k + 1)
  have long := t.long
  have few := t.few
  rw [start_succ] at whole
  have chunks : (t.start k + t.size k) / t.chunkSize ≤ t.totalSize / t.chunkSize := Nat.div_le_div_right whole
  unfold totalSize at whole chunks
  have small : t.start k + t.size k < 18446744073709551616 := by omega
  have fewer : (t.start k + t.size k) / t.chunkSize < 4294967296 := by omega
  have fields := (new_fields small fewer).2.2
  unfold file at last ⊢
  rw [last] at fields
  exact fields

theorem fillFiles_chunk (fits : t.chunkSize < 4294967296) (inside : c < t.numChunks) (before : a ≤ c * t.chunkSize) :
    WebSeed.fillFiles t c (filesOf t c 0).length 0 0 (filesOf t c 0) (split t a (c * t.chunkSize)) =
      split t a (c * t.chunkSize + t.chunkLen c) := by
  obtain ⟨k,list,few,overlaps,starts⟩ := filesOf_head inside
  have len := chunkLen_eq fits inside
  have whole := lt_numChunks.mp inside
  have positive := t.chunked
  have reaches := overlaps.2.2
  rw [list,List.length_cons,WebSeed.fillFiles]
  simp only [if_true,fileOffset_eq inside starts]
  by_cases last : filesOf t c (k + 1) = []
  · have ends := chunk_ends fits inside overlaps last
    simp only [last,List.length_nil,Nat.zero_add,if_true]
    rw [WebSeed.fillFiles,addRange_split few starts (by rw [start_succ]; omega) (by omega) before]
  · have short := file_ends last
    have length := List.length_pos_iff.mpr last
    have chunkOf : (t.file k).lastChunk = c := by
      rw [lastChunk_eq,if_pos overlaps.1]
      refine Nat.div_eq_of_lt_le ?_ ?_
      · omega
      · omega
    have size := lastChunkSize_last chunkOf
    have several : (filesOf t c (k + 1)).length + 1 ≠ 1 := by omega
    simp only [if_neg several,Nat.zero_add]
    rw [addRange_split few starts (by rw [start_succ]; omega) (by omega) before]
    have rest := fillFiles_rest fits inside before (t.numFiles - (k + 1)) (k := k + 1) (by omega) 1 (by omega) (t.file k).lastChunkSize
      (by rw [start_succ]; omega) fun none => absurd none last
    rw [Nat.add_comm 1] at rest
    exact rest

end Fill

namespace WebSeed
variable {tor : Seeded}

def endOf (t : Files) (c : Nat) : Nat := c * t.chunkSize + t.chunkLen c

theorem endOf_eq (fits : t.chunkSize < 4294967296) (inside : c < t.numChunks) : endOf t c = min ((c + 1) * t.chunkSize) t.totalSize := by
  have whole := lt_numChunks.mp inside
  unfold endOf
  rw [chunkLen_eq fits inside,Nat.succ_mul]
  omega

theorem endOf_le (fits : t.chunkSize < 4294967296) (inside : c < t.numChunks) : endOf t c ≤ t.totalSize := by
  rw [endOf_eq fits inside]
  exact Nat.min_le_right _ _

theorem endOf_next (fits : t.chunkSize < 4294967296) (inside : c + 1 < t.numChunks) : endOf t c = (c + 1) * t.chunkSize := by
  have whole := lt_numChunks.mp inside
  rw [endOf_eq fits (Nat.lt_of_succ_lt inside)]
  omega

theorem fillRangeList_eq (fits : tor.files.chunkSize < 4294967296) (inside : c < tor.files.numChunks) (before : a ≤ c * tor.files.chunkSize)
    {s : WebSeed} (valid : PosValid tor.files s.cache) (queue : s.rangeQueue = split tor.files a (c * tor.files.chunkSize)) :
    ∃ cache, PosValid tor.files cache ∧ fillRangeList tor c s = {s with rangeQueue := split tor.files a (endOf tor.files c),cache := cache} := by
  obtain ⟨list,next⟩ := calcChunkPos_spec valid inside
  refine ⟨_,next,?_⟩
  show ({s with
    rangeQueue := fillFiles tor.files c (tor.files.calcChunkPos s.cache c).1.length 0 0 (tor.files.calcChunkPos s.cache c).1 s.rangeQueue,
    cache := (tor.files.calcChunkPos s.cache c).2} : WebSeed) = _
  rw [queue,list,fillFiles_chunk fits inside before]
  rfl

theorem fillRanges_eq (fits : tor.files.chunkSize < 4294967296) {s : WebSeed} (valid : PosValid tor.files s.cache)
    (order : s.firstChunk ≤ s.lastChunk) (inside : s.lastChunk < tor.files.numChunks) : ∃ cache, PosValid tor.files cache ∧
      s.fillRanges tor = {s with
        rangeQueue := split tor.files (s.firstChunk * tor.files.chunkSize) (endOf tor.files s.lastChunk),cache := cache} := by
  suffices each : ∀ n, s.firstChunk + n < tor.files.numChunks → ∃ cache, PosValid tor.files cache ∧
      (List.range' s.firstChunk (n + 1)).foldl (fun s chunk => fillRangeList tor chunk s) {s with rangeQueue := []} =
        {s with rangeQueue := split tor.files (s.firstChunk * tor.files.chunkSize) (endOf tor.files (s.firstChunk + n)),cache := cache} by
    have all := each (s.lastChunk - s.firstChunk) (by omega)
    unfold fillRanges upTo
    rwa [show s.firstChunk + (s.lastChunk - s.firstChunk) = s.lastChunk by omega,
      show s.lastChunk - s.firstChunk + 1 = s.lastChunk + 1 - s.firstChunk by omega] at all
  intro n
  induction n with
  | zero =>
    intro first
    exact fillRangeList_eq fits first (Nat.le_refl _) (s := {s with rangeQueue := []}) valid (split_of_le (Nat.le_refl _)).symm
  | succ n more =>
    intro next
    obtain ⟨cache,valid,folded⟩ := more (by omega)
    have ends := endOf_next fits (show s.firstChunk + n + 1 < tor.files.numChunks by omega)
    rw [List.range'_concat,List.foldl_append,folded,ends,Nat.one_mul]
    exact fillRangeList_eq fits next (Nat.mul_le_mul_right _ (by omega))
      (s := {s with rangeQueue := split tor.files (s.firstChunk * tor.files.chunkSize) ((s.firstChunk + (n + 1)) * tor.files.chunkSize),cache := cache})
      valid rfl

-- When a file starts at the resume point, the ranges that are skipped are those
-- of the bytes before it.
theorem skipRanges_eq {t : Files} {p b bytes length : Nat} (small : bytes < 4294967296) (inside : p + bytes < b) (whole : b ≤ t.totalSize)
    (starts : t.start j = p + bytes) (queue : List FileRange) (ranges : queue = split t (p + length) b) (less : length ≤ bytes) :
    ∃ r rest, skipRanges bytes length queue = (some r,rest) ∧ split t (p + bytes) b = r :: rest := by
  induction queue generalizing length with
  | nil =>
    obtain ⟨r,first,_⟩ := split_first (t := t) (a := p + length) (b := b) (by omega) whole
    rw [first] at ranges
    cases ranges
  | cons r queue more =>
    obtain ⟨r',first,begins,some_,ends,_⟩ := split_first (t := t) (a := p + length) (b := b) (by omega) whole
    rw [first] at ranges
    obtain ⟨rfl,rest⟩ := List.cons.inj ranges
    unfold skipRanges
    split
    · have same : length = bytes := by omega
      exact ⟨r,queue,rfl,by rw [← same,first,rest]⟩
    · have later : r.file + 1 ≤ j := by
        refine Nat.lt_of_not_le fun before => ?_
        have := t.start_mono before
        omega
      have upTo := t.start_mono later
      have short : length + r.len ≤ bytes := by omega
      rw [uint32_of_lt (by omega)]
      rw [Nat.add_assoc] at rest
      exact more rest short

end WebSeed

end KtorrentStream.Download
