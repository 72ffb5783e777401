import KtorrentStream.Diskio.AddressMap
import KtorrentStream.Torrent.Metadata
import KtorrentStream.Torrent.TorrentCreator
set_option autoImplicit true

namespace KtorrentStream.Torrent
open Util Bcodec Diskio Files
open Diskio.MultiFileCache (chunkLen_eq fileOffset_eq)

namespace TorrentCreator

-- The files of a list of entries, the first of them with number k.
def made (t : Files) : Nat → List (List Char × List UInt8) → List CreatedFile
  | _,[] => []
  | k,e :: rest => ⟨e.1,e.2,t.file k⟩ :: made t (k + 1) rest

-- The bytes of the files, one behind the other.
def whole (entries : List (List Char × List UInt8)) : List UInt8 := (entries.map Prod.snd).flatten

section Made
variable {t : Files} {entries : List (List Char × List UInt8)} {c k : Nat}

theorem mem_made (mem : f ∈ made t k es) : ∃ j, k ≤ j ∧ f.file = t.file j := by
  induction es generalizing k with
  | nil => cases mem
  | cons e es more =>
    rcases List.mem_cons.mp mem with rfl | later
    · exact ⟨k,Nat.le_refl k,rfl⟩
    · obtain ⟨j,less,file⟩ := more later
      exact ⟨j,by omega,file⟩

-- The files that calcHashMulti finds for a chunk, those without bytes as well.
def inChunk (c : Nat) (f : CreatedFile) : Bool := decide (f.file.firstChunk ≤ c) && decide (c ≤ f.file.lastChunk)

theorem has_of_start (from_ : c * t.chunkSize ≤ t.start k) (upTo : t.start k < (c + 1) * t.chunkSize) : t.has c k = true := by
  have first : t.start k / t.chunkSize = c := Nat.div_eq_of_lt_le from_ upTo
  have less : c ≤ (t.file k).lastChunk := by
    rw [lastChunk_eq]
    split
    · exact (Nat.le_div_iff_mul_le t.chunked).mpr (by omega)
    · omega
  unfold has
  rw [firstChunk_eq,first,decide_eq_true (Nat.le_refl c),decide_eq_true less]
  rfl

theorem start_of_has (here : t.has c k = true) : t.start k < (c + 1) * t.chunkSize ∧ c * t.chunkSize ≤ t.start (k + 1) := by
  unfold has at here
  rw [Bool.and_eq_true,decide_eq_true_iff,decide_eq_true_iff,firstChunk_eq,lastChunk_eq,← Nat.lt_succ_iff,Nat.div_lt_iff_lt_mul t.chunked] at here
  refine ⟨here.1,?_⟩
  rw [start_succ]
  have last := here.2
  split at last
  · have := (Nat.le_div_iff_mul_le t.chunked).mp last
    omega
  · have := (Nat.le_div_iff_mul_le t.chunked).mp last
    omega

-- When no later file is in the chunk, this one goes to the end of the chunk.
theorem ends_here (fits : t.chunkSize < 4294967296) (inside : c < t.numChunks) (count : k + 1 + es.length = t.numFiles)
    (from_ : c * t.chunkSize ≤ t.start (k + 1)) (none : (made t (k + 1) es).filter (inChunk c) = []) :
    c * t.chunkSize + t.chunkLen c ≤ t.start (k + 1) := by
  have len := chunkLen_eq fits inside
  cases es with
  | nil =>
    rw [List.length_nil,Nat.add_zero] at count
    rw [count,start_numFiles]
    have := lt_numChunks.mp inside
    omega
  | cons e es =>
    refine Nat.le_of_not_lt fun short => ?_
    have here : t.has c (k + 1) = true := has_of_start from_ (by rw [Nat.succ_mul]; omega)
    have mem : (⟨e.1,e.2,t.file (k + 1)⟩ : CreatedFile) ∈ (made t (k + 1) (e :: es)).filter (inChunk c) :=
      List.mem_filter.mpr ⟨List.mem_cons_self,here⟩
    rw [none] at mem
    cases mem

theorem ends_inside (fits : t.chunkSize < 4294967296) (inside : c < t.numChunks) (some_ : (made t (k + 1) es).filter (inChunk c) ≠ []) :
    t.start (k + 1) < (c + 1) * t.chunkSize ∧ t.start (k + 1) ≤ c * t.chunkSize + t.chunkLen c := by
  obtain ⟨f,mem⟩ := List.exists_mem_of_ne_nil _ some_
  obtain ⟨was,here⟩ := List.mem_filter.mp mem
  obtain ⟨j,later,file⟩ := mem_made was
  have hasIt : t.has c j = true := by
    unfold has
    rw [← file]
    exact here
  have first := (start_of_has hasIt).1
  have order := t.start_mono later
  have len := chunkLen_eq fits inside
  have total := t.start_le (k + 1)
  rw [Nat.succ_mul] at first ⊢
  omega

end Made

section Reading
variable {t : Files} {entries : List (List Char × List UInt8)} {creator : TorrentCreator} {c k s read : Nat}

theorem whole_drop (sizes : t.sizes = entries.map fun e => e.2.length) (k : Nat) : (whole entries).drop (t.start k) = whole (entries.drop k) := by
  unfold Files.start
  rw [sizes]
  clear sizes
  induction entries generalizing k with
  | nil => simp [whole]
  | cons e entries more =>
    cases k with
    | zero => rfl
    | succ k =>
      have rest := more k
      unfold whole at rest ⊢
      rw [List.map_cons,List.take_succ_cons,List.sum_cons,List.drop_succ_cons,List.map_cons,List.flatten_cons,List.drop_append]
      rw [List.drop_eq_nil_of_le (Nat.le_add_right _ _),List.nil_append,Nat.add_sub_cancel_left]
      exact rest

theorem size_of_entry (sizes : t.sizes = entries.map fun e => e.2.length) (here : entries.drop k = e :: es) : t.size k = e.2.length := by
  have found : entries[k]? = some e := by
    have first := congrArg List.head? here
    rwa [List.head?_drop] at first
  unfold Files.size
  rw [sizes,List.getD_eq_getElem?_getD,List.getElem?_map,found]
  rfl

theorem part_eq (sizes : t.sizes = entries.map fun e => e.2.length) (here : entries.drop k = e :: es) (room : off + n ≤ t.size k) :
    (e.2.drop off).take n = ((whole entries).drop (t.start k + off)).take n ∧ ((e.2.drop off).take n).length = n := by
  rw [size_of_entry sizes here] at room
  have rest : (whole entries).drop (t.start k) = e.2 ++ whole es := by
    rw [whole_drop sizes,here]
    rfl
  constructor
  · rw [← List.drop_drop,rest,List.drop_append_of_le_length (by omega),List.take_append_of_le_length (by rw [List.length_drop]; omega)]
  · rw [List.length_take,List.length_drop]
    omega

structure Filled (bytes : List UInt8) (s read : Nat) (buf : List UInt8) : Prop where
  length : buf.length = s
  front : buf.take read = bytes.take read

theorem Filled.splice {piece : List UInt8} (filled : Filled bytes s read buf) (room : read + n ≤ s)
    (same : piece = (bytes.drop read).take n) (count : piece.length = n) : Filled bytes s (read + n) (CacheFile.splice buf piece read) := by
  have length := filled.length
  have front : (buf.take read).length = read := by
    rw [List.length_take]
    omega
  unfold CacheFile.splice
  constructor
  · rw [List.length_append,List.length_append,front,List.length_drop]
    omega
  · rw [List.take_append_of_le_length (by rw [List.length_append,front]; omega),List.take_of_length_le (by rw [List.length_append,front]; omega),
      filled.front,same,← List.take_add]

theorem Filled.all (filled : Filled bytes s s buf) : buf = bytes.take s := by
  have front := filled.front
  rwa [List.take_of_length_le (Nat.le_of_eq filled.length)] at front

-- One file is read: n bytes of it go to the array.
theorem readFiles_step (sizes : t.sizes = entries.map fun e => e.2.length) (here : entries.drop k = e :: es) (room : off + n ≤ t.size k)
    (at_ : t.start k + off = c * t.chunkSize + read) (upTo : read + n ≤ s)
    (filled : Filled ((whole entries).drop (c * t.chunkSize)) s read buf) :
    read + ((e.2.drop off).take n).length ≤ s ∧
    Filled ((whole entries).drop (c * t.chunkSize)) s (read + n) (CacheFile.splice buf ((e.2.drop off).take n) read) := by
  obtain ⟨bytes,length⟩ := part_eq sizes here room
  rw [at_,← List.drop_drop] at bytes
  exact ⟨length.symm ▸ upTo,filled.splice upTo bytes length⟩

theorem filter_made (c : Nat) (e : List Char × List UInt8) (es : List (List Char × List UInt8)) : (made t k (e :: es)).filter (inChunk c) =
    if t.has c k = true then ⟨e.1,e.2,t.file k⟩ :: (made t (k + 1) es).filter (inChunk c) else (made t (k + 1) es).filter (inChunk c) := by
  rw [made,List.filter_cons]
  rfl

theorem count_of_drop (sizes : t.sizes = entries.map fun e => e.2.length) (here : entries.drop k = e :: es) : k + 1 + es.length = t.numFiles := by
  have length := congrArg List.length here
  rw [List.length_drop,List.length_cons] at length
  unfold numFiles
  rw [sizes,List.length_map]
  omega

theorem drop_next (here : entries.drop k = e :: es) : entries.drop (k + 1) = es := by
  rw [← List.drop_drop,here]
  rfl

theorem filter_behind (behind : (c + 1) * t.chunkSize ≤ t.start k) (es : List (List Char × List UInt8)) : (made t k es).filter (inChunk c) = [] := by
  apply List.filter_eq_nil_iff.mpr
  intro f mem here
  obtain ⟨j,later,file⟩ := mem_made mem
  have hasIt : t.has c j = true := by
    unfold has
    rw [← file]
    exact here
  have first := (start_of_has hasIt).1
  have order := t.start_mono later
  omega

theorem readFiles_rest (fits : t.chunkSize < 2147483648) (inside : c < t.numChunks) (sizes : t.sizes = entries.map fun e => e.2.length)
    (es : List (List Char × List UInt8)) (here : entries.drop k = es) (i : Nat) (later : 0 < i) (read : Nat)
    (at_ : t.start k = c * t.chunkSize + read) (upTo : read ≤ t.chunkLen c)
    (filled : Filled ((whole entries).drop (c * t.chunkSize)) (t.chunkLen c) read buf)
    (ends : (made t k es).filter (inChunk c) = [] → read = t.chunkLen c) :
    creator.readFiles (t.chunkLen c) (i + ((made t k es).filter (inChunk c)).length) i read ((made t k es).filter (inChunk c)) buf =
      some (((whole entries).drop (c * t.chunkSize)).take (t.chunkLen c)) := by
  have len := chunkLen_eq (show t.chunkSize < 4294967296 by omega) inside
  induction es generalizing k i read buf with
  | nil =>
    have all := ends rfl
    subst all
    rw [made,List.filter_nil,readFiles,filled.all]
  | cons e es more =>
    have starts := start_succ t k
    have size := size_of_entry sizes here
    by_cases mine : t.has c k = true
    · rw [filter_made,if_pos mine,List.length_cons,readFiles]
      have several : i + (((made t (k + 1) es).filter (inChunk c)).length + 1) ≠ 1 := by omega
      simp only [if_neg several,if_neg (Nat.ne_of_gt later)]
      by_cases last : (made t (k + 1) es).filter (inChunk c) = []
      · have reaches := ends_here (by omega) inside (count_of_drop sizes here) (by omega) last
        have to_ : uint32 (uint32Sub (t.chunkLen c) read) = t.chunkLen c - read := by
          rw [uint32Sub_of_le upTo (by omega),uint32_of_lt (by omega)]
        obtain ⟨room,next⟩ := readFiles_step sizes here (show 0 + (t.chunkLen c - read) ≤ t.size k by omega) at_ (by omega) filled
        rw [show read + (t.chunkLen c - read) = t.chunkLen c by omega] at next
        simp only [last,List.length_nil,Nat.zero_add,if_true,to_]
        rw [if_pos room,readFiles,next.all]
      · obtain ⟨before,short⟩ := ends_inside (by omega) inside last
        have positive := List.length_pos_iff.mpr last
        have to_ : uint32 e.2.length = t.size k := by
          rw [size,uint32_of_lt (by omega)]
        have sum : uint32 (read + t.size k) = read + t.size k := uint32_of_lt (by omega)
        obtain ⟨room,next⟩ := readFiles_step sizes here (show 0 + t.size k ≤ t.size k by omega) at_ (by omega) filled
        have notLast : ¬ i + 1 = i + (((made t (k + 1) es).filter (inChunk c)).length + 1) := by omega
        simp only [if_neg notLast,to_]
        rw [if_pos room,sum,← Nat.add_assoc,Nat.add_right_comm]
        exact more (drop_next here) (i + 1) (by omega) (read + t.size k) (by omega) (by omega) next fun none => absurd none last
    · have behind : (c + 1) * t.chunkSize ≤ t.start k := Nat.le_of_not_lt fun less => mine (has_of_start (by omega) less)
      have all := ends (filter_behind behind (e :: es))
      subst all
      rw [filter_behind behind,readFiles,filled.all]

theorem start_of_drop_nil (sizes : t.sizes = entries.map fun e => e.2.length) (none : entries.drop k = []) : t.start k = t.totalSize := by
  have past : t.sizes.length ≤ k := by
    rw [sizes,List.length_map]
    exact List.drop_eq_nil_iff.mp none
  unfold Files.start totalSize
  rw [List.take_of_length_le past]

theorem ends_before (starts : t.start k ≤ c * t.chunkSize) (other : ¬ t.has c k = true) : t.start (k + 1) ≤ c * t.chunkSize := by
  refine Nat.le_of_not_lt fun ends => other ?_
  have positive := t.chunked
  rw [start_succ] at ends
  have overlaps : Overlaps t c k := ⟨by omega,by rw [Nat.succ_mul]; omega,ends⟩
  have both := overlaps_iff.mp overlaps
  rw [Bool.and_eq_true] at both
  exact both.1

theorem lastChunkSize_eq (here : t.has c k = true) (ends : t.start (k + 1) < (c + 1) * t.chunkSize) :
    c * t.chunkSize + (t.file k).lastChunkSize = t.start (k + 1) := by
  have long := t.long
  have few := t.few
  have total := t.start_le (k + 1)
  have next := start_succ t k
  have quotient : (t.start k + t.size k) / t.chunkSize ≤ t.totalSize / t.chunkSize := Nat.div_le_div_right (by omega)
  have limit : t.totalSize = t.sizes.sum := rfl
  rw [← limit] at long few
  obtain ⟨_,_,parts⟩ := new_fields (show t.start k + t.size k < 18446744073709551616 by omega)
    (show (t.start k + t.size k) / t.chunkSize < 4294967296 by omega)
  have last : (t.file k).lastChunk = c := by
    apply Nat.le_antisymm
    · rw [lastChunk_eq]
      apply Nat.lt_succ_iff.mp
      split
      · exact (Nat.div_lt_iff_lt_mul t.chunked).mpr (by rw [Nat.succ_eq_add_one]; omega)
      · exact (Nat.div_lt_iff_lt_mul t.chunked).mpr (by rw [Nat.succ_eq_add_one]; omega)
    · unfold has at here
      rw [Bool.and_eq_true,decide_eq_true_iff,decide_eq_true_iff] at here
      exact here.2
  change (t.file k).lastChunk * t.chunkSize + (t.file k).lastChunkSize = _ at parts
  rw [last] at parts
  omega

theorem readFiles_first (fits : t.chunkSize < 2147483648) (inside : c < t.numChunks) (sizes : t.sizes = entries.map fun e => e.2.length)
    (cur : creator.curChunk = c) (chunks : creator.chunkSize = t.chunkSize) (room : buf.length = t.chunkLen c)
    (es : List (List Char × List UInt8)) (here : entries.drop k = es) (starts : t.start k ≤ c * t.chunkSize) :
    creator.readFiles (t.chunkLen c) ((made t k es).filter (inChunk c)).length 0 0 ((made t k es).filter (inChunk c)) buf =
      some (((whole entries).drop (c * t.chunkSize)).take (t.chunkLen c)) := by
  have len := chunkLen_eq (show t.chunkSize < 4294967296 by omega) inside
  have before := lt_numChunks.mp inside
  have empty : Filled ((whole entries).drop (c * t.chunkSize)) (t.chunkLen c) 0 buf := ⟨room,rfl⟩
  induction es generalizing k with
  | nil =>
    have total := start_of_drop_nil sizes here
    omega
  | cons e es more =>
    by_cases mine : t.has c k = true
    · have next := start_succ t k
      have reach := (start_of_has mine).2
      have offset : (t.file k).fileOffset creator.curChunk creator.chunkSize = c * t.chunkSize - t.start k := by
        rw [cur,chunks]
        exact fileOffset_eq inside starts
      rw [filter_made,if_pos mine,List.length_cons,readFiles]
      simp only [if_true,offset]
      by_cases only_ : (made t (k + 1) es).filter (inChunk c) = []
      · have ends := ends_here (by omega) inside (count_of_drop sizes here) reach only_
        have to_ : uint32 (t.chunkLen c) = t.chunkLen c := uint32_of_lt (by omega)
        obtain ⟨room,filled⟩ := readFiles_step sizes here
          (show c * t.chunkSize - t.start k + t.chunkLen c ≤ t.size k by omega) (by omega) (by omega) empty
        rw [Nat.zero_add (t.chunkLen c)] at filled
        simp only [only_,List.length_nil,Nat.zero_add,if_true,to_]
        rw [Nat.zero_add] at room
        rw [if_pos room,readFiles,filled.all]
      · obtain ⟨less,short⟩ := ends_inside (by omega) inside only_
        have several : ¬ ((made t (k + 1) es).filter (inChunk c)).length + 1 = 1 := by
          have := List.length_pos_iff.mpr only_
          omega
        have last := lastChunkSize_eq mine less
        have to_ : uint32 (t.file k).lastChunkSize = (t.file k).lastChunkSize := uint32_of_lt (by omega)
        obtain ⟨room,filled⟩ := readFiles_step sizes here
          (show c * t.chunkSize - t.start k + (t.file k).lastChunkSize ≤ t.size k by omega) (by omega) (by omega) empty
        simp only [if_neg several,to_]
        rw [if_pos room,Nat.zero_add (t.file k).lastChunkSize,to_,Nat.add_comm _ 1]
        rw [Nat.zero_add] at filled
        exact readFiles_rest fits inside sizes es (drop_next here) 1 Nat.one_pos _ (by omega) (by omega) filled fun none => absurd none only_
    · rw [filter_made,if_neg mine]
      exact more (drop_next here) (ends_before starts mine)

end Reading

def chunkBytes (t : Files) (entries : List (List Char × List UInt8)) (c : Nat) : List UInt8 :=
  ((whole entries).drop (c * t.chunkSize)).take (t.chunkLen c)

section Loop
variable {t : Files} {entries : List (List Char × List UInt8)}

theorem addFiles (sizes : t.sizes = entries.map fun e => e.2.length) (es : List (List Char × List UInt8)) (here : entries.drop k = es)
    (done : List CreatedFile) : es.foldl (addFile t.chunkSize) (done,t.start k) = (done ++ made t k es,t.totalSize) := by
  induction es generalizing k done with
  | nil => rw [List.foldl_nil,made,List.append_nil,start_of_drop_nil sizes here]
  | cons e es more =>
    have size := size_of_entry sizes here
    have total := t.start_le (k + 1)
    have long : t.totalSize < 9223372036854775808 := t.long
    have step : addFile t.chunkSize (done,t.start k) e = (done ++ [⟨e.1,e.2,t.file k⟩],t.start (k + 1)) := by
      unfold addFile file
      rw [size,start_succ,size,uint64_of_lt (by rw [← size,← start_succ]; omega)]
    rw [List.foldl_cons,step,more (drop_next here),made,List.append_assoc]
    rfl

theorem numChunks_eq (t : Files) : countChunks t.totalSize t.chunkSize = t.numChunks := by
  have small := MultiFileCache.numChunks_small t
  have same : chunkCount t.totalSize t.chunkSize = t.numChunks := rfl
  rw [countChunks_eq,same,uint32_of_lt (by omega)]

structure Built (t : Files) (entries : List (List Char × List UInt8)) (c : TorrentCreator) : Prop where
  files : c.files = made t 0 entries
  chunkSize : c.chunkSize = t.chunkSize
  numChunks : c.numChunks = t.numChunks
  lastSize : c.lastSize = if t.totalSize % t.chunkSize = 0 then t.chunkSize else t.totalSize % t.chunkSize
  curChunk : c.curChunk = 0
  hashes : c.hashes = []

theorem new_built {trackers webseeds : List (List Char)} {name comments : List Char} {priv decentralized : Bool} (target : Dir)
    (sizes : t.sizes = (target.entries []).map fun e => e.2.length) (chunks : t.chunkSize = cs * 1024) :
    Built t (target.entries []) (new target trackers webseeds cs name comments priv decentralized) := by
  have files := addFiles sizes (target.entries []) List.drop_zero []
  rw [List.nil_append] at files
  change (target.entries []).foldl (addFile t.chunkSize) ([],0) = _ at files
  unfold new
  rw [← chunks]
  dsimp only
  rw [files]
  exact ⟨rfl,rfl,numChunks_eq t,rfl,rfl,rfl⟩

variable {env : Surroundings} {c : TorrentCreator}

def hashedUpTo (env : Surroundings) (t : Files) (entries : List (List Char × List UInt8)) (c : TorrentCreator) (n : Nat) : TorrentCreator :=
  {c with
    hashes := (List.range n).map fun i => env.generate (chunkBytes t entries i)
    curChunk := n}

theorem chunkLength_eq (env : Surroundings) (fits : t.chunkSize < 2147483648) (built : Built t entries c) (inside : n < t.numChunks) :
    (hashedUpTo env t entries c n).chunkLength = t.chunkLen n := by
  have small := MultiFileCache.numChunks_small t
  have before := lt_numChunks.mp inside
  have len := chunkLen_eq (show t.chunkSize < 4294967296 by omega) inside
  unfold chunkLength
  show (if n ≠ uint32Sub c.numChunks 1 then c.chunkSize else c.lastSize) = _
  rw [built.numChunks,built.chunkSize,built.lastSize,uint32Sub_of_le (by omega) (by omega),len]
  by_cases last : n = t.numChunks - 1
  · have ends : ¬ (n + 1) * t.chunkSize < t.totalSize := fun more => by
      have := lt_numChunks.mpr more
      omega
    rw [Nat.succ_mul] at ends
    rw [if_neg (fun other => other last)]
    rcases Nat.eq_or_lt_of_le (Nat.le_of_not_lt ends) with full | part
    · have whole : t.totalSize % t.chunkSize = 0 := by
        rw [full,← Nat.succ_mul]
        exact Nat.mul_mod_left _ _
      rw [if_pos whole]
      omega
    · have rest : t.totalSize % t.chunkSize = t.totalSize - n * t.chunkSize := by
        conv_lhs => rw [show t.totalSize = t.totalSize - n * t.chunkSize + n * t.chunkSize by omega,Nat.add_mul_mod_self_right]
        exact Nat.mod_eq_of_lt (by omega)
      rw [rest,if_neg (by omega)]
      omega
  · have more := lt_numChunks.mp (show n + 1 < t.numChunks by omega)
    rw [Nat.succ_mul] at more
    rw [if_pos last]
    omega

theorem calculateHash_eq (fits : t.chunkSize < 2147483648) (sizes : t.sizes = entries.map fun e => e.2.length) (built : Built t entries c)
    (inside : n < t.numChunks) :
    (hashedUpTo env t entries c n).calculateHash env = some (decide (n + 1 ≥ t.numChunks),hashedUpTo env t entries c (n + 1)) := by
  have length := chunkLength_eq env fits built inside
  have list : (hashedUpTo env t entries c n).fileList = (made t 0 entries).filter (inChunk n) := by
    rw [← built.files]
    rfl
  have chunks : (hashedUpTo env t entries c n).chunkSize = t.chunkSize := built.chunkSize
  have room : ((List.range (t.chunkLen n)).map (env.memory n)).length = t.chunkLen n := by
    rw [List.length_map,List.length_range]
  have cur : (hashedUpTo env t entries c n).curChunk = n := rfl
  have bytes : (hashedUpTo env t entries c n).readFiles (t.chunkLen n) ((made t 0 entries).filter (inChunk n)).length 0 0
      ((made t 0 entries).filter (inChunk n)) ((List.range (t.chunkLen n)).map (env.memory n)) = some (chunkBytes t entries n) :=
    readFiles_first fits inside sizes cur chunks room entries List.drop_zero (Nat.zero_le _)
  have count : (hashedUpTo env t entries c n).numChunks = t.numChunks := built.numChunks
  unfold calculateHash calcHashMulti
  rw [length,list,cur,count,if_neg (Nat.not_le.mpr inside)]
  simp only [bytes]
  have more : (List.range (n + 1)).map (fun i => env.generate (chunkBytes t entries i)) =
      (List.range n).map (fun i => env.generate (chunkBytes t entries i)) ++ [env.generate (chunkBytes t entries n)] := by
    rw [List.range_succ,List.map_append]
    rfl
  unfold hashedUpTo
  rw [more,← built.numChunks]

theorem hashLoop_eq (fits : t.chunkSize < 2147483648) (sizes : t.sizes = entries.map fun e => e.2.length) (built : Built t entries c)
    (fuel : Nat) (upTo : n ≤ t.numChunks) (enough : t.numChunks < n + fuel) :
    hashLoop env fuel (hashedUpTo env t entries c n) = some (hashedUpTo env t entries c t.numChunks) := by
  induction fuel generalizing n with
  | zero => omega
  | succ fuel more =>
    unfold hashLoop
    rcases Nat.lt_or_eq_of_le upTo with inside | all
    · rw [calculateHash_eq fits sizes built inside]
      by_cases last : n + 1 ≥ t.numChunks
      · rw [decide_eq_true last,show t.numChunks = n + 1 by omega]
      · rw [decide_eq_false last]
        exact more (by omega) (by omega)
    · have count : (hashedUpTo env t entries c n).numChunks = n := built.numChunks.trans all.symm
      unfold calculateHash
      rw [count,if_pos (show (hashedUpTo env t entries c n).curChunk ≥ n from Nat.le_refl n),all]

theorem run_eq (fits : t.chunkSize < 2147483648) (sizes : t.sizes = entries.map fun e => e.2.length) (built : Built t entries c) :
    c.run env = some (hashedUpTo env t entries c t.numChunks) := by
  have start : c = hashedUpTo env t entries c 0 := by
    have cur := built.curChunk
    have none := built.hashes
    cases c
    cases cur
    cases none
    rfl
  unfold run
  rw [if_pos built.hashes,built.numChunks]
  conv_lhs => rw [start]
  exact hashLoop_eq fits sizes built (t.numChunks + 1) (Nat.zero_le _) (by omega)

end Loop

end TorrentCreator

end KtorrentStream.Torrent
