import KtorrentStream.Diskio.DNDFile
import KtorrentStream.Diskio.AddressMap
set_option autoImplicit true

namespace KtorrentStream.Diskio
open KtorrentStream.Util KtorrentStream.Torrent KtorrentStream.Torrent.Files

namespace DNDFile

theorem put_inside {data bytes : List UInt8} (low : pos ≤ i) (high : i < pos + bytes.length) : (put data bytes pos)[i]? = bytes[i - pos]? := by
  rw [put,if_neg (fun empty => by rw [empty,List.length_nil] at high; omega),CacheFile.splice_get,if_pos ⟨low,high⟩]
  rw [List.length_append,List.length_replicate]
  omega

theorem put_outside {data bytes : List UInt8} (out : ¬ (pos ≤ i ∧ i < pos + bytes.length)) (there : data[i]? = some byte) :
    (put data bytes pos)[i]? = some byte := by
  rw [put]
  split
  · exact there
  · rw [CacheFile.splice_get,if_neg out,List.getElem?_append_left (List.getElem?_eq_some_iff.mp there).1]
    · exact there
    · rw [List.length_append,List.length_replicate]
      omega

theorem put_length_le {data bytes : List UInt8} : (put data bytes pos).length ≤ max data.length (pos + bytes.length) := by
  rw [put]
  split
  · exact Nat.le_max_left _ _
  · rw [CacheFile.splice_length,List.length_append,List.length_replicate]
    · omega
    · rw [List.length_append,List.length_replicate]
      omega

end DNDFile

-- A file that starts with a chunk and ends in it, with another one behind it there.
def Misplaced (t : Files) (k : Nat) : Prop :=
  0 < t.size k ∧ t.start k % t.chunkSize = 0 ∧ t.size k < t.chunkSize ∧ t.start k + t.size k < t.totalSize

-- Where a byte of an excluded file is in its dnd file: only those of its first and
-- its last chunk are there.
def place (t : Files) (k g : Nat) : Option Nat :=
  if t.start k + g < ((t.file k).firstChunk + 1) * t.chunkSize then some g
  else if (t.file k).lastChunk * t.chunkSize ≤ t.start k + g then
    some (t.chunkSize - t.start k % t.chunkSize + (t.start k + g - (t.file k).lastChunk * t.chunkSize))
  else none

def Disk.byte (t : Files) (disk : Disk) (k g : Nat) : Option UInt8 :=
  match disk.dndFiles k with
  | none => fileByte disk.files k g
  | some d => (place t k g).bind fun i => d.data[i]?

structure Disk.Ok (t : Files) (disk : Disk) : Prop where
  files : FilesOk t disk.files
  placed : ∀ k d, disk.dndFiles k = some d → ¬ Misplaced t k ∧ d.firstSize = t.chunkSize - t.start k % t.chunkSize

structure First (t : Files) (c k : Nat) : Prop where
  starts : t.start k ≤ c * t.chunkSize
  some_ : c * t.chunkSize < t.start k + t.size k
  ends : t.start k + t.size k < (c + 1) * t.chunkSize
  more : t.start k + t.size k < t.totalSize

structure Later (t : Files) (c k : Nat) : Prop where
  starts : c * t.chunkSize < t.start k
  before : t.start k < (c + 1) * t.chunkSize

variable {t : Files} {disk : Disk} {d : DNDFile} {part : Part}

theorem first_or_later (inside : c < t.numChunks) (several : (filesOf t c 0).length ≠ 1) (inFile : g < t.size k)
    (low : c * t.chunkSize ≤ t.start k + g) (high : t.start k + g < (c + 1) * t.chunkSize) :
    k = (filesOf t c 0).headD 0 ∧ First t c k ∨ k ≠ (filesOf t c 0).headD 0 ∧ Later t c k := by
  obtain ⟨first,list,_,here,starts⟩ := MultiFileCache.filesOf_head inside
  have more : filesOf t c (first + 1) ≠ [] := fun none => several (by rw [list,none]; rfl)
  have ends := MultiFileCache.file_ends more
  have head : (filesOf t c 0).headD 0 = first := by rw [list]; rfl
  rw [head]
  by_cases same : k = first
  · subst same
    refine .inl ⟨rfl,starts,here.2.2,ends,?_⟩
    obtain ⟨j,member⟩ := List.exists_mem_of_ne_nil _ more
    obtain ⟨after,_,bytes,_⟩ := mem_filesOf.mp member
    have order := t.start_mono after
    have whole := t.start_le (j + 1)
    rw [start_succ] at order whole
    omega
  · refine .inr ⟨same,?_⟩
    have few : k < t.numFiles := by
      refine Nat.lt_of_not_le fun past => ?_
      rw [size_of_ge t past] at inFile
      exact Nat.not_lt_zero _ inFile
    have member : k ∈ filesOf t c 0 := mem_filesOf.mpr ⟨Nat.zero_le k,few,by omega,by omega,by omega⟩
    rw [list] at member
    rcases List.mem_cons.mp member with equal | behind
    · exact absurd equal same
    · have order := t.start_mono (mem_filesOf.mp behind).1
      rw [start_succ] at order
      have := here.2.2
      exact ⟨by omega,by omega⟩

theorem firstChunk_bounds (t : Files) (k : Nat) :
    (t.file k).firstChunk * t.chunkSize + t.start k % t.chunkSize = t.start k ∧ t.start k % t.chunkSize < t.chunkSize ∧
      ((t.file k).firstChunk + 1) * t.chunkSize = (t.file k).firstChunk * t.chunkSize + t.chunkSize := by
  refine ⟨?_,Nat.mod_lt _ t.chunked,Nat.succ_mul _ _⟩
  rw [firstChunk_eq,Nat.mul_comm]
  exact Nat.div_add_mod _ _

theorem Later.firstChunk (later : Later t c k) : (t.file k).firstChunk = c := by
  rw [firstChunk_eq]
  exact Nat.div_eq_of_lt_le (Nat.le_of_lt later.starts) later.before

theorem First.lastChunk (first : First t c k) : (t.file k).lastChunk = c := by
  have starts := first.starts
  have some_ := first.some_
  have ends := first.ends
  rw [lastChunk_eq,if_pos (by omega)]
  exact Nat.div_eq_of_lt_le (by omega) (by omega)

theorem First.beyond (first : First t c k) (well : ¬ Misplaced t k) : ((t.file k).firstChunk + 1) * t.chunkSize ≤ c * t.chunkSize := by
  have starts := first.starts
  have some_ := first.some_
  have ends := first.ends
  obtain ⟨parts,rest,succ⟩ := firstChunk_bounds t k
  have order : (t.file k).firstChunk ≤ c := by
    refine Nat.le_of_not_lt fun less => ?_
    have := Nat.mul_le_mul_right t.chunkSize (show c + 1 ≤ (t.file k).firstChunk from less)
    rw [Nat.succ_mul] at this
    have := t.chunked
    omega
  rcases Nat.lt_or_eq_of_le order with less | same
  · exact Nat.mul_le_mul_right _ less
  · refine absurd ⟨?_,?_,?_,first.more⟩ well
    · omega
    · rw [same] at parts
      omega
    · rw [Nat.succ_mul] at ends
      rw [same] at parts
      omega

-- The place of a part of the chunk in the dnd file, and that the rest of the file is
-- elsewhere.
structure Region (t : Files) (k off len pos : Nat) : Prop where
  inside : ∀ g, off ≤ g → g < off + len → place t k g = some (pos + (g - off))
  outside : ∀ g i, g < t.size k → ¬ (off ≤ g ∧ g < off + len) → place t k g = some i → ¬ (pos ≤ i ∧ i < pos + len)

theorem Later.region (later : Later t c k) (high : t.start k + (off + len) ≤ (c + 1) * t.chunkSize) : Region t k off len off := by
  obtain ⟨parts,rest,succ⟩ := firstChunk_bounds t k
  have same := later.firstChunk
  rw [same] at parts succ
  constructor
  · intro g low above
    rw [place,same,if_pos (by omega),Option.some.injEq]
    omega
  · intro g i _ out placed
    rw [place,same] at placed
    split at placed
    · cases placed
      exact out
    · split at placed
      · cases placed
        omega
      · cases placed

theorem First.region (first : First t c k) (well : ¬ Misplaced t k) (low : c * t.chunkSize ≤ t.start k + off) :
    Region t k off len (t.chunkSize - t.start k % t.chunkSize + (t.start k + off - c * t.chunkSize)) := by
  obtain ⟨parts,rest,succ⟩ := firstChunk_bounds t k
  have beyond := first.beyond well
  have last := first.lastChunk
  constructor
  · intro g from_ _
    rw [place,if_neg (by omega),last,if_pos (by omega),Option.some.injEq]
    omega
  · intro g i _ out placed
    rw [place,last] at placed
    split at placed
    · cases placed
      omega
    · split at placed
      · cases placed
        omega
      · cases placed

-- A part of a chunk that is in an excluded file: where it is, and that it is read
-- and written there.
structure InDnd (t : Files) (disk : Disk) (c first : Nat) (d : DNDFile) (part : Part) (pos : Nat) : Prop where
  region : Region t part.file part.off part.len pos
  read : disk.readPart t c first part = some ((d.data.drop pos).take part.len)
  write : ∀ bytes, disk.writePart t c first bytes part =
    some {disk with dndFiles := disk.setDnd part.file (some {d with data := DNDFile.put d.data bytes pos})}

theorem in_dnd (ok : disk.Ok t) (fits : t.chunkSize < 4294967296) (inside : c < t.numChunks) (several : (filesOf t c 0).length ≠ 1)
    (excluded : disk.dndFiles part.file = some d) (some_ : 0 < part.len) (inFile : part.off + part.len ≤ t.size part.file)
    (low : c * t.chunkSize ≤ t.start part.file + part.off) (high : t.start part.file + part.off + part.len ≤ (c + 1) * t.chunkSize) :
    ∃ pos, InDnd t disk c ((filesOf t c 0).headD 0) d part pos := by
  obtain ⟨well,size⟩ := ok.placed _ _ excluded
  have succ : (c + 1) * t.chunkSize = c * t.chunkSize + t.chunkSize := Nat.succ_mul _ _
  rcases first_or_later inside several (show part.off < t.size part.file by omega) low (by omega) with ⟨head,first⟩ | ⟨other,later⟩
  · have starts := first.starts
    have offset : uint32Sub (uint32 part.off) (uint32 (t.fileOffset (t.file ((filesOf t c 0).headD 0)) c)) =
        t.start part.file + part.off - c * t.chunkSize := by
      rw [← head,MultiFileCache.fileOffset_eq inside starts,uint32Sub_mod (by omega) (by omega)]
      omega
    refine ⟨_,first.region well low,?_,fun bytes => ?_⟩
    · rw [Disk.readPart,excluded]
      dsimp only
      rw [if_pos head,offset,DNDFile.readLastChunk,size]
    · rw [Disk.writePart,excluded]
      dsimp only
      rw [if_pos head,offset,DNDFile.writeLastChunk,size]
  · have starts := later.starts
    have offset : uint32 part.off = part.off := uint32_of_lt (by omega)
    refine ⟨_,later.region (by omega),?_,fun bytes => ?_⟩
    · rw [Disk.readPart,excluded]
      dsimp only
      rw [if_neg other,offset]
      rfl
    · rw [Disk.writePart,excluded]
      dsimp only
      rw [if_neg other,offset]
      rfl

-- Bytes from address a on are put to their places, and what is stored elsewhere
-- stays.
structure Disk.Put (t : Files) (a : Nat) (data : List UInt8) (disk disk' : Disk) : Prop where
  ok : disk'.Ok t
  inside : ∀ k g, g < t.size k → a ≤ t.start k + g → t.start k + g < a + data.length → disk'.byte t k g = data[t.start k + g - a]?
  kept : ∀ k g byte, g < t.size k → ¬ (a ≤ t.start k + g ∧ t.start k + g < a + data.length) → disk.byte t k g = some byte →
    disk'.byte t k g = some byte

theorem Disk.Put.append {disk₁ disk₂ : Disk} {before more : List UInt8} (first : Disk.Put t a before disk disk₁)
    (second : Disk.Put t (a + before.length) more disk₁ disk₂) : Disk.Put t a (before ++ more) disk disk₂ := by
  refine ⟨second.ok,?_,?_⟩
  · intro k g less low high
    rw [List.length_append] at high
    by_cases early : t.start k + g < a + before.length
    · have here := first.inside k g less low early
      rw [List.getElem?_append_left (by omega)]
      rw [List.getElem?_eq_getElem (show t.start k + g - a < before.length by omega)] at here ⊢
      exact second.kept k g _ less (by omega) here
    · rw [List.getElem?_append_right (by omega),second.inside k g less (by omega) (by omega)]
      congr 1
      omega
  · intro k g byte less out there
    rw [List.length_append] at out
    exact second.kept k g byte less (by omega) (first.kept k g byte less (by omega) there)

theorem setDnd_byte (disk : Disk) (k : Nat) (d : DNDFile) (files : List CacheFile) (j g : Nat) :
    Disk.byte t ⟨files,disk.setDnd k (some d)⟩ j g =
      if j = k then (place t k g).bind fun i => d.data[i]? else Disk.byte t ⟨files,disk.dndFiles⟩ j g := by
  unfold Disk.byte Disk.setDnd
  dsimp only
  by_cases same : j = k
  · subst same
    rw [if_pos rfl,if_pos rfl]
  · rw [if_neg same,if_neg same]

theorem byte_dnd (excluded : disk.dndFiles k = some d) (g : Nat) : disk.byte t k g = (place t k g).bind fun i => d.data[i]? := by
  rw [Disk.byte,excluded]

theorem byte_file (included : disk.dndFiles k = none) (g : Nat) : disk.byte t k g = fileByte disk.files k g := by
  rw [Disk.byte,included]

theorem writePart_put (ok : disk.Ok t) (fits : t.chunkSize < 4294967296) (inside : c < t.numChunks) (several : (filesOf t c 0).length ≠ 1)
    (file : part.file < t.numFiles) (some_ : 0 < part.len) (inFile : part.off + part.len ≤ t.size part.file)
    (low : c * t.chunkSize ≤ t.start part.file + part.off) (high : t.start part.file + part.off + part.len ≤ (c + 1) * t.chunkSize)
    (bytes : List UInt8) (length : bytes.length = part.len) :
    ∃ disk', disk.writePart t c ((filesOf t c 0).headD 0) bytes part = some disk' ∧
      Disk.Put t (t.start part.file + part.off) bytes disk disk' := by
  cases stored : disk.dndFiles part.file with
  | none =>
      obtain ⟨f,there⟩ := ok.files.file file
      obtain ⟨f',wrote,written⟩ := written_part part bytes ok.files there (by omega)
      refine ⟨{disk with files := disk.files.set part.file f'},?_,⟨written.ok,ok.placed⟩,?_,?_⟩
      · rw [Disk.writePart,stored]
        dsimp only
        rw [there]
        dsimp only
        rw [wrote]
        rfl
      · intro k g less from_ upTo
        have same := file_of_range less inFile (by omega) (by omega)
        subst same
        have file := byte_file (t := t) (show ({disk with files := disk.files.set part.file f'} : Disk).dndFiles part.file = none from stored) g
        exact file.trans (written.inside _ g less from_ upTo)
      · intro k g byte less out here
        unfold Disk.byte at here ⊢
        dsimp only
        cases of : disk.dndFiles k with
        | none =>
            rw [of] at here
            exact written.kept k g byte out here
        | some d =>
            rw [of] at here
            exact here
  | some d =>
      obtain ⟨pos,place⟩ := in_dnd ok fits inside several stored some_ inFile low high
      refine ⟨_,place.write bytes,⟨ok.files,fun k d' excluded => ?_⟩,?_,?_⟩
      · dsimp only [Disk.setDnd] at excluded
        split at excluded
        · rename_i same
          cases excluded
          rw [same]
          exact ⟨(ok.placed _ _ stored).1,(ok.placed _ _ stored).2⟩
        · exact ok.placed k d' excluded
      · intro k g less from_ upTo
        have same := file_of_range less inFile (by omega) (by omega)
        subst same
        rw [setDnd_byte,if_pos rfl,place.region.inside g (by omega) (by omega)]
        show (DNDFile.put d.data bytes pos)[pos + (g - part.off)]? = _
        rw [DNDFile.put_inside (by omega) (by omega)]
        congr 1
        omega
      · intro k g byte less out here
        rw [setDnd_byte]
        by_cases same : k = part.file
        · subst same
          rw [if_pos rfl]
          rw [byte_dnd stored] at here
          obtain ⟨i,placed,there⟩ := Option.bind_eq_some_iff.mp here
          rw [placed]
          refine DNDFile.put_outside ?_ there
          rw [length]
          exact place.region.outside g i less (by omega) placed
        · rw [if_neg same]
          exact here

theorem Disk.Put.refl (ok : disk.Ok t) (a : Nat) : Disk.Put t a [] disk disk :=
  ⟨ok,fun k g _ low high => by rw [List.length_nil] at high; omega,fun _ _ _ _ _ there => there⟩

theorem writeParts_put (fits : t.chunkSize < 4294967296) (inside : c < t.numChunks) (several : (filesOf t c 0).length ≠ 1)
    {parts : List Part} {data : List UInt8} (ok : disk.Ok t) (covers : Covers t b a parts) (low : c * t.chunkSize ≤ a)
    (high : b ≤ (c + 1) * t.chunkSize) (length : a + data.length = max a b) :
    ∃ disk', Disk.writeParts t c ((filesOf t c 0).headD 0) disk parts data = some disk' ∧ Disk.Put t a data disk disk' := by
  induction covers generalizing disk data with
  | nil done =>
      have empty : data = [] := List.length_eq_zero_iff.mp (by omega)
      rw [empty]
      exact ⟨disk,rfl,.refl ok _⟩
  | @cons a rest' part file at_ inFile some_ upTo rest ih =>
      have taken : (data.take part.len).length = part.len := by
        rw [List.length_take]
        omega
      obtain ⟨disk₁,wrote,first⟩ := writePart_put ok fits inside several file some_ inFile (by omega) (by omega) (data.take part.len) taken
      rw [at_] at first
      obtain ⟨disk₂,result,second⟩ := @ih disk₁ (data.drop part.len) first.ok (by omega) (by rw [List.length_drop]; omega)
      unfold Disk.writeParts
      rw [wrote]
      refine ⟨disk₂,result,?_⟩
      have whole := first.append (by rw [taken]; exact second)
      rwa [List.take_append_drop] at whole

def Disk.Stored (t : Files) (disk : Disk) (a b : Nat) : Prop :=
  ∀ k g, g < t.size k → a ≤ t.start k + g → t.start k + g < b → (disk.byte t k g).isSome = true

theorem fileByte_some {files : List CacheFile} {f : CacheFile} (there : files[k]? = some f) (g : Nat) : fileByte files k g = f.data[g]? := by
  rw [fileByte,there]
  rfl

theorem readPart_stored (ok : disk.Ok t) (fits : t.chunkSize < 4294967296) (inside : c < t.numChunks) (several : (filesOf t c 0).length ≠ 1)
    (file : part.file < t.numFiles) (some_ : 0 < part.len) (inFile : part.off + part.len ≤ t.size part.file)
    (low : c * t.chunkSize ≤ t.start part.file + part.off) (high : t.start part.file + part.off + part.len ≤ (c + 1) * t.chunkSize)
    (all : ∀ g, part.off ≤ g → g < part.off + part.len → (disk.byte t part.file g).isSome = true) :
    ∃ bytes, disk.readPart t c ((filesOf t c 0).headD 0) part = some bytes ∧ bytes.length = part.len ∧
      ∀ i < part.len, bytes[i]? = disk.byte t part.file (part.off + i) := by
  cases stored : disk.dndFiles part.file with
  | none =>
      obtain ⟨f,there⟩ := ok.files.file file
      have here : ∀ k g, g < t.size k → t.start part.file + part.off ≤ t.start k + g →
          t.start k + g < t.start part.file + part.off + part.len → (fileByte disk.files k g).isSome = true := by
        intro k g less from_ upTo
        have same := file_of_range less inFile (by omega) (by omega)
        subst same
        rw [← byte_file (t := t) stored]
        exact all g (by omega) (by omega)
      obtain ⟨bytes,read,from_⟩ := MultiFileCache.read_part part ok.files there some_ inFile here
      have length := from_.length
      refine ⟨bytes,?_,by omega,fun i less => ?_⟩
      · rw [Disk.readPart,stored]
        dsimp only
        rw [there]
        exact read
      · have byte := from_.here part.file (part.off + i) (by omega) (by omega) (by omega)
        rw [byte_file stored,← byte]
        congr 1
        omega
  | some d =>
      obtain ⟨pos,place⟩ := in_dnd ok fits inside several stored some_ inFile low high
      have here : ∀ i < part.len, disk.byte t part.file (part.off + i) = d.data[pos + i]? := fun i less => by
        rw [byte_dnd stored,place.region.inside _ (Nat.le_add_right _ _) (by omega),Nat.add_sub_cancel_left]
        rfl
      have long : pos + part.len ≤ d.data.length := by
        have last := all (part.off + (part.len - 1)) (by omega) (by omega)
        rw [here _ (by omega)] at last
        obtain ⟨byte,there⟩ := Option.isSome_iff_exists.mp last
        have := (List.getElem?_eq_some_iff.mp there).1
        omega
      refine ⟨_,place.read,?_,fun i less => ?_⟩
      · rw [List.length_take,List.length_drop]
        omega
      · rw [here i less,List.getElem?_take_of_lt less,List.getElem?_drop]

-- The bytes of the parts go into the buffer from pos on, and the rest of it stays.
theorem readParts_stored (fits : t.chunkSize < 4294967296) (inside : c < t.numChunks) (several : (filesOf t c 0).length ≠ 1)
    {parts : List Part} (buf : List UInt8) (pos : Nat) (ok : disk.Ok t) (covers : Covers t b a parts) (low : c * t.chunkSize ≤ a)
    (high : b ≤ (c + 1) * t.chunkSize) (room : pos + (b - a) ≤ buf.length) (all : disk.Stored t a b) :
    ∃ buf', disk.readParts t c ((filesOf t c 0).headD 0) parts buf pos = some buf' ∧ buf'.length = buf.length ∧
      (∀ i < pos, buf'[i]? = buf[i]?) ∧
      ∀ k g, g < t.size k → a ≤ t.start k + g → t.start k + g < b → buf'[pos + (t.start k + g - a)]? = disk.byte t k g := by
  induction covers generalizing buf pos with
  | nil done => exact ⟨buf,rfl,rfl,fun _ _ => rfl,fun k g _ from_ upTo => by omega⟩
  | @cons a rest' part file at_ inFile some_ upTo rest ih =>
      obtain ⟨bytes,read,length,here⟩ := readPart_stored ok fits inside several file some_ inFile (by omega) (by omega) fun g from_ before =>
        all part.file g (by omega) (by omega) (by omega)
      have fitted : (CacheFile.splice buf bytes pos).length = buf.length := by
        rw [CacheFile.splice_length _ _ _ (by omega)]
        omega
      obtain ⟨buf',result,size,kept,others⟩ := ih (CacheFile.splice buf bytes pos) (pos + part.len) (by omega)
        (by rw [fitted]; omega) fun k g less from_ before => all k g less (by omega) before
      unfold Disk.readParts
      rw [read]
      refine ⟨buf',result,size.trans fitted,fun i less => ?_,fun k g less from_ before => ?_⟩
      · rw [kept i (by omega),CacheFile.splice_get _ _ _ _ (by omega),if_neg (by omega)]
      · by_cases mine : t.start k + g < a + part.len
        · have same := file_of_range less inFile (by omega) (by omega)
          subst same
          rw [kept _ (by omega),CacheFile.splice_get _ _ _ _ (by omega),if_pos (by omega),
            show pos + (t.start part.file + g - a) - pos = g - part.off by omega,here _ (by omega)]
          congr 1
          omega
        · rw [← others k g less (by omega) before]
          congr 1
          omega

theorem lastChunkSize_end (some_ : 0 < t.totalSize) :
    (t.numChunks - 1) * t.chunkSize + Disk.lastChunkSize t = t.totalSize ∧ 0 < Disk.lastChunkSize t ∧ Disk.lastChunkSize t ≤ t.chunkSize := by
  have parts := Nat.div_add_mod t.totalSize t.chunkSize
  have rest := Nat.mod_lt t.totalSize t.chunked
  rw [Nat.mul_comm] at parts
  have count : t.numChunks = if t.totalSize % t.chunkSize > 0 then t.totalSize / t.chunkSize + 1 else t.totalSize / t.chunkSize := rfl
  unfold Disk.lastChunkSize
  rw [count]
  split
  · refine ⟨?_,by omega,by omega⟩
    rw [Nat.add_sub_cancel]
    exact parts
  · refine ⟨?_,t.chunked,Nat.le_refl _⟩
    cases quotient : t.totalSize / t.chunkSize with
    | zero =>
        rw [quotient] at parts
        omega
    | succ n =>
        rw [quotient,Nat.succ_mul] at parts
        rw [Nat.add_sub_cancel]
        omega

theorem firstPart_end (fits : t.chunkSize < 4294967296) (some_ : 0 < t.size k) :
    t.start k + Disk.firstPart t (t.file k) = min (((t.file k).firstChunk + 1) * t.chunkSize) t.totalSize := by
  obtain ⟨parts,rest,succ⟩ := firstChunk_bounds t k
  have whole := t.start_le (k + 1)
  rw [start_succ] at whole
  have small := MultiFileCache.numChunks_small t
  have more := (lt_numChunks (t := t) (c := (t.file k).firstChunk)).mpr (by omega)
  have next := lt_numChunks (t := t) (c := (t.file k).firstChunk + 1)
  obtain ⟨end_,_,short⟩ := lastChunkSize_end (t := t) (by omega)
  have offset : (t.file k).firstChunkOffset = t.start k % t.chunkSize := rfl
  unfold Disk.firstPart
  dsimp only
  rw [offset,uint32Sub_of_le (show 1 ≤ t.numChunks by omega) (by omega),uint32_of_lt (show t.start k % t.chunkSize < 4294967296 by omega)]
  by_cases last : (t.file k).firstChunk = t.numChunks - 1
  · rw [if_pos last,uint32_of_lt (by omega)]
    rw [← last] at end_
    rw [uint32Sub_of_le (by omega) (by omega)]
    omega
  · have := next.mp (by omega)
    rw [if_neg last,uint32_of_lt fits,uint32Sub_of_le (by omega) fits]
    omega

theorem place_cases (placed : place t k g = some i) (inFile : g < t.size k) :
    t.start k + g < ((t.file k).firstChunk + 1) * t.chunkSize ∧ i = g ∨
      (t.file k).firstChunk < (t.file k).lastChunk ∧ (t.file k).lastChunk * t.chunkSize ≤ t.start k + g ∧
        i = t.chunkSize - t.start k % t.chunkSize + (t.start k + g - (t.file k).lastChunk * t.chunkSize) := by
  unfold place at placed
  split at placed
  · cases placed
    exact .inl ⟨‹_›,rfl⟩
  · rename_i beyond
    split at placed
    · rename_i last
      cases placed
      refine .inr ⟨?_,last,rfl⟩
      rw [lastChunk_eq,if_pos (by omega)]
      have := (Nat.le_div_iff_mul_le t.chunked).mpr (show ((t.file k).firstChunk + 1) * t.chunkSize ≤ t.start k + t.size k - 1 by omega)
      omega
    · cases placed

theorem lastChunk_offset (fits : t.chunkSize < 4294967296) (some_ : 0 < t.size k) (less : (t.file k).firstChunk < (t.file k).lastChunk) :
    t.start k + t.fileOffset (t.file k) (t.file k).lastChunk = (t.file k).lastChunk * t.chunkSize ∧
      (t.file k).lastChunk * t.chunkSize + uint32 (t.file k).lastChunkSize = t.start k + t.size k ∧
      ((t.file k).firstChunk + 1) * t.chunkSize ≤ (t.file k).lastChunk * t.chunkSize := by
  obtain ⟨parts,rest,succ⟩ := firstChunk_bounds t k
  have order := Nat.mul_le_mul_right t.chunkSize (show (t.file k).firstChunk + 1 ≤ (t.file k).lastChunk from less)
  have size := MultiFileCache.lastChunkSize_eq (t := t) (k := k) fits rfl
  have whole := t.start_le (k + 1)
  rw [start_succ] at whole
  have inside : (t.file k).lastChunk < t.numChunks := by
    rw [lt_numChunks,lastChunk_eq,if_pos some_]
    have := Nat.div_mul_le_self (t.start k + t.size k - 1) t.chunkSize
    omega
  rw [MultiFileCache.fileOffset_eq inside (by omega)]
  exact ⟨by omega,size,order⟩

theorem overlay_take (tmp : List UInt8) {bytes : List UInt8} (short : i < bytes.length) (less : i < n) :
    ((bytes ++ tmp.drop bytes.length).take n)[i]? = bytes[i]? := by
  rw [List.getElem?_take_of_lt less,List.getElem?_append_left short]

theorem take_get {data : List UInt8} (less : i < n) (there : data[off + i]? = some byte) : ((data.drop off).take n)[i]? = some byte := by
  rw [List.getElem?_take_of_lt less,List.getElem?_drop]
  exact there

theorem length_of_get {data : List UInt8} (there : data[i]? = some byte) : i < data.length := (List.getElem?_eq_some_iff.mp there).1

theorem saveFirstAndLastChunk_keeps (fits : t.chunkSize < 4294967296) (src tmp : List UInt8) :
    (Disk.saveFirstAndLastChunk t (t.file k) src tmp).firstSize = t.chunkSize - t.start k % t.chunkSize ∧
    ∀ g i byte, g < t.size k → src[g]? = some byte → place t k g = some i →
      (Disk.saveFirstAndLastChunk t (t.file k) src tmp).data[i]? = some byte := by
  have rest := Nat.mod_lt (t.start k) t.chunked
  have firstSize : (DNDFile.create (t.file k) t.chunkSize).firstSize = t.chunkSize - t.start k % t.chunkSize := by
    have offset : (t.file k).firstChunkOffset = t.start k % t.chunkSize := rfl
    rw [DNDFile.create,offset,uint32Sub_mod (by omega) (by omega)]
  constructor
  · unfold Disk.saveFirstAndLastChunk
    dsimp only
    split
    · exact firstSize
    · exact firstSize
  · intro g i byte inFile there placed
    obtain ⟨_,_,succ⟩ := firstChunk_bounds t k
    have reach := firstPart_end fits (show 0 < t.size k by omega)
    have whole := t.start_le (k + 1)
    rw [start_succ] at whole
    rcases place_cases placed inFile with ⟨inFirst,rfl⟩ | ⟨other,inLast,rfl⟩
    · have taken : (src.take (Disk.firstPart t (t.file k)))[i]? = some byte := by
        rw [List.getElem?_take_of_lt (by omega)]
        exact there
      have saved : ((DNDFile.create (t.file k) t.chunkSize).writeFirstChunk
          ((src.take (Disk.firstPart t (t.file k)) ++ tmp.drop (src.take (Disk.firstPart t (t.file k))).length).take (Disk.firstPart t (t.file k))) 0).data[i]? =
          some byte := by
        have here := overlay_take tmp (length_of_get taken) (show i < Disk.firstPart t (t.file k) by omega)
        rw [taken] at here
        have long := length_of_get here
        show (DNDFile.put [] _ 0)[i]? = _
        rw [DNDFile.put_inside (Nat.zero_le _) (by omega)]
        exact here
      unfold Disk.saveFirstAndLastChunk
      dsimp only
      split
      · refine DNDFile.put_outside ?_ saved
        show ¬ ((DNDFile.create (t.file k) t.chunkSize).firstSize + 0 ≤ i ∧ _)
        rw [firstSize]
        omega
      · exact saved
    · obtain ⟨at_,size,_⟩ := lastChunk_offset fits (show 0 < t.size k by omega) other
      have taken : ((src.drop (t.fileOffset (t.file k) (t.file k).lastChunk)).take (uint32 (t.file k).lastChunkSize))[
          t.start k + g - (t.file k).lastChunk * t.chunkSize]? = some byte := by
        refine take_get (by omega) ?_
        rw [← there]
        congr 1
        omega
      unfold Disk.saveFirstAndLastChunk
      dsimp only
      rw [if_pos (Nat.ne_of_lt other)]
      generalize (src.take _ ++ _ : List UInt8) = tmp'
      have here := overlay_take tmp' (length_of_get taken)
        (show t.start k + g - (t.file k).lastChunk * t.chunkSize < uint32 (t.file k).lastChunkSize by omega)
      rw [taken] at here
      have long := length_of_get here
      show (DNDFile.put _ _ ((DNDFile.create (t.file k) t.chunkSize).firstSize + 0))[_]? = _
      rw [firstSize,DNDFile.put_inside (by omega) (by omega)]
      rw [← here]
      congr 1
      omega

-- As much is read of the first chunk as the file has of it.
def toRead (t : Files) (k : Nat) : Nat := if Disk.firstPart t (t.file k) > t.size k then uint32 (t.size k) else Disk.firstPart t (t.file k)

theorem toRead_eq (t : Files) (k : Nat) : toRead t k = min (Disk.firstPart t (t.file k)) (t.size k) := by
  have small : Disk.firstPart t (t.file k) < 4294967296 := uint32Sub_lt _ _
  unfold toRead
  split
  · rw [uint32_of_lt (by omega)]
    omega
  · omega

theorem recreateFile_eq (t : Files) (k : Nat) (d : DNDFile) : Disk.recreateFile t (t.file k) d =
    if (t.file k).firstChunk ≠ (t.file k).lastChunk then
      DNDFile.put (DNDFile.put [] ((d.data.drop 0).take (toRead t k)) 0)
        ((d.data.drop (d.firstSize + 0)).take (uint32 (t.file k).lastChunkSize)) (t.fileOffset (t.file k) (t.file k).lastChunk)
    else DNDFile.put [] ((d.data.drop 0).take (toRead t k)) 0 := rfl

theorem recreateFile_length (fits : t.chunkSize < 4294967296) (d : DNDFile) : (Disk.recreateFile t (t.file k) d).length ≤ t.size k := by
  have read := toRead_eq t k
  have first : (DNDFile.put [] ((d.data.drop 0).take (toRead t k)) 0).length ≤ t.size k := by
    refine Nat.le_trans DNDFile.put_length_le ?_
    rw [List.length_take,List.length_nil]
    omega
  rw [recreateFile_eq]
  split
  · rename_i other
    have order := firstChunk_le_lastChunk t k
    have some_ : 0 < t.size k := by
      refine Nat.pos_of_ne_zero fun zero => other ?_
      rw [firstChunk_eq,lastChunk_eq,if_neg (by omega)]
    obtain ⟨at_,size,_⟩ := lastChunk_offset fits some_ (by omega)
    refine Nat.le_trans DNDFile.put_length_le ?_
    rw [List.length_take]
    generalize uint32 (t.file k).lastChunkSize = lcs at *
    generalize t.fileOffset (t.file k) (t.file k).lastChunk = off at *
    clear read order
    omega
  · exact first

theorem recreateFile_keeps (fits : t.chunkSize < 4294967296) (size : d.firstSize = t.chunkSize - t.start k % t.chunkSize)
    (inFile : g < t.size k) (placed : place t k g = some i) (there : d.data[i]? = some byte) :
    (Disk.recreateFile t (t.file k) d)[g]? = some byte := by
  have whole := t.start_le (k + 1)
  rw [start_succ] at whole
  rw [recreateFile_eq]
  rcases place_cases placed inFile with ⟨inFirst,rfl⟩ | ⟨other,inLast,rfl⟩
  · have reach := firstPart_end fits (show 0 < t.size k by omega)
    have read := toRead_eq t k
    generalize Disk.firstPart t (t.file k) = part at reach read
    have less : i < toRead t k := by omega
    generalize toRead t k = n at less
    clear reach read
    have taken := take_get less (show d.data[0 + i]? = some byte by rw [Nat.zero_add]; exact there)
    have first : (DNDFile.put [] ((d.data.drop 0).take n) 0)[i]? = some byte := by
      have long := length_of_get taken
      rw [DNDFile.put_inside (Nat.zero_le _) (by omega)]
      exact taken
    split
    · rename_i other
      have order := firstChunk_le_lastChunk t k
      obtain ⟨at_,_,behind⟩ := lastChunk_offset fits (show 0 < t.size k by omega) (by omega)
      refine DNDFile.put_outside ?_ first
      rintro ⟨low,_⟩
      omega
    · exact first
  · obtain ⟨at_,last,_⟩ := lastChunk_offset fits (show 0 < t.size k by omega) other
    have taken := take_get
      (show t.start k + g - (t.file k).lastChunk * t.chunkSize < uint32 (t.file k).lastChunkSize by omega)
      (show d.data[d.firstSize + 0 + _]? = some byte by rw [size,Nat.add_zero]; exact there)
    rw [if_pos (Nat.ne_of_lt other),DNDFile.put_inside (by omega) (by have := length_of_get taken; omega)]
    rw [← taken]
    congr 1
    omega

-- Excluding a file keeps the bytes of its first and last chunk, and those of the
-- other files.
structure Excludes (t : Files) (k : Nat) (disk disk' : Disk) : Prop where
  ok : disk'.Ok t
  kept : ∀ j g byte, g < t.size j → (j = k → (place t k g).isSome = true) → disk.byte t j g = some byte → disk'.byte t j g = some byte

theorem setFile_byte {f : CacheFile} (there : files[k]? = some f) (data : List UInt8) (dnd : Nat → Option DNDFile) (other : j ≠ k) (g : Nat) :
    Disk.byte t ⟨files.set k {f with data := data},dnd⟩ j g = Disk.byte t ⟨files,dnd⟩ j g := by
  unfold Disk.byte
  dsimp only
  split
  · rw [fileByte_set (List.getElem?_eq_some_iff.mp there).1,if_neg other]
  · rfl

theorem exclude_keeps (fits : t.chunkSize < 4294967296) (ok : disk.Ok t) (well : ¬ Misplaced t k) (tmp : List UInt8) :
    Excludes t k disk (disk.downloadStatusChanged t tmp k false) := by
  unfold Disk.downloadStatusChanged
  split
  · rename_i f there included _
    obtain ⟨size,saved⟩ := saveFirstAndLastChunk_keeps (t := t) (k := k) fits f.data tmp
    refine ⟨⟨ok.files.set (ok.files.sized k f there).1 (Nat.zero_le _),fun j d excluded => ?_⟩,fun j g byte inFile mine here => ?_⟩
    · dsimp only [Disk.setDnd] at excluded
      split at excluded
      · rename_i same
        cases excluded
        rw [same]
        exact ⟨well,size⟩
      · exact ok.placed j d excluded
    · by_cases same : j = k
      · subst same
        obtain ⟨i,placed⟩ := Option.isSome_iff_exists.mp (mine rfl)
        rw [byte_file included,fileByte_some there] at here
        rw [setDnd_byte,if_pos rfl,placed]
        exact saved g i byte inFile here placed
      · rw [setDnd_byte,if_neg same,setFile_byte there _ _ same]
        exact here
  · cases ‹false = true›
  · exact ⟨ok,fun _ _ _ _ _ here => here⟩

theorem include_keeps (fits : t.chunkSize < 4294967296) (ok : disk.Ok t) (tmp : List UInt8) :
    (disk.downloadStatusChanged t tmp k true).Ok t ∧
    ∀ j g byte, g < t.size j → disk.byte t j g = some byte → (disk.downloadStatusChanged t tmp k true).byte t j g = some byte := by
  unfold Disk.downloadStatusChanged
  split
  · cases ‹true = false›
  · rename_i f d there excluded _
    refine ⟨⟨ok.files.set (ok.files.sized k f there).1 (recreateFile_length fits d),fun j d' other => ?_⟩,fun j g byte inFile here => ?_⟩
    · dsimp only [Disk.setDnd] at other
      split at other
      · cases other
      · exact ok.placed j d' other
    · by_cases same : j = k
      · subst same
        rw [byte_dnd excluded] at here
        obtain ⟨i,placed,stored⟩ := Option.bind_eq_some_iff.mp here
        have kept := recreateFile_keeps fits (ok.placed _ _ excluded).2 inFile placed stored
        rw [byte_file (by unfold Disk.setDnd; exact if_pos rfl),fileByte_set (List.getElem?_eq_some_iff.mp there).1,if_pos rfl]
        exact kept
      · have same_ : Disk.byte t ⟨disk.files.set k {f with data := Disk.recreateFile t (t.file k) d},disk.setDnd k none⟩ j g =
            Disk.byte t ⟨disk.files.set k {f with data := Disk.recreateFile t (t.file k) d},disk.dndFiles⟩ j g := by
          unfold Disk.byte Disk.setDnd
          dsimp only
          rw [if_neg same]
        rw [same_,setFile_byte there _ _ same]
        exact here
  · exact ⟨ok,fun _ _ _ _ here => here⟩

end KtorrentStream.Diskio
