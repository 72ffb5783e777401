import KtorrentStream.Diskio.MultiFileCache
set_option autoImplicit true

namespace KtorrentStream.Diskio
open KtorrentStream.Util KtorrentStream.Torrent KtorrentStream.Torrent.Files

namespace CacheFile

theorem grown_get (f : CacheFile) (size g : Nat) :
    (f.grown size)[g]? = if g < f.data.length then f.data[g]? else if g < size then some 0 else none := by
  unfold grown
  by_cases inside : g < f.data.length
  · rw [if_pos inside,List.getElem?_append_left inside]
  · rw [if_neg inside,List.getElem?_append_right (by omega),List.getElem?_replicate]
    by_cases less : g < size
    · rw [if_pos (by omega),if_pos less]
    · rw [if_neg (by omega),if_neg less]

theorem grown_length (f : CacheFile) (size : Nat) : (f.grown size).length = max f.data.length size := by
  unfold grown
  rw [List.length_append,List.length_replicate]
  omega

theorem splice_get (data bytes : List UInt8) (off g : Nat) (room : off ≤ data.length) :
    (splice data bytes off)[g]? = if off ≤ g ∧ g < off + bytes.length then bytes[g - off]? else data[g]? := by
  have left : (data.take off).length = off := by
    rw [List.length_take]
    omega
  unfold splice
  by_cases before : g < off
  · rw [if_neg (by omega),List.append_assoc,List.getElem?_append_left (by omega),List.getElem?_take_of_lt before]
  · by_cases inside : g < off + bytes.length
    · rw [if_pos ⟨by omega,inside⟩,List.append_assoc,List.getElem?_append_right (by omega),left,
        List.getElem?_append_left (by omega)]
    · rw [if_neg (by omega),List.getElem?_append_right (by rw [List.length_append]; omega),List.getElem?_drop,
        List.length_append,left]
      congr 1
      omega

theorem splice_length (data bytes : List UInt8) (off : Nat) (room : off ≤ data.length) :
    (splice data bytes off).length = max data.length (off + bytes.length) := by
  unfold splice
  rw [List.length_append,List.length_append,List.length_take,List.length_drop]
  omega

end CacheFile

structure FilesOk (t : Files) (files : List CacheFile) : Prop where
  count : files.length = t.numFiles
  sized : ∀ k f, files[k]? = some f → f.maxSize = t.size k ∧ f.data.length ≤ t.size k

-- The byte at an offset of a file; what is not there is none.
def fileByte (files : List CacheFile) (k g : Nat) : Option UInt8 := files[k]?.bind fun f => f.data[g]?

inductive Covers (t : Files) (b : Nat) : Nat → List Part → Prop
  | nil (done : b ≤ a) : Covers t b a []
  | cons (file : part.file < t.numFiles) (at_ : t.start part.file + part.off = a) (inFile : part.off + part.len ≤ t.size part.file)
      (some_ : 0 < part.len) (upTo : a + part.len ≤ b) (rest : Covers t b (a + part.len) rest') : Covers t b a (part :: rest')

-- What writing data from address a on does to the files.
structure Written (t : Files) (a : Nat) (data : List UInt8) (files files' : List CacheFile) : Prop where
  ok : FilesOk t files'
  inside : ∀ k g, g < t.size k → a ≤ t.start k + g → t.start k + g < a + data.length →
    fileByte files' k g = data[t.start k + g - a]?
  kept : ∀ k g byte, ¬ (a ≤ t.start k + g ∧ t.start k + g < a + data.length) → fileByte files k g = some byte → fileByte files' k g = some byte
  zeros : ∀ k g, ¬ (a ≤ t.start k + g ∧ t.start k + g < a + data.length) → fileByte files k g = none →
    fileByte files' k g = none ∨ fileByte files' k g = some 0

variable {t : Files} {files files' : List CacheFile}

theorem fileByte_set {f : CacheFile} (inside : k < files.length) (j g : Nat) :
    fileByte (files.set k f) j g = if j = k then f.data[g]? else fileByte files j g := by
  unfold fileByte
  by_cases same : j = k
  · subst same
    rw [if_pos rfl,List.getElem?_set_self inside]
    rfl
  · rw [if_neg same,List.getElem?_set_ne (fun e => same e.symm)]

theorem FilesOk.set {f : CacheFile} (ok : FilesOk t files) (max_ : f.maxSize = t.size k) (fits : f.data.length ≤ t.size k) :
    FilesOk t (files.set k f) := by
  refine ⟨by rw [List.length_set]; exact ok.count,fun j f' there => ?_⟩
  by_cases same : j = k
  · subst same
    by_cases inside : j < files.length
    · rw [List.getElem?_set_self inside] at there
      cases there
      exact ⟨max_,fits⟩
    · rw [List.getElem?_eq_none (by rw [List.length_set]; omega)] at there
      cases there
  · rw [List.getElem?_set_ne (fun e => same e.symm)] at there
    exact ok.sized j f' there

theorem FilesOk.file (ok : FilesOk t files) (inside : k < t.numFiles) : ∃ f, files[k]? = some f :=
  ⟨_,List.getElem?_eq_getElem (ok.count ▸ inside : k < files.length)⟩

theorem address_inj (inside : g < t.size k) (inside' : g' < t.size j) (same : t.start k + g = t.start j + g') : k = j ∧ g = g' := by
  have order : ∀ {a b : Nat}, a < b → t.start a + t.size a ≤ t.start b := fun less => by
    rw [← start_succ]
    exact t.start_mono less
  rcases Nat.lt_trichotomy k j with less | equal | more
  · have := order less
    omega
  · subst equal
    exact ⟨rfl,by omega⟩
  · have := order more
    omega

theorem file_of_range {n : Nat} (less : g < t.size k) (inFile : n ≤ t.size j) (low : t.start j ≤ t.start k + g) (high : t.start k + g < t.start j + n) :
    k = j := by
  obtain ⟨offset,split⟩ := Nat.exists_eq_add_of_le low
  exact (address_inj less (show offset < t.size j by omega) split).1

theorem file_small (t : Files) (k : Nat) : t.start k + t.size k < 9223372036854775808 := by
  have whole := t.start_le (k + 1)
  have long := t.long
  rw [start_succ] at whole
  exact Nat.lt_of_le_of_lt whole long

theorem written_part {f : CacheFile} (part : Part) (bytes : List UInt8) (ok : FilesOk t files) (there : files[part.file]? = some f)
    (inFile : part.off + bytes.length ≤ t.size part.file) :
    ∃ f', f.write bytes part.off = some f' ∧ Written t (t.start part.file + part.off) bytes files (files.set part.file f') := by
  obtain ⟨max_,fits⟩ := ok.sized _ f there
  have small := file_small t part.file
  have inside := (List.getElem?_eq_some_iff.mp there).1
  have room : part.off ≤ (f.grown part.off).length := by
    rw [CacheFile.grown_length]
    omega
  have old : ∀ g, fileByte files part.file g = f.data[g]? := fun g => by
    unfold fileByte
    rw [there]
    rfl
  have new : ∀ j g, fileByte (files.set part.file {f with data := CacheFile.splice (f.grown part.off) bytes part.off}) j g =
      if j = part.file then (if part.off ≤ g ∧ g < part.off + bytes.length then bytes[g - part.off]?
        else if g < f.data.length then f.data[g]? else if g < part.off then some 0 else none) else fileByte files j g := fun j g => by
    rw [fileByte_set inside,CacheFile.splice_get _ _ _ _ room,CacheFile.grown_get]
  refine ⟨{f with data := CacheFile.splice (f.grown part.off) bytes part.off},?_,?_,?_,?_,?_⟩
  · unfold CacheFile.write
    rw [uint64_of_lt (by omega),if_neg (by omega)]
  · refine ok.set max_ ?_
    show (CacheFile.splice (f.grown part.off) bytes part.off).length ≤ _
    rw [CacheFile.splice_length _ _ _ room,CacheFile.grown_length]
    omega
  · intro k g less low high
    rw [new]
    obtain rfl := file_of_range less inFile (by omega) (by omega)
    rw [if_pos rfl,if_pos (by omega)]
    congr 1
    omega
  · intro k g byte out some_
    rw [new]
    by_cases here : k = part.file
    · subst here
      rw [old] at some_
      have := (List.getElem?_eq_some_iff.mp some_).1
      rw [if_pos rfl,if_neg (by omega),if_pos this,some_]
    · rw [if_neg here,some_]
  · intro k g out none
    rw [new]
    by_cases here : k = part.file
    · subst here
      rw [old,List.getElem?_eq_none_iff] at none
      rw [if_pos rfl,if_neg (by omega),if_neg (by omega)]
      split
      · exact .inr rfl
      · exact .inl rfl
    · rw [if_neg here,none]
      exact .inl rfl

theorem Written.refl (ok : FilesOk t files) (a : Nat) : Written t a [] files files :=
  ⟨ok,fun k g _ low high => by simp only [List.length_nil] at high; omega,fun _ _ _ _ some_ => some_,fun _ _ _ none => .inl none⟩

theorem Written.append {more : List UInt8} {files₁ : List CacheFile} (first : Written t a data files files₁)
    (second : Written t (a + data.length) more files₁ files') : Written t a (data ++ more) files files' := by
  refine ⟨second.ok,?_,?_,?_⟩
  · intro k g less low high
    rw [List.length_append] at high
    by_cases before : t.start k + g < a + data.length
    · have here := first.inside k g less low before
      rw [List.getElem?_append_left (by omega)]
      rw [List.getElem?_eq_getElem (show t.start k + g - a < data.length by omega)] at here ⊢
      exact second.kept k g _ (by omega) here
    · rw [List.getElem?_append_right (by omega),second.inside k g less (by omega) (by omega)]
      congr 1
      omega
  · intro k g byte out some_
    rw [List.length_append] at out
    exact second.kept k g byte (by omega) (first.kept k g byte (by omega) some_)
  · intro k g out none
    rw [List.length_append] at out
    rcases first.zeros k g (by omega) none with still | zero
    · exact second.zeros k g (by omega) still
    · exact .inr (second.kept k g 0 (by omega) zero)

namespace MultiFileCache

theorem writeParts_spec {parts : List Part} {data : List UInt8} (ok : FilesOk t files) (covers : Covers t b a parts)
    (length : a + data.length = max a b) : ∃ files', writeParts files parts data = some files' ∧ Written t a data files files' := by
  induction covers generalizing files data with
  | nil done =>
    have empty : data = [] := List.length_eq_zero_iff.mp (by omega)
    rw [empty]
    exact ⟨files,rfl,.refl ok _⟩
  | @cons a rest' part file at_ inFile some_ upTo rest ih =>
    have room : part.len ≤ data.length := by omega
    have taken : (data.take part.len).length = part.len := by
      rw [List.length_take]
      omega
    obtain ⟨f,there⟩ := ok.file file
    obtain ⟨f',wrote,written⟩ := written_part part (data.take part.len) ok there (by omega)
    rw [at_] at written
    generalize wroteTo : files.set part.file f' = files₁ at written
    obtain ⟨files',result,others⟩ := @ih files₁ (data.drop part.len) written.ok (by rw [List.length_drop]; omega)
    unfold writeParts
    rw [there]
    dsimp only
    rw [wrote]
    dsimp only
    rw [wroteTo]
    refine ⟨files',result,?_⟩
    have whole := Written.append written (by rw [taken]; exact others)
    rwa [List.take_append_drop] at whole

def Stored (t : Files) (files : List CacheFile) (a b : Nat) : Prop :=
  ∀ k g, g < t.size k → a ≤ t.start k + g → t.start k + g < b → (fileByte files k g).isSome = true

structure BytesFrom (t : Files) (files : List CacheFile) (a b : Nat) (bytes : List UInt8) : Prop where
  length : a + bytes.length = max a b
  here : ∀ k g, g < t.size k → a ≤ t.start k + g → t.start k + g < b → bytes[t.start k + g - a]? = fileByte files k g

theorem BytesFrom.append {before more : List UInt8} (first : BytesFrom t files a c before) (second : BytesFrom t files c b more)
    (low : a ≤ c) (high : c ≤ b) : BytesFrom t files a b (before ++ more) := by
  have left := first.length
  have right := second.length
  refine ⟨by rw [List.length_append]; omega,fun k g less above below => ?_⟩
  by_cases early : t.start k + g < c
  · rw [List.getElem?_append_left (by omega)]
    exact first.here k g less above early
  · rw [List.getElem?_append_right (by omega),← second.here k g less (by omega) below]
    congr 1
    omega

theorem read_part {f : CacheFile} (part : Part) (ok : FilesOk t files) (there : files[part.file]? = some f) (some_ : 0 < part.len)
    (inFile : part.off + part.len ≤ t.size part.file)
    (stored : Stored t files (t.start part.file + part.off) (t.start part.file + part.off + part.len)) :
    ∃ bytes, f.read part.len part.off = some bytes ∧
      BytesFrom t files (t.start part.file + part.off) (t.start part.file + part.off + part.len) bytes := by
  obtain ⟨max_,_⟩ := ok.sized _ f there
  have old : ∀ g, fileByte files part.file g = f.data[g]? := fun g => by
    unfold fileByte
    rw [there]
    rfl
  have last : part.off + part.len ≤ f.data.length := by
    obtain ⟨byte,here⟩ := Option.isSome_iff_exists.mp (stored part.file (part.off + part.len - 1) (by omega) (by omega) (by omega))
    rw [old] at here
    have := (List.getElem?_eq_some_iff.mp here).1
    omega
  have length : ((f.data.drop part.off).take part.len).length = part.len := by
    rw [List.length_take,List.length_drop]
    omega
  refine ⟨(f.data.drop part.off).take part.len,?_,by rw [length]; omega,?_⟩
  · unfold CacheFile.read
    rw [if_neg (by omega)]
    dsimp only
    rw [if_pos length]
  · intro k g less above below
    obtain rfl := file_of_range less inFile (by omega) (by omega)
    rw [old,List.getElem?_take_of_lt (by omega),List.getElem?_drop]
    congr 1
    omega

theorem readParts_spec {parts : List Part} (ok : FilesOk t files) (covers : Covers t b a parts) (stored : Stored t files a b) :
    ∃ bytes, readParts files parts = some bytes ∧ BytesFrom t files a b bytes := by
  induction covers with
  | nil done => exact ⟨[],rfl,by rw [List.length_nil]; omega,fun k g _ above below => by omega⟩
  | @cons a rest' part file at_ inFile some_ upTo rest ih =>
    obtain ⟨f,there⟩ := ok.file file
    obtain ⟨bytes,read,first⟩ := read_part part ok there some_ inFile fun k g less above below =>
      stored k g less (by omega) (by omega)
    obtain ⟨more,others,second⟩ := ih fun k g less above below => stored k g less (by omega) below
    unfold readParts
    rw [there]
    dsimp only
    rw [read,others]
    rw [at_] at first
    exact ⟨bytes ++ more,rfl,first.append second (Nat.le_add_right _ _) upTo⟩

theorem read_length {f : CacheFile} {bytes : List UInt8} (read : f.read n off = some bytes) : bytes.length = n := by
  unfold CacheFile.read at read
  split at read
  · cases read
  · dsimp only at read
    split at read
    · rename_i full
      cases read
      exact full
    · cases read

theorem readParts_length {parts : List Part} {bytes : List UInt8} (covers : Covers t b a parts) (read : readParts files parts = some bytes) :
    a + bytes.length = max a b := by
  induction covers generalizing bytes with
  | nil done =>
    cases read
    rw [List.length_nil]
    omega
  | @cons a rest' part file at_ inFile some_ upTo rest ih =>
    unfold readParts at read
    split at read
    · cases read
    · split at read
      · rename_i first more one others
        cases read
        have left := read_length one
        have right := ih others
        rw [List.length_append]
        omega
      · cases read

-- The pieces of a ChunkDownload and whole chunks.
structure Proper (t : Files) (c off len : Nat) : Prop where
  chunk : c < t.numChunks
  some_ : 0 < len
  upTo : off + len ≤ t.chunkLen c
  kind : off % 16384 = 0 ∧ len ≤ 16384 ∨ off = 0 ∧ len = t.chunkLen c

-- Any bytes of a chunk.
structure InChunk (t : Files) (c off len : Nat) : Prop where
  chunk : c < t.numChunks
  some_ : 0 < len
  upTo : off + len ≤ t.chunkLen c

-- The bytes start strictly inside what the file has of the chunk and go on behind
-- it, and it ends not farther in the chunk than they are long.
def Breaks (t : Files) (c off len k : Nat) : Prop :=
  0 < off ∧ t.start k < c * t.chunkSize + off ∧ c * t.chunkSize + off < t.start k + t.size k ∧
    t.start k + t.size k < c * t.chunkSize + off + len ∧ t.start k + t.size k ≤ c * t.chunkSize + len

-- The parts that the loop finds from address a to b: for a file that breaks the
-- bytes there is one of length 0.
inductive Places (t : Files) (c off len b : Nat) : Nat → List Part → Prop
  | nil (done : b ≤ a) : Places t c off len b a []
  | cons {part : Part} (whole : ¬ Breaks t c off len part.file) (file : part.file < t.numFiles) (at_ : t.start part.file + part.off = a)
      (inFile : part.off + part.len ≤ t.size part.file) (some_ : 0 < part.len) (upTo : a + part.len ≤ b)
      (rest : Places t c off len b (a + part.len) rest') : Places t c off len b a (part :: rest')
  | gap (breaks : Breaks t c off len k) (less : a < a') (upTo : a' ≤ b) (rest : Places t c off len b a' rest') :
      Places t c off len b a (⟨k,0,0⟩ :: rest')

theorem Proper.inChunk (proper : Proper t c off len) : InChunk t c off len := ⟨proper.chunk,proper.some_,proper.upTo⟩

-- A file that is left by such a piece ends farther away than the piece is long.
theorem Proper.unbroken (proper : Proper t c off len) (k : Nat) : ¬ Breaks t c off len k := by
  rintro ⟨inside,_,start,_,near⟩
  rcases proper.kind with ⟨aligned,short⟩ | ⟨zero,_⟩
  · omega
  · omega

theorem Places.covers {parts : List Part} (places : Places t c off len b a parts) (unbroken : ∀ k, ¬ Breaks t c off len k) :
    Covers t b a parts := by
  induction places with
  | nil done => exact .nil done
  | cons _ file at_ inFile some_ upTo _ ih => exact .cons file at_ inFile some_ upTo ih
  | gap breaks => exact absurd breaks (unbroken _)

theorem Places.total_le {parts : List Part} (places : Places t c off len b a parts) : a + (parts.map Part.len).sum ≤ max a b := by
  induction places with
  | nil done =>
      rw [List.map_nil,List.sum_nil]
      omega
  | cons _ _ _ _ _ upTo _ ih =>
      rw [List.map_cons,List.sum_cons]
      omega
  | gap _ less upTo _ ih =>
      rw [List.map_cons,List.sum_cons]
      dsimp only
      omega

-- With a file that breaks them, not all of the bytes are in the parts.
theorem Places.short {parts : List Part} (places : Places t c off len (c * t.chunkSize + off + len) (c * t.chunkSize + off) parts)
    (some_ : 0 < len) (breaks : Breaks t c off len k) : (parts.map Part.len).sum < len := by
  cases places with
  | nil done => omega
  | @cons _ _ part whole _ at_ inFile positive _ _ =>
      have start := breaks.2.1
      have end_ := breaks.2.2.1
      have same := (address_inj (show part.off < t.size part.file by omega) (show c * t.chunkSize + off - t.start k < t.size k by omega)
        (by omega)).1
      exact absurd (same ▸ breaks) whole
  | gap _ less upTo rest =>
      have fewer := rest.total_le
      rw [List.map_cons,List.sum_cons]
      dsimp only
      omega

theorem chunkLen_eq (fits : t.chunkSize < 4294967296) (inside : c < t.numChunks) :
    t.chunkLen c = min t.chunkSize (t.totalSize - c * t.chunkSize) :=
  Layout.chunkLen_eq (l := t.layout 0) fits (lt_numChunks.mp inside)

theorem numChunks_small (t : Files) : t.numChunks < 2147483648 := Layout.numChunks_small (t.layout 0)

-- The second case compares with the wrong length; where it matters the piece
-- starts with the file, ends in it or is shorter.
theorem calculateOffsetAndLength_spec {po pl co cl : Nat} (fileOff : Nat) (left : po + pl < 4294967296) (right : co + cl < 4294967296)
    (behind : co < po + pl) (before : po < co + cl)
    (far : po ≤ co ∨ pl < co + cl ∨ po + pl ≤ co + cl) :
    calculateOffsetAndLength po pl fileOff co cl =
      (fileOff + (max po co - co),min (po + pl) (co + cl) - max po co) := by
  unfold calculateOffsetAndLength
  rw [uint32_of_lt left,uint32_of_lt right]
  split
  · rw [Prod.mk.injEq]
    omega
  · split
    · rw [uint32Sub_of_le (by omega) (by omega),Prod.mk.injEq]
      omega
    · split
      · rw [uint32Sub_of_le (by omega) (by omega),Prod.mk.injEq]
        omega
      · rw [if_pos (by omega),Prod.mk.injEq]
        omega

theorem calculateOffsetAndLength_none {po pl co cl : Nat} (fileOff : Nat) (left : po + pl < 4294967296) (right : co + cl < 4294967296)
    (inside : co < po) (beyond : co + cl < po + pl) (near : co + cl ≤ pl) : calculateOffsetAndLength po pl fileOff co cl = (0,0) := by
  unfold calculateOffsetAndLength
  rw [uint32_of_lt left,uint32_of_lt right,if_neg (by omega),if_neg (by omega),if_neg (by omega),if_neg (by omega)]

-- One round of the loop. What the file has of the chunk ends with the file or with
-- the chunk.
theorem places_step (chunkOff : Nat) {k fileOff cdata : Nat} {rest : List Part} (range : InChunk t c off len)
    (fits : t.chunkLen c < 4294967296) (file : k < t.numFiles) (at_ : t.start k + fileOff = c * t.chunkSize + chunkOff)
    (from_ : 0 < chunkOff → fileOff = 0) (some_ : 0 < cdata) (inFile : fileOff + cdata ≤ t.size k)
    (inChunk : chunkOff + cdata ≤ t.chunkLen c) (ends : fileOff + cdata = t.size k ∨ chunkOff + cdata = t.chunkLen c)
    (places : Places t c off len (c * t.chunkSize + off + len)
      (min (c * t.chunkSize + off + len) (max (c * t.chunkSize + off) (c * t.chunkSize + (chunkOff + cdata)))) rest) :
    Places t c off len (c * t.chunkSize + off + len)
      (min (c * t.chunkSize + off + len) (max (c * t.chunkSize + off) (c * t.chunkSize + chunkOff)))
      (if uint32 (off + len) ≤ chunkOff ∨ off ≥ uint32 (chunkOff + cdata) then rest
        else ⟨k,(calculateOffsetAndLength off len fileOff chunkOff cdata).1,(calculateOffsetAndLength off len fileOff chunkOff cdata).2⟩ :: rest) := by
  have upTo := range.upTo
  have positive := range.some_
  rw [uint32_of_lt (show off + len < 4294967296 by omega),uint32_of_lt (show chunkOff + cdata < 4294967296 by omega)]
  have broken : Breaks t c off len k → chunkOff < off ∧ chunkOff + cdata < off + len ∧ chunkOff + cdata ≤ len := by
    rintro ⟨inside,start,_,beyond,near⟩
    omega
  have far : chunkOff < off ∧ off < chunkOff + cdata ∧ chunkOff + cdata < off + len ∧ chunkOff + cdata ≤ len → Breaks t c off len k := by
    rintro ⟨inside,meets,beyond,near⟩
    refine ⟨?_,?_,?_,?_,?_⟩ <;> omega
  generalize base_ : c * t.chunkSize = base at *
  split
  · rename_i apart
    have same : min (base + off + len) (max (base + off) (base + (chunkOff + cdata))) =
        min (base + off + len) (max (base + off) (base + chunkOff)) := by omega
    rwa [same] at places
  · rename_i meets
    by_cases breaks : chunkOff < off ∧ off < chunkOff + cdata ∧ chunkOff + cdata < off + len ∧ chunkOff + cdata ≤ len
    · rw [calculateOffsetAndLength_none fileOff (by omega) (by omega) breaks.1 breaks.2.2.1 breaks.2.2.2]
      exact .gap (far breaks) (by omega) (by omega) places
    · rw [calculateOffsetAndLength_spec fileOff (by omega) (by omega) (by omega) (by omega) (by omega)]
      have next : min (base + off + len) (max (base + off) (base + (chunkOff + cdata))) =
          min (base + off + len) (max (base + off) (base + chunkOff)) + (min (off + len) (chunkOff + cdata) - max off chunkOff) := by omega
      refine .cons (fun here => breaks ?_) file ?_ ?_ ?_ ?_ (next ▸ places)
      · have := broken here
        omega
      · show t.start k + (fileOff + (max off chunkOff - chunkOff)) = _
        omega
      · show fileOff + (max off chunkOff - chunkOff) + (min (off + len) (chunkOff + cdata) - max off chunkOff) ≤ t.size k
        omega
      · show 0 < min (off + len) (chunkOff + cdata) - max off chunkOff
        omega
      · show _ + (min (off + len) (chunkOff + cdata) - max off chunkOff) ≤ _
        omega

-- When no later file has bytes of the chunk, this one has them to its end.
theorem chunk_ends (fits : t.chunkSize < 4294967296) (inside : c < t.numChunks) (overlaps : Overlaps t c k) (last : filesOf t c (k + 1) = []) :
    c * t.chunkSize + t.chunkLen c ≤ t.start k + t.size k := by
  have len := chunkLen_eq fits inside
  have whole := lt_numChunks.mp inside
  refine Nat.le_of_not_lt fun short => ?_
  obtain ⟨j,few,low,high⟩ := exists_file (t := t) (x := t.start k + t.size k) (by omega)
  have after : k < j := by
    refine Nat.lt_of_not_le fun before => ?_
    have := t.start_mono (show j + 1 ≤ k + 1 by omega)
    rw [start_succ,start_succ] at this
    omega
  have member : j ∈ filesOf t c (k + 1) := mem_filesOf.mpr ⟨after,few,by omega,by rw [Nat.succ_mul]; omega,by
    have := overlaps.2.2
    omega⟩
  rw [last] at member
  cases member

theorem file_ends (more : filesOf t c (k + 1) ≠ []) : t.start k + t.size k < (c + 1) * t.chunkSize := by
  obtain ⟨j,member⟩ := List.exists_mem_of_ne_nil _ more
  obtain ⟨low,_,_,first,_⟩ := mem_filesOf.mp member
  have := t.start_mono low
  rw [start_succ] at this
  omega

theorem fileOffset_eq (inside : c < t.numChunks) (before : t.start k ≤ c * t.chunkSize) :
    t.fileOffset (t.file k) c = c * t.chunkSize - t.start k := by
  have small := numChunks_small t
  have long := t.long
  have whole := lt_numChunks.mp inside
  have positive := t.chunked
  have parts : t.chunkSize * (t.start k / t.chunkSize) + t.start k % t.chunkSize = t.start k := Nat.div_add_mod _ _
  have low : t.start k / t.chunkSize ≤ c := by
    have := Nat.div_le_div_right before (c := t.chunkSize)
    rwa [Nat.mul_div_cancel _ positive] at this
  have rest : t.start k % t.chunkSize < t.chunkSize := Nat.mod_lt _ positive
  have offset : (t.file k).firstChunkOffset = t.start k % t.chunkSize := rfl
  unfold totalSize at whole
  unfold fileOffset
  rw [offset,firstChunk_eq,uint32Sub_of_le low (by omega)]
  generalize t.start k / t.chunkSize = q at *
  generalize t.start k % t.chunkSize = r at *
  obtain ⟨n,rfl⟩ := Nat.exists_eq_add_of_le low
  have product : (q + n) * t.chunkSize = t.chunkSize * q + n * t.chunkSize := by
    rw [Nat.add_mul,Nat.mul_comm q]
  have again : q + n - q = n := by omega
  rw [again]
  by_cases zero : r = 0
  · rw [if_pos zero,uint64_of_lt (by omega)]
    omega
  · cases n with
    | zero => omega
    | succ n =>
      have succ : (n + 1) * t.chunkSize = n * t.chunkSize + t.chunkSize := Nat.succ_mul _ _
      have one : uint32Sub (n + 1) 1 = n := uint32Sub_of_le (by omega) (by omega)
      rw [if_neg zero,if_pos (show n + 1 > 0 by omega),one]
      dsimp only
      rw [if_pos (by omega),uint64_of_lt (show n * t.chunkSize < _ by omega),uint64_of_lt (by omega)]
      omega

theorem parts_rest (fits : t.chunkSize < 4294967296) (range : InChunk t c off len) (n : Nat) (left : k + n = t.numFiles)
    (i : Nat) (later : 0 < i) (chunkOff : Nat) (at_ : t.start k = c * t.chunkSize + chunkOff)
    (count : Nat) (counts : count = i + (filesOf t c k).length) (several : count ≠ 1) :
    Places t c off len (c * t.chunkSize + off + len)
      (min (c * t.chunkSize + off + len) (max (c * t.chunkSize + off) (c * t.chunkSize + chunkOff)))
      (parts t c off len count i chunkOff (filesOf t c k)) := by
  have chunk := chunkLen_eq fits range.chunk
  have upTo := range.upTo
  have whole := lt_numChunks.mp range.chunk
  have small : t.chunkLen c < 4294967296 := by omega
  induction n generalizing k i chunkOff with
  | zero =>
    have past : t.start k = t.totalSize := by rw [show k = t.numFiles by omega,start_numFiles]
    rw [filesOf_end (by omega)]
    exact .nil (by omega)
  | succ n ih =>
    have step := t.start_succ k
    rw [filesOf_step (by omega)] at counts ⊢
    by_cases here : Overlaps t c k
    · rw [if_pos here] at counts ⊢
      rw [List.length_cons] at counts
      have some_ := here.1
      have first := here.2.1
      have inTotal := t.start_le (k + 1)
      rw [Nat.succ_mul] at first
      unfold parts
      dsimp only
      rw [if_neg several,if_neg (show i ≠ 0 by omega),if_neg (show i ≠ 0 by omega)]
      by_cases last : filesOf t c (k + 1) = []
      · have ends := chunk_ends fits range.chunk here last
        rw [last,List.length_nil] at counts
        rw [if_pos (show i = count - 1 by omega),last,uint32Sub_of_le (show chunkOff ≤ t.chunkLen c by omega) small]
        have rest : parts t c off len count (i + 1) (uint32 (chunkOff + (t.chunkLen c - chunkOff))) [] = [] := by
          unfold parts
          rfl
        rw [rest]
        refine places_step chunkOff range small (show k < t.numFiles by omega) (show t.start k + 0 = _ from at_) (fun _ => rfl) (by omega)
          (by omega) (by omega) (.inr (by omega)) (.nil ?_)
        omega
      · have ends := file_ends last
        have more := List.length_pos_iff.mpr last
        rw [Nat.succ_mul] at ends
        have size : (t.file k).size = t.size k := rfl
        rw [if_neg (show i ≠ count - 1 by omega),size,uint32_of_lt (show t.size k < 4294967296 by omega)]
        obtain ⟨j,member⟩ := List.exists_mem_of_ne_nil _ last
        have past : t.start (k + 1) ≤ c * t.chunkSize + t.chunkLen c := by
          obtain ⟨low,_,bytes,start,_⟩ := mem_filesOf.mp member
          have := t.start_mono low
          have := t.start_le (j + 1)
          rw [start_succ] at this
          rw [Nat.succ_mul] at start
          omega
        rw [uint32_of_lt (show chunkOff + t.size k < 4294967296 by omega)]
        have rest := ih (k := k + 1) (by omega) (i + 1) (by omega) (chunkOff + t.size k) (by omega) (by omega)
        have once := places_step chunkOff range small (show k < t.numFiles by omega) (show t.start k + 0 = _ from at_) (fun _ => rfl) some_
          (show 0 + t.size k ≤ t.size k by omega) (by omega) (.inl (Nat.zero_add _)) rest
        rw [uint32_of_lt (show chunkOff + t.size k < 4294967296 by omega)] at once
        exact once
    · rw [if_neg here] at counts ⊢
      by_cases empty : t.size k = 0
      · exact ih (by omega) i later chunkOff (by omega) counts
      · have behind : (c + 1) * t.chunkSize ≤ t.start k := by
          refine Nat.le_of_not_lt fun less => here ⟨by omega,less,by omega⟩
        rw [Nat.succ_mul] at behind
        have none : filesOf t c (k + 1) = [] := by
          apply List.eq_nil_iff_forall_not_mem.mpr
          intro j member
          obtain ⟨low,_,_,start,_⟩ := mem_filesOf.mp member
          have := t.start_mono (show k ≤ j by omega)
          rw [Nat.succ_mul] at start
          omega
        rw [none]
        exact .nil (by omega)

theorem filesOf_head (inside : c < t.numChunks) : ∃ k, filesOf t c 0 = k :: filesOf t c (k + 1) ∧ k < t.numFiles ∧ Overlaps t c k ∧
    t.start k ≤ c * t.chunkSize := by
  cases list : filesOf t c 0 with
  | nil => exact absurd list (filesOf_ne_nil inside)
  | cons k rest =>
    have sorted : (filesOf t c 0).Pairwise (· < ·) := List.Pairwise.filter _ List.pairwise_lt_range'
    have first : ∀ j, j ∈ filesOf t c 0 → k ≤ j := fun j member => by
      rw [list] at member sorted
      rcases List.mem_cons.mp member with same | after
      · omega
      · exact Nat.le_of_lt ((List.pairwise_cons.mp sorted).1 j after)
    obtain ⟨_,few,overlaps⟩ := mem_filesOf.mp (list ▸ List.mem_cons_self : k ∈ filesOf t c 0)
    have skip : filesOf t c 0 = filesOf t c k := filesOf_skip (Nat.zero_le k) fun i _ before here => by
      have := first i (mem_filesOf.mpr ⟨Nat.zero_le i,by omega,here⟩)
      omega
    obtain ⟨j,inFiles,low,high⟩ := exists_file (lt_numChunks.mp inside)
    have positive := t.chunked
    have order := first j (mem_filesOf.mpr ⟨Nat.zero_le j,inFiles,by omega,by rw [Nat.succ_mul]; omega,high⟩)
    refine ⟨k,?_,few,overlaps,Nat.le_trans (t.start_mono order) low⟩
    rw [← list,skip,filesOf_step few,if_pos overlaps]

theorem lastChunkSize_eq (fits : t.chunkSize < 4294967296) (last : (t.file k).lastChunk = c) :
    c * t.chunkSize + uint32 (t.file k).lastChunkSize = t.start k + t.size k := by
  have same := Layout.lastChunkSize_eq (l := t.layout k) fits
  simp only [Layout.lastChunk,Layout.lastChunkSize,Layout.file,layout,if_true] at same
  unfold file at last ⊢
  rw [last] at same
  exact same

theorem parts_places (fits : t.chunkSize < 4294967296) (range : InChunk t c off len) :
    Places t c off len (c * t.chunkSize + off + len) (c * t.chunkSize + off) (parts t c off len (filesOf t c 0).length 0 0 (filesOf t c 0)) := by
  obtain ⟨k,list,few,here,before⟩ := filesOf_head range.chunk
  have chunk := chunkLen_eq fits range.chunk
  have whole := lt_numChunks.mp range.chunk
  have positive := t.chunked
  have small : t.chunkLen c < 4294967296 := by omega
  have offset := fileOffset_eq range.chunk before
  have reaches := here.2.2
  have from_ : min (c * t.chunkSize + off + len) (max (c * t.chunkSize + off) (c * t.chunkSize + 0)) = c * t.chunkSize + off := by omega
  suffices loop : Places t c off len (c * t.chunkSize + off + len)
      (min (c * t.chunkSize + off + len) (max (c * t.chunkSize + off) (c * t.chunkSize + 0)))
      (parts t c off len (filesOf t c 0).length 0 0 (filesOf t c 0)) by rwa [from_] at loop
  rw [list]
  unfold parts
  dsimp only
  rw [if_pos rfl,offset,if_pos rfl,Nat.zero_add]
  by_cases last : filesOf t c (k + 1) = []
  · have ends := chunk_ends fits range.chunk here last
    rw [last]
    have one : ([k] : List Nat).length = 1 := rfl
    have rest : parts t c off len 1 1 (uint32 (t.chunkLen c)) [] = [] := by
      unfold parts
      rfl
    rw [one,if_pos rfl,rest]
    have upTo := range.upTo
    have once := places_step 0 range small few (show t.start k + (c * t.chunkSize - t.start k) = _ by omega)
      (fun some_ => absurd some_ (Nat.lt_irrefl 0)) (show 0 < t.chunkLen c by omega) (by omega) (by omega) (.inr (Nat.zero_add _)) (.nil (by omega))
    rw [Nat.zero_add] at once
    exact once
  · have ends := file_ends last
    have more := List.length_pos_iff.mpr last
    have chunkOf : (t.file k).lastChunk = c := by
      rw [lastChunk_eq,if_pos here.1]
      refine Nat.div_eq_of_lt_le ?_ ?_
      · omega
      · omega
    have size := lastChunkSize_eq fits chunkOf
    have count : (k :: filesOf t c (k + 1)).length ≠ 1 := by
      rw [List.length_cons]
      omega
    have inTotal := t.start_le (k + 1)
    have next := t.start_succ k
    rw [Nat.succ_mul] at ends
    rw [if_neg count]
    generalize uint32 (t.file k).lastChunkSize = cdata at *
    rw [uint32_of_lt (show cdata < 4294967296 by omega)]
    have rest := parts_rest (k := k + 1) fits range (t.numFiles - (k + 1)) (by omega) 1 Nat.one_pos cdata (by omega) _
      (by rw [List.length_cons,Nat.add_comm]) count
    have once := places_step 0 range small few (show t.start k + (c * t.chunkSize - t.start k) = _ by omega)
      (fun some_ => absurd some_ (Nat.lt_irrefl 0)) (show 0 < cdata by omega) (by omega) (by omega) (.inl (by omega)) (by rw [Nat.zero_add]; exact rest)
    rw [Nat.zero_add,uint32_of_lt (show cdata < 4294967296 by omega)] at once
    exact once

theorem parts_cover (fits : t.chunkSize < 4294967296) (range : InChunk t c off len) (unbroken : ∀ k, ¬ Breaks t c off len k) :
    Covers t (c * t.chunkSize + off + len) (c * t.chunkSize + off) (parts t c off len (filesOf t c 0).length 0 0 (filesOf t c 0)) :=
  (parts_places fits range).covers unbroken

end MultiFileCache

end KtorrentStream.Diskio
