import KtorrentStream.Diskio.AddressMap
set_option autoImplicit true

namespace KtorrentStream.Diskio.MultiFileCache
open KtorrentStream.Util KtorrentStream.Torrent KtorrentStream.Torrent.Files

-- Where a piece starts in the torrent.
def address (t : Files) (pd : PieceData) : Nat := pd.chunk * t.chunkSize + pd.off

-- A mapped piece is a part of one file that is long enough.
structure PieceOk (t : Files) (files : List CacheFile) (pd : PieceData) : Prop where
  proper : Proper t pd.chunk pd.off pd.len
  buf : pd.mapped = false → pd.buf.length = pd.len
  alone : pd.mapped = true → (filesOf t pd.chunk 0).length = 1
  stored : pd.mapped = true → Stored t files (address t pd) (address t pd + pd.len)

structure Consistent (t : Files) (m : MultiFileCache) : Prop where
  files : FilesOk t m.files
  pos : PosValid t m.pos
  pieces : ∀ (p : Nat) (pd : PieceData), m.pieces[p]? = some pd → PieceOk t m.files pd

-- What is saved of the torrent, byte by byte.
def savedAt (a : Nat) (bytes : List UInt8) (saved : Nat → Option UInt8) : Nat → Option UInt8 := fun x =>
  if a ≤ x ∧ x < a + bytes.length then bytes[x - a]? else saved x

-- A run of the cache: pieces are prepared, loaded, written and saved, in any order, and
-- which of them can be mapped changes. What is written to a mapped piece is in the file at
-- once.
inductive Reached (t : Files) : MultiFileCache → (Nat → Option UInt8) → Prop
  | new {m : MultiFileCache} (files : FilesOk t m.files) (pos : m.pos = ⟨0,0⟩) (pieces : m.pieces = []) : Reached t m fun _ => none
  | prepare {m m' : MultiFileCache} (before : Reached t m saved) (proper : Proper t c off len) (prepared : m.preparePiece t c off len = some (p,m')) :
      Reached t m' saved
  | load {m m' : MultiFileCache} (before : Reached t m saved) (proper : Proper t c off len) (loaded : m.loadPiece t c off len = some (p,m')) : Reached t m' saved
  | write {m m' : MultiFileCache} {p : Nat} {pd : PieceData} (before : Reached t m saved) (piece : m.pieces[p]? = some pd) (data : List UInt8) (fits : data.length ≤ pd.len)
      (wrote : m.write t p data = some m') : Reached t m' (if pd.mapped then savedAt (address t pd) data saved else saved)
  | save {m m' : MultiFileCache} {p : Nat} {pd : PieceData} (before : Reached t m saved) (piece : m.pieces[p]? = some pd) (saves : m.savePiece t p = some m') :
      Reached t m' (savedAt (address t pd) (m.bytes t pd) saved)
  | clear {m : MultiFileCache} (before : Reached t m saved) (chunk : Nat) : Reached t (m.clearPieces chunk) saved
  | remap {m : MultiFileCache} (before : Reached t m saved) (canMap : Nat → Nat → Bool) : Reached t {m with canMap := canMap} saved

-- Bytes that are in the files stay there.
def Kept (files files' : List CacheFile) : Prop := ∀ k g byte, fileByte files k g = some byte → fileByte files' k g = some byte

variable {t : Files} {m m' : MultiFileCache} {files files' : List CacheFile} {pd : PieceData}

theorem Stored.mono (stored : Stored t files a b) (there : ∀ k g, (fileByte files k g).isSome = true → (fileByte files' k g).isSome = true) :
    Stored t files' a b := fun k g less low high => there k g (stored k g less low high)

theorem PieceOk.mono (ok : PieceOk t files pd) (there : ∀ k g, (fileByte files k g).isSome = true → (fileByte files' k g).isSome = true) :
    PieceOk t files' pd := ⟨ok.proper,ok.buf,ok.alone,fun mapped => (ok.stored mapped).mono there⟩

theorem Kept.isSome (kept : Kept files files') (k g : Nat) (here : (fileByte files k g).isSome = true) : (fileByte files' k g).isSome = true := by
  obtain ⟨byte,some_⟩ := Option.isSome_iff_exists.mp here
  rw [kept k g byte some_]
  rfl

theorem Written.isSome (written : Written t a data files files') (ok : FilesOk t files) (k g : Nat) (here : (fileByte files k g).isSome = true) :
    (fileByte files' k g).isSome = true := by
  obtain ⟨byte,some_⟩ := Option.isSome_iff_exists.mp here
  by_cases inside : a ≤ t.start k + g ∧ t.start k + g < a + data.length
  · obtain ⟨f,there,byteThere⟩ := Option.bind_eq_some_iff.mp some_
    have less := (List.getElem?_eq_some_iff.mp byteThere).1
    have size := (ok.sized k f there).2
    rw [written.inside k g (by omega) inside.1 inside.2,List.getElem?_eq_getElem (by omega)]
    rfl
  · rw [written.kept k g byte inside some_]
    rfl

theorem single_part (fits : t.chunkSize < 4294967296) (range : InChunk t c off len) (single : (filesOf t c 0).length = 1) :
    ∃ k, filesOf t c 0 = [k] ∧ k < t.numFiles ∧ uint64 (t.fileOffset (t.file k) c + off) + t.start k = c * t.chunkSize + off ∧
      uint64 (t.fileOffset (t.file k) c + off) + len ≤ t.size k := by
  obtain ⟨k,list,few,here,before⟩ := filesOf_head range.chunk
  rw [list,List.length_cons] at single
  have last : filesOf t c (k + 1) = [] := List.length_eq_zero_iff.mp (by omega)
  have ends := chunk_ends fits range.chunk here last
  have upTo := range.upTo
  have small := file_small t k
  rw [last] at list
  refine ⟨k,list,few,?_⟩
  rw [fileOffset_eq range.chunk before,uint64_of_lt (by omega)]
  omega

theorem mappedFile_eq (inside : c < t.numChunks) (single : filesOf t c 0 = [k]) : mappedFile t c = k := by
  unfold mappedFile
  rw [(calcChunkPos_spec (start_posValid t) inside).1,single]
  rfl

theorem grown_kept {f : CacheFile} (there : files[k]? = some f) (size : Nat) : Kept files (files.set k {f with data := f.grown size}) := by
  have inside := (List.getElem?_eq_some_iff.mp there).1
  intro j g byte some_
  rw [fileByte_set inside]
  by_cases same : j = k
  · subst same
    unfold fileByte at some_
    rw [there] at some_
    have less := (List.getElem?_eq_some_iff.mp (show f.data[g]? = some byte from some_)).1
    rw [if_pos rfl,CacheFile.grown_get,if_pos less]
    exact some_
  · rw [if_neg same]
    exact some_

theorem map_spec {f : CacheFile} (ok : FilesOk t files) (there : files[k]? = some f) (inFile : off + len ≤ t.size k) :
    ∃ f', f.map len off = some f' ∧ FilesOk t (files.set k f') ∧ Kept files (files.set k f') ∧
      Stored t (files.set k f') (t.start k + off) (t.start k + off + len) := by
  obtain ⟨max_,fits⟩ := ok.sized k f there
  have small := file_small t k
  have inside := (List.getElem?_eq_some_iff.mp there).1
  refine ⟨{f with data := f.grown (off + len)},?_,ok.set max_ ?_,grown_kept there _,?_⟩
  · unfold CacheFile.map
    rw [uint64_of_lt (by omega),if_neg (by omega)]
  · show (f.grown (off + len)).length ≤ _
    rw [CacheFile.grown_length]
    omega
  · intro j g less low high
    obtain rfl := file_of_range less inFile (by omega) (by omega)
    rw [fileByte_set inside,if_pos rfl,CacheFile.grown_get]
    by_cases there : g < f.data.length
    · rw [if_pos there,List.getElem?_eq_getElem there]
      rfl
    · rw [if_neg there,if_pos (by omega)]
      rfl

-- A new piece, at the end of the pieces.
structure Created (t : Files) (m : MultiFileCache) (chunk off len : Nat) (readOnly : Bool) (pd : PieceData) (m' : MultiFileCache) : Prop where
  inv : Consistent t m'
  kept : Kept m.files m'.files
  pieces : m'.pieces = m.pieces ++ [pd]
  chunk : pd.chunk = chunk
  off : pd.off = off
  len : pd.len = len
  readOnly : pd.readOnly = readOnly

theorem Consistent.insert (inv : Consistent t m) (pos : PosValid t pos') (ok : FilesOk t files') (kept : Kept m.files files') (piece : PieceOk t files' pd) :
    Consistent t ({m with files := files',pos := pos'}.insertPiece pd) := by
  refine ⟨ok,pos,fun p pd' there => ?_⟩
  change (m.pieces ++ [pd])[p]? = some pd' at there
  by_cases old : p < m.pieces.length
  · rw [List.getElem?_append_left old] at there
    exact (inv.pieces p pd' there).mono kept.isSome
  · rw [List.getElem?_append_right (by omega)] at there
    rw [List.mem_singleton.mp (List.mem_of_getElem? there)]
    exact piece

theorem buffered_ok (proper : Proper t c off len) (m : MultiFileCache) (readOnly : Bool) (files : List CacheFile) :
    PieceOk t files (m.buffered c off len readOnly) := by
  refine ⟨proper,fun _ => ?_,fun mapped => (nomatch mapped),fun mapped => (nomatch mapped)⟩
  show ((List.range len).map _).length = len
  rw [List.length_map,List.length_range]

theorem createPiece_spec (fits : t.chunkSize < 4294967296) (inv : Consistent t m) (proper : Proper t c off len) (readOnly : Bool) :
    ∃ pd m', m.createPiece t c off len readOnly = some (m.pieces.length,m') ∧ Created t m c off len readOnly pd m' := by
  obtain ⟨list,pos⟩ := calcChunkPos_spec inv.pos proper.chunk
  have unmapped : Created t m c off len readOnly (m.buffered c off len readOnly)
      ({m with pos := (t.calcChunkPos m.pos c).2}.insertPiece (m.buffered c off len readOnly)) :=
    ⟨inv.insert pos inv.files (fun _ _ _ some_ => some_) (buffered_ok proper m readOnly m.files),fun _ _ _ some_ => some_,rfl,rfl,rfl,rfl,rfl⟩
  unfold createPiece
  dsimp only
  rw [list]
  by_cases single : (filesOf t c 0).length = 1
  · obtain ⟨k,one,few,at_,inFile⟩ := single_part fits proper.inChunk single
    obtain ⟨f,there⟩ := inv.files.file few
    rw [one]
    dsimp only
    rw [there]
    dsimp only
    cases m.canMap c off with
    | true =>
      obtain ⟨f',mapped,ok,kept,stored⟩ := map_spec inv.files there inFile
      have place : t.start k + uint64 (t.fileOffset (t.file k) c + off) = c * t.chunkSize + off := by omega
      rw [place] at stored
      rw [if_pos rfl]
      unfold mappedOff
      rw [mapped]
      refine ⟨⟨c,off,len,true,readOnly,[]⟩,_,rfl,inv.insert pos ok kept ?_,kept,rfl,rfl,rfl,rfl,rfl⟩
      exact ⟨proper,fun unmapped => (nomatch unmapped),fun _ => single,fun _ => stored⟩
    | false => exact ⟨_,_,rfl,unmapped⟩
  · split
    · rename_i k one
      rw [one] at single
      exact absurd rfl single
    · exact ⟨_,_,rfl,unmapped⟩

theorem Created.last {o n : Nat} {r : Bool} (created : Created t m c o n r pd m') : m'.pieces[m.pieces.length]? = some pd := by
  rw [created.pieces]
  exact List.getElem?_concat_length

theorem fromFiles_spec (fits : t.chunkSize < 4294967296) (ok : FilesOk t m.files) (valid : PosValid t m.pos) (range : InChunk t c off len)
    (unbroken : ∀ k, ¬ Breaks t c off len k)
    (stored : Stored t m.files (c * t.chunkSize + off) (c * t.chunkSize + off + len)) :
    ∃ bytes pos, m.fromFiles t c off len = some (bytes,pos) ∧ PosValid t pos ∧
      BytesFrom t m.files (c * t.chunkSize + off) (c * t.chunkSize + off + len) bytes := by
  obtain ⟨list,pos⟩ := calcChunkPos_spec valid range.chunk
  unfold fromFiles
  dsimp only
  rw [list]
  by_cases single : (filesOf t c 0).length = 1
  · obtain ⟨k,one,few,at_,inFile⟩ := single_part fits range single
    obtain ⟨f,there⟩ := ok.file few
    have place : t.start k + uint64 (t.fileOffset (t.file k) c + off) = c * t.chunkSize + off := by omega
    obtain ⟨bytes,read,here⟩ := read_part ⟨k,uint64 (t.fileOffset (t.file k) c + off),len⟩ ok there range.some_
      inFile (by rw [place]; exact stored)
    rw [place] at here
    rw [one]
    dsimp only
    rw [there]
    refine ⟨bytes,_,?_,pos,here⟩
    show (f.read len (uint64 (t.fileOffset (t.file k) c + off))).map _ = _
    rw [read]
    rfl
  · obtain ⟨bytes,read,here⟩ := readParts_spec ok (parts_cover fits range unbroken) stored
    split
    · rename_i k one
      rw [one] at single
      exact absurd rfl single
    · rw [read]
      exact ⟨bytes,_,rfl,pos,here⟩

theorem mapped_bytes (fits : t.chunkSize < 4294967296) (inv : Consistent t m) (ok : PieceOk t m.files pd) (mapped : pd.mapped = true) :
    BytesFrom t m.files (address t pd) (address t pd + pd.len) (m.bytes t pd) := by
  obtain ⟨k,one,few,at_,inFile⟩ := single_part fits ok.proper.inChunk (ok.alone mapped)
  obtain ⟨f,there⟩ := inv.files.file few
  have place : t.start k + mappedOff t k pd.chunk pd.off = address t pd := by
    unfold mappedOff address
    omega
  obtain ⟨bytes,read,here⟩ := read_part ⟨k,mappedOff t k pd.chunk pd.off,pd.len⟩ inv.files there ok.proper.some_
    inFile (by rw [place]; exact ok.stored mapped)
  have same : m.bytes t pd = bytes := by
    unfold MultiFileCache.bytes
    rw [if_pos mapped,mappedFile_eq ok.proper.chunk one]
    dsimp only
    rw [there]
    unfold CacheFile.read at read
    split at read
    · cases read
    · dsimp only at read
      split at read
      · exact Option.some.inj read
      · cases read
  rw [place] at here
  rw [same]
  exact here

def Holds (t : Files) (files : List CacheFile) (saved : Nat → Option UInt8) : Prop :=
  ∀ k g byte, g < t.size k → saved (t.start k + g) = some byte → fileByte files k g = some byte

theorem Holds.kept {saved : Nat → Option UInt8} (holds : Holds t files saved) (kept : Kept files files') : Holds t files' saved :=
  fun k g byte less here => kept k g byte (holds k g byte less here)

theorem Holds.written {saved : Nat → Option UInt8} (holds : Holds t files saved) (written : Written t a data files files') :
    Holds t files' (savedAt a data saved) := by
  intro k g byte less here
  unfold savedAt at here
  split at here
  · rename_i inside
    rw [written.inside k g less inside.1 inside.2]
    exact here
  · rename_i outside
    exact written.kept k g byte outside (holds k g byte less here)

theorem bytes_length (fits : t.chunkSize < 4294967296) (inv : Consistent t m) (ok : PieceOk t m.files pd) : (m.bytes t pd).length = pd.len := by
  cases mapped : pd.mapped with
  | true =>
    have := (mapped_bytes fits inv ok mapped).length
    omega
  | false =>
    unfold MultiFileCache.bytes
    rw [mapped]
    exact ok.buf mapped

theorem savePiece_spec (fits : t.chunkSize < 4294967296) (inv : Consistent t m) (piece : m.pieces[p]? = some pd) :
    ∃ m', m.savePiece t p = some m' ∧ Written t (address t pd) (m.bytes t pd) m.files m'.files ∧ PosValid t m'.pos ∧
      m'.pieces = m.pieces := by
  have ok := inv.pieces p pd piece
  unfold savePiece
  rw [piece]
  dsimp only
  cases mapped : pd.mapped with
  | true =>
    have there := mapped_bytes fits inv ok mapped
    have length := bytes_length fits inv ok
    refine ⟨m,rfl,⟨inv.files,fun k g less low high => ?_,fun _ _ _ _ some_ => some_,fun _ _ _ none => .inl none⟩,inv.pos,rfl⟩
    exact (there.here k g less low (by omega)).symm
  | false =>
    obtain ⟨list,pos⟩ := calcChunkPos_spec inv.pos ok.proper.chunk
    have buf : m.bytes t pd = pd.buf := by
      unfold MultiFileCache.bytes
      rw [mapped]
      rfl
    have length := ok.buf mapped
    have covers := parts_cover fits ok.proper.inChunk ok.proper.unbroken
    have reaches : pd.chunk * t.chunkSize + pd.off + pd.buf.length = max (pd.chunk * t.chunkSize + pd.off) (pd.chunk * t.chunkSize + pd.off + pd.len) := by
      omega
    obtain ⟨files',result,written⟩ := writeParts_spec inv.files covers reaches
    rw [if_neg (by decide),list,result,buf]
    exact ⟨_,rfl,written,pos,rfl⟩

theorem Consistent.keep (inv : Consistent t m) (ok : FilesOk t m'.files) (pos : PosValid t m'.pos) (same : m'.pieces = m.pieces)
    (there : ∀ k g, (fileByte m.files k g).isSome = true → (fileByte m'.files k g).isSome = true) : Consistent t m' :=
  ⟨ok,pos,fun p pd piece => (inv.pieces p pd (same ▸ piece)).mono there⟩

theorem Consistent.setPiece (inv : Consistent t m) (ok : PieceOk t m.files pd') :
    Consistent t {m with pieces := m.pieces.set p pd'} := by
  refine ⟨inv.files,inv.pos,fun q pd piece => ?_⟩
  by_cases same : q = p
  · subst same
    obtain ⟨inside,_⟩ := List.getElem?_eq_some_iff.mp piece
    rw [List.length_set] at inside
    rw [List.getElem?_set_self inside] at piece
    cases piece
    exact ok
  · rw [List.getElem?_set_ne (fun e => same e.symm)] at piece
    exact inv.pieces q pd piece

theorem mapped_written (fits : t.chunkSize < 4294967296) (inv : Consistent t m) (ok : PieceOk t m.files pd) (mapped : pd.mapped = true)
    (data : List UInt8) (short : data.length ≤ pd.len) :
    ∃ f, m.files[mappedFile t pd.chunk]? = some f ∧
      Written t (address t pd) data m.files (m.files.set (mappedFile t pd.chunk)
        {f with data := CacheFile.splice f.data data (mappedOff t (mappedFile t pd.chunk) pd.chunk pd.off)}) := by
  obtain ⟨k,one,few,at_,inFile⟩ := single_part fits ok.proper.inChunk (ok.alone mapped)
  obtain ⟨f,there⟩ := inv.files.file few
  have positive := ok.proper.some_
  have place : t.start k + mappedOff t k pd.chunk pd.off = address t pd := by
    unfold mappedOff address
    omega
  have long : mappedOff t k pd.chunk pd.off ≤ f.data.length := by
    obtain ⟨byte,here⟩ := Option.isSome_iff_exists.mp (ok.stored mapped k (mappedOff t k pd.chunk pd.off)
      (by unfold mappedOff; omega) (by omega) (by omega))
    unfold fileByte at here
    rw [there] at here
    exact Nat.le_of_lt (List.getElem?_eq_some_iff.mp (show f.data[_]? = some byte from here)).1
  have same : f.grown (mappedOff t k pd.chunk pd.off) = f.data := by
    unfold CacheFile.grown
    rw [Nat.sub_eq_zero_of_le long]
    exact List.append_nil _
  obtain ⟨f',wrote,written⟩ := written_part ⟨k,mappedOff t k pd.chunk pd.off,pd.len⟩ data inv.files there
    (show mappedOff t k pd.chunk pd.off + data.length ≤ t.size k by unfold mappedOff; omega)
  rw [mappedFile_eq ok.proper.chunk one]
  refine ⟨f,there,?_⟩
  unfold CacheFile.write at wrote
  split at wrote
  · cases wrote
  · cases wrote
    rw [place] at written
    dsimp only at written
    rw [same] at written
    exact written

theorem write_spec {saved : Nat → Option UInt8} (fits : t.chunkSize < 4294967296) (inv : Consistent t m) (holds : Holds t m.files saved)
    (piece : m.pieces[p]? = some pd) (data : List UInt8) (short : data.length ≤ pd.len) (wrote : m.write t p data = some m') :
    Consistent t m' ∧ Holds t m'.files (if pd.mapped then savedAt (address t pd) data saved else saved) := by
  have ok := inv.pieces p pd piece
  unfold MultiFileCache.write at wrote
  rw [piece] at wrote
  dsimp only at wrote
  rw [if_neg (by omega)] at wrote
  split at wrote
  · cases wrote
  · cases mapped : pd.mapped with
    | true =>
      obtain ⟨f,there,written⟩ := mapped_written fits inv ok mapped data short
      rw [mapped,if_pos rfl,there] at wrote
      cases wrote
      exact ⟨inv.keep written.ok inv.pos rfl (Written.isSome written inv.files),holds.written written⟩
    | false =>
      rw [mapped,if_neg (by decide)] at wrote
      cases wrote
      have length := ok.buf mapped
      refine ⟨inv.setPiece ⟨ok.proper,fun _ => ?_,fun on => ?_,fun on => ?_⟩,holds⟩
      · show (data ++ pd.buf.drop data.length).length = pd.len
        rw [List.length_append,List.length_drop]
        omega
      · cases on
      · cases on

theorem fromFiles_length {bytes : List UInt8} {pos : PosCache} (fits : t.chunkSize < 4294967296) (inv : Consistent t m)
    (proper : Proper t c off len) (read : m.fromFiles t c off len = some (bytes,pos)) : bytes.length = len ∧ PosValid t pos := by
  obtain ⟨list,valid⟩ := calcChunkPos_spec inv.pos proper.chunk
  have covers := parts_cover fits proper.inChunk proper.unbroken
  unfold fromFiles at read
  dsimp only at read
  rw [list] at read
  split at read
  · obtain ⟨bytes',once,same⟩ := Option.map_eq_some_iff.mp read
    cases same
    obtain ⟨f,_,one⟩ := Option.bind_eq_some_iff.mp once
    exact ⟨read_length one,valid⟩
  · obtain ⟨bytes',once,same⟩ := Option.map_eq_some_iff.mp read
    cases same
    have := readParts_length covers once
    exact ⟨by omega,valid⟩

-- A piece that is not in the cache is created, and read unless it is mapped.
theorem loadPiece_new (fits : t.chunkSize < 4294967296) (inv : Consistent t m) (proper : Proper t c off len)
    (none : m.findPiece c off len true = none) (loaded : m.loadPiece t c off len = some (p,m')) :
    p = m.pieces.length ∧ Consistent t m' ∧ Kept m.files m'.files := by
  obtain ⟨pd,created,result,spec⟩ := createPiece_spec fits inv proper true
  unfold loadPiece at loaded
  rw [none] at loaded
  dsimp only at loaded
  rw [result] at loaded
  dsimp only at loaded
  rw [spec.last] at loaded
  dsimp only at loaded
  split at loaded
  · cases loaded
    exact ⟨rfl,spec.inv,spec.kept⟩
  · rename_i unmapped
    split at loaded
    · cases loaded
    · rename_i bytes pos read
      cases loaded
      have ok := spec.inv.pieces _ _ spec.last
      obtain ⟨length,valid⟩ := fromFiles_length fits spec.inv proper read
      have buf := ok.buf (by simpa using unmapped)
      have len := spec.len
      refine ⟨rfl,?_,spec.kept⟩
      have moved : Consistent t {created with pos := pos} := ⟨spec.inv.files,valid,spec.inv.pieces⟩
      refine moved.setPiece ⟨ok.proper,fun _ => ?_,fun on => absurd on unmapped,fun on => absurd on unmapped⟩
      show (bytes ++ pd.buf.drop bytes.length).length = pd.len
      rw [List.length_append,List.length_drop]
      omega

theorem loadPiece_kept (fits : t.chunkSize < 4294967296) (inv : Consistent t m) (proper : Proper t c off len)
    (loaded : m.loadPiece t c off len = some (p,m')) : Consistent t m' ∧ Kept m.files m'.files := by
  cases found : m.findPiece c off len true with
  | some q =>
    unfold loadPiece at loaded
    rw [found] at loaded
    cases loaded
    exact ⟨inv,fun _ _ _ some_ => some_⟩
  | none => exact (loadPiece_new fits inv proper found loaded).2

theorem preparePiece_kept (fits : t.chunkSize < 4294967296) (inv : Consistent t m) (proper : Proper t c off len)
    (prepared : m.preparePiece t c off len = some (p,m')) : Consistent t m' ∧ Kept m.files m'.files := by
  unfold preparePiece at prepared
  split at prepared
  · cases prepared
    exact ⟨inv,fun _ _ _ some_ => some_⟩
  · obtain ⟨pd,created,result,spec⟩ := createPiece_spec fits inv proper false
    rw [result] at prepared
    cases prepared
    exact ⟨spec.inv,spec.kept⟩

theorem reached_holds {saved : Nat → Option UInt8} (fits : t.chunkSize < 4294967296) (reached : Reached t m saved) :
    Consistent t m ∧ Holds t m.files saved := by
  induction reached with
  | new files pos pieces =>
    refine ⟨⟨files,pos ▸ start_posValid t,fun p pd there => ?_⟩,fun k g byte _ some_ => (nomatch some_)⟩
    rw [pieces] at there
    cases there
  | prepare _ proper prepared ih =>
    obtain ⟨inv,kept⟩ := preparePiece_kept fits ih.1 proper prepared
    exact ⟨inv,ih.2.kept kept⟩
  | load _ proper loaded ih =>
    obtain ⟨inv,kept⟩ := loadPiece_kept fits ih.1 proper loaded
    exact ⟨inv,ih.2.kept kept⟩
  | write _ piece data short wrote ih => exact write_spec fits ih.1 ih.2 piece data short wrote
  | save _ piece saves ih =>
    obtain ⟨m',result,written,pos,same⟩ := savePiece_spec fits ih.1 piece
    rw [saves] at result
    cases result
    exact ⟨ih.1.keep written.ok pos same (Written.isSome written ih.1.files),ih.2.written written⟩
  | clear _ chunk ih => exact ⟨⟨ih.1.files,ih.1.pos,ih.1.pieces⟩,ih.2⟩
  | remap _ canMap ih => exact ⟨⟨ih.1.files,ih.1.pos,ih.1.pieces⟩,ih.2⟩

-- Every byte of a piece has one place in the files.
def OnePlace (t : Files) (x : Nat) : Prop := ∃ k g, (g < t.size k ∧ t.start k + g = x) ∧ ∀ k' g', g' < t.size k' → t.start k' + g' = x → k' = k ∧ g' = g

theorem one_place (inside : x < t.totalSize) : OnePlace t x := by
  obtain ⟨k,_,low,high⟩ := exists_file inside
  refine ⟨k,x - t.start k,⟨by omega,by omega⟩,fun k' g' less here => ?_⟩
  exact address_inj less (by omega) (by omega)

theorem proper_inside (fits : t.chunkSize < 4294967296) (proper : Proper t c off len) : c * t.chunkSize + off + len ≤ t.totalSize := by
  have chunk := chunkLen_eq fits proper.chunk
  have upTo := proper.upTo
  have whole := lt_numChunks.mp proper.chunk
  omega

theorem saved_stored {saved : Nat → Option UInt8} (holds : Holds t files saved)
    (all : ∀ x, a ≤ x → x < b → (saved x).isSome = true) : Stored t files a b := by
  intro k g less low high
  obtain ⟨byte,some_⟩ := Option.isSome_iff_exists.mp (all _ low high)
  rw [holds k g byte less some_]
  rfl

theorem BytesFrom.saved {saved : Nat → Option UInt8} {read : List UInt8} (here : BytesFrom t files a (a + len) read) (holds : Holds t files saved)
    (all : ∀ x, a ≤ x → x < a + len → (saved x).isSome = true) (inside : a + len ≤ t.totalSize) :
    read.length = len ∧ ∀ o < len, read[o]? = saved (a + o) := by
  have length := here.length
  refine ⟨by omega,fun o less => ?_⟩
  obtain ⟨k,g,⟨inFile,place⟩,_⟩ := one_place (t := t) (x := a + o) (by omega)
  obtain ⟨byte,some_⟩ := Option.isSome_iff_exists.mp (all (a + o) (by omega) (by omega))
  have read := here.here k g inFile (by omega) (by omega)
  rw [place,show a + o - a = o by omega,holds k g byte inFile (place ▸ some_)] at read
  rw [read,some_]

theorem loadPiece_saved {saved : Nat → Option UInt8} (fits : t.chunkSize < 4294967296) (inv : Consistent t m) (holds : Holds t m.files saved)
    (proper : Proper t c off len) (none : m.findPiece c off len true = none)
    (all : ∀ x, c * t.chunkSize + off ≤ x → x < c * t.chunkSize + off + len → (saved x).isSome = true) :
    ∃ p m' pd, m.loadPiece t c off len = some (p,m') ∧ m'.pieces[p]? = some pd ∧ (m'.bytes t pd).length = len ∧
      ∀ o < len, (m'.bytes t pd)[o]? = saved (c * t.chunkSize + off + o) := by
  obtain ⟨pd,created,result,spec⟩ := createPiece_spec fits inv proper true
  have holds := holds.kept spec.kept
  have whole := proper_inside fits proper
  have ok := spec.inv.pieces _ _ spec.last
  unfold loadPiece
  rw [none]
  dsimp only
  rw [result]
  dsimp only
  rw [spec.last]
  dsimp only
  cases mapped : pd.mapped with
  | true =>
    have here := mapped_bytes fits spec.inv ok mapped
    unfold address at here
    rw [spec.chunk,spec.off,spec.len] at here
    exact ⟨_,created,pd,rfl,spec.last,here.saved holds all whole⟩
  | false =>
    obtain ⟨bytes,pos,read,_,here⟩ := fromFiles_spec fits spec.inv.files spec.inv.pos proper.inChunk proper.unbroken (saved_stored holds all)
    obtain ⟨length,same⟩ := here.saved holds all whole
    have buf := ok.buf mapped
    have empty : pd.buf.drop bytes.length = [] := List.drop_eq_nil_of_le (by have := spec.len; omega)
    have inside := (List.getElem?_eq_some_iff.mp spec.last).1
    rw [if_neg (by decide),read]
    refine ⟨_,_,_,rfl,List.getElem?_set_self inside,?_⟩
    unfold MultiFileCache.bytes
    dsimp only
    rw [if_neg (by decide),empty,List.append_nil]
    exact ⟨length,same⟩

-- Saving a piece puts each byte to its place and changes nothing else; a file that
-- gets longer is filled up with zeros. Loading one that is not in memory gives what
-- was saved last, and one that is in memory stays as it is there.
theorem address_map {saved : Nat → Option UInt8} (fits : t.chunkSize < 4294967296) (reached : Reached t m saved) :
    (∀ (p : Nat) (pd : PieceData), m.pieces[p]? = some pd → (m.bytes t pd).length = pd.len ∧
      (∀ o < pd.len, OnePlace t (address t pd + o)) ∧
      ∃ m', m.savePiece t p = some m' ∧ Written t (address t pd) (m.bytes t pd) m.files m'.files) ∧
    (∀ c off len, Proper t c off len → m.findPiece c off len true = none →
      (∀ x, c * t.chunkSize + off ≤ x → x < c * t.chunkSize + off + len → (saved x).isSome = true) →
      ∃ p m' pd, m.loadPiece t c off len = some (p,m') ∧ m'.pieces[p]? = some pd ∧ (m'.bytes t pd).length = len ∧
        ∀ o < len, (m'.bytes t pd)[o]? = saved (c * t.chunkSize + off + o)) ∧
    ∀ c off len p, m.findPiece c off len true = some p → m.loadPiece t c off len = some (p,m) := by
  obtain ⟨inv,holds⟩ := reached_holds fits reached
  refine ⟨?_,?_,?_⟩
  · intro p pd piece
    have ok := inv.pieces p pd piece
    have whole := proper_inside fits ok.proper
    obtain ⟨m',result,written,_⟩ := savePiece_spec fits inv piece
    refine ⟨bytes_length fits inv ok,fun o less => one_place ?_,m',result,written⟩
    unfold address
    omega
  · intro c off len proper none all
    exact loadPiece_saved fits inv holds proper none all
  · intro c off len p found
    unfold loadPiece
    rw [found]

def empty (t : Files) : MultiFileCache := ⟨t.sizes.map fun size => ⟨size,[]⟩,⟨0,0⟩,[],[],fun _ _ => false,fun _ _ => 0⟩

-- Two files in two chunks.
def twoFiles : Files where
  chunkSize := 4
  sizes := [3,4]
  chunked := four_bytes
  long := by decide
  few := by decide

theorem empty_ok : FilesOk twoFiles (empty twoFiles).files := by
  refine ⟨rfl,fun k f there => ?_⟩
  match k with
  | 0 =>
    cases there
    decide
  | 1 =>
    cases there
    decide
  | k + 2 => cases there

-- The first chunk is saved and loaded again after it was dropped.
theorem two_files_loaded : ∃ (p : Nat) (m : MultiFileCache) (pd : PieceData), m.pieces[p]? = some pd ∧ m.bytes twoFiles pd = [1,2,3,4] ∧
    fileByte m.files 0 2 = some 3 ∧ fileByte m.files 1 0 = some 4 := by
  have new : Reached twoFiles (empty twoFiles) fun _ => none := .new empty_ok rfl rfl
  have proper : Proper twoFiles 0 0 4 := ⟨by decide,by decide,by decide,.inr ⟨rfl,by decide⟩⟩
  have prepared := new.prepare proper rfl
  have wrote := prepared.write (p := 0) rfl [1,2,3,4] (by decide) rfl
  have saved := wrote.save (p := 0) rfl rfl
  have dropped := saved.clear 0
  obtain ⟨p,m,pd,loaded,there,length,bytes⟩ := (address_map (by decide) dropped).2.1 0 0 4 proper rfl (by decide)
  refine ⟨p,m,pd,there,?_⟩
  cases loaded
  cases there
  exact ⟨rfl,rfl,rfl⟩

-- A chunk longer than a Uint32 can say.
def hugeChunk : Files where
  chunkSize := 4294983680
  sizes := [4294967306,5]
  chunked := by decide
  long := by decide
  few := by decide

def fifteenBytes : List UInt8 := [0,1,2,3,4,5,6,7,8,9,10,11,12,13,14]

-- The size of the first file's part is cut off and the eleventh byte goes to the
-- start of the second file; and a piece in memory is loaded as it is there, saved
-- or not.
theorem huge_chunk_and_cached_piece :
    (Proper hugeChunk 0 0 15 ∧ ∃ m₁ m₂ m₃ : MultiFileCache, (empty hugeChunk).preparePiece hugeChunk 0 0 15 = some (0,m₁) ∧
      m₁.write hugeChunk 0 fifteenBytes = some m₂ ∧ m₂.savePiece hugeChunk 0 = some m₃ ∧
      fileByte m₃.files 0 10 = none ∧ fileByte m₃.files 1 0 = some 10) ∧
    ∃ m₁ m₂ m₃ m₄ m₅ : MultiFileCache, (empty twoFiles).preparePiece twoFiles 0 0 4 = some (0,m₁) ∧
      m₁.write twoFiles 0 [1,2,3,4] = some m₂ ∧ m₂.savePiece twoFiles 0 = some m₃ ∧ m₃.write twoFiles 0 [5,6,7,8] = some m₄ ∧
      m₄.loadPiece twoFiles 0 0 4 = some (0,m₅) ∧ m₅.pieces[0]?.map (m₅.bytes twoFiles) = some [5,6,7,8] ∧
      fileByte m₅.files 0 0 = some 1 := by
  refine ⟨⟨⟨by decide,by decide,by decide,.inl ⟨rfl,by decide⟩⟩,_,_,_,rfl,rfl,rfl,rfl,rfl⟩,_,_,_,_,_,rfl,rfl,rfl,rfl,rfl,rfl,rfl⟩

end KtorrentStream.Diskio.MultiFileCache
