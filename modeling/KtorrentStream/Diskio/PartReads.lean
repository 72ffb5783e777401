import KtorrentStream.Diskio.SavedBytes
set_option autoImplicit true

namespace KtorrentStream.Diskio.MultiFileCache
open KtorrentStream.Util KtorrentStream.Torrent KtorrentStream.Torrent.Files

-- All bytes of the chunk are in the files, pieces are buffered, and what is in
-- memory of the chunk is what the files have.
structure SavedChunk (t : Files) (m : MultiFileCache) (c : Nat) : Prop where
  files : FilesOk t m.files
  pos : PosValid t m.pos
  stored : Stored t m.files (c * t.chunkSize) (c * t.chunkSize + t.chunkLen c)
  buffered : ∀ off, m.canMap c off = false
  clean : ∀ (p : Nat) (pd : PieceData), m.pieces[p]? = some pd → pd.chunk = c →
    pd.mapped = false ∧ BytesFrom t m.files (address t pd) (address t pd + pd.len) pd.buf

-- A piece is loaded that has the bytes [off,off + len) of the chunk, and the cache
-- stays as it has to be for the next one.
def LoadsPart (t : Files) (m : MultiFileCache) (c off len : Nat) : Prop :=
  ∃ p m' pd, m.loadPiece t c off len = some (p,m') ∧ m'.pieces[p]? = some pd ∧ pd.mapped = false ∧ pd.buf.length = len ∧
    BytesFrom t m'.files (c * t.chunkSize + off) (c * t.chunkSize + off + len) pd.buf ∧ m'.files = m.files ∧ SavedChunk t m' c

variable {t : Files} {m : MultiFileCache}

theorem createPiece_buffered (ok : FilesOk t m.files) (valid : PosValid t m.pos) (inside : c < t.numChunks) (unmapped : m.canMap c off = false)
    (len : Nat) (readOnly : Bool) :
    m.createPiece t c off len readOnly =
      some (m.pieces.length,{m with pos := (t.calcChunkPos m.pos c).2}.insertPiece (m.buffered c off len readOnly)) := by
  have list := (calcChunkPos_spec valid inside).1
  obtain ⟨k,head,few,_⟩ := filesOf_head inside
  obtain ⟨f,there⟩ := ok.file few
  unfold createPiece
  dsimp only
  rw [list,head]
  cases filesOf t c (k + 1) with
  | nil =>
      dsimp only
      rw [there]
      dsimp only
      rw [unmapped]
      rfl
  | cons j rest => rfl

-- The piece is not in memory: it is read into a new buffer.
theorem loadPiece_read (ok : FilesOk t m.files) (valid : PosValid t m.pos) (inside : c < t.numChunks) (unmapped : m.canMap c off = false)
    (none : m.findPiece c off len true = none) :
    m.loadPiece t c off len =
      (({m with pos := (t.calcChunkPos m.pos c).2} : MultiFileCache).fromFiles t c off len).map fun read =>
        (m.pieces.length,{m with
          pos := read.2
          pieceCache := m.pieces.length :: m.pieceCache
          pieces := m.pieces ++ [{m.buffered c off len true with buf := read.1 ++ (m.buffered c off len true).buf.drop read.1.length}]}) := by
  unfold loadPiece
  rw [none]
  dsimp only
  rw [createPiece_buffered ok valid inside unmapped]
  dsimp only [insertPiece]
  rw [List.getElem?_concat_length]
  dsimp only
  rw [if_neg (show ¬ (m.buffered c off len true).mapped = true from Bool.false_ne_true)]
  have same : ({m with
      pos := (t.calcChunkPos m.pos c).2
      pieces := m.pieces ++ [m.buffered c off len true]
      pieceCache := m.pieces.length :: m.pieceCache} : MultiFileCache).fromFiles t c off len =
      ({m with pos := (t.calcChunkPos m.pos c).2} : MultiFileCache).fromFiles t c off len := rfl
  rw [same]
  cases ({m with pos := (t.calcChunkPos m.pos c).2} : MultiFileCache).fromFiles t c off len with
  | none => rfl
  | some read =>
      dsimp only
      rw [List.set_append_right _ _ (Nat.le_refl _),Nat.sub_self]
      rfl

theorem suits_same {p : Nat} {pd : PieceData} (found : m.findPiece c off len true = some p) (there : m.pieces[p]? = some pd) :
    pd.chunk = c ∧ pd.off = off ∧ pd.len = len := by
  have asked := List.find?_some found
  unfold suits at asked
  rw [there] at asked
  simp only [Bool.and_eq_true,beq_iff_eq] at asked
  exact ⟨asked.1.1.1,asked.1.1.2,asked.1.2⟩

theorem findPiece_there {p : Nat} (found : m.findPiece c off len true = some p) : ∃ pd, m.pieces[p]? = some pd := by
  have asked := List.find?_some found
  unfold suits at asked
  split at asked
  · cases asked
  · exact ⟨_,‹_›⟩

theorem SavedChunk.found {p : Nat} (saved : SavedChunk t m c) (found : m.findPiece c off len true = some p) : LoadsPart t m c off len := by
  obtain ⟨pd,there⟩ := findPiece_there found
  obtain ⟨rfl,rfl,rfl⟩ := suits_same found there
  obtain ⟨unmapped,bytes⟩ := saved.clean p pd there rfl
  have length := bytes.length
  refine ⟨p,m,pd,?_,there,unmapped,by omega,bytes,rfl,saved⟩
  unfold loadPiece
  rw [found]

theorem SavedChunk.read (saved : SavedChunk t m c) (fits : t.chunkSize < 4294967296) (range : InChunk t c off len)
    (unbroken : ∀ k, ¬ Breaks t c off len k) (none : m.findPiece c off len true = none) : LoadsPart t m c off len := by
  have valid := (calcChunkPos_spec saved.pos range.chunk).2
  have upTo := range.upTo
  obtain ⟨bytes,pos,read,after,here⟩ := fromFiles_spec (m := {m with pos := (t.calcChunkPos m.pos c).2}) fits saved.files valid range unbroken
    (fun k g less low high => saved.stored k g less (by omega) (by omega))
  have length := here.length
  have whole : bytes ++ (m.buffered c off len true).buf.drop bytes.length = bytes := by
    rw [List.drop_eq_nil_of_le,List.append_nil]
    show ((List.range len).map _).length ≤ _
    rw [List.length_map,List.length_range]
    omega
  have loaded := loadPiece_read saved.files saved.pos range.chunk (saved.buffered off) none
  rw [read,Option.map_some,whole] at loaded
  refine ⟨_,_,_,loaded,List.getElem?_concat_length,rfl,by dsimp only; omega,here,rfl,saved.files,after,saved.stored,saved.buffered,?_⟩
  intro p pd there same
  by_cases old : p < m.pieces.length
  · exact saved.clean p pd ((List.getElem?_append_left old).symm.trans there) same
  · have last := List.mem_of_getElem? ((List.getElem?_append_right (Nat.le_of_not_lt old)).symm.trans there)
    rw [List.mem_singleton.mp last]
    exact ⟨rfl,here⟩

-- Files full of zeros, and buffers that hold something else.
def zeros (t : Files) : MultiFileCache := ⟨t.sizes.map fun size => ⟨size,List.replicate size 0⟩,⟨0,0⟩,[],[],fun _ _ => false,fun _ _ => 1⟩

theorem zeros_file (t : Files) (inside : k < t.numFiles) : (zeros t).files[k]? = some ⟨t.size k,List.replicate (t.size k) 0⟩ := by
  unfold zeros size
  dsimp only
  rw [List.getElem?_map,List.getElem?_eq_getElem inside,List.getD_eq_getElem?_getD,List.getElem?_eq_getElem inside]
  rfl

theorem zeros_byte (less : g < t.size k) : fileByte (zeros t).files k g = some 0 := by
  have inside : k < t.numFiles := by
    refine Nat.lt_of_not_le fun past => ?_
    unfold size at less
    rw [List.getD_eq_getElem?_getD,List.getElem?_eq_none past] at less
    exact Nat.not_lt_zero _ less
  unfold fileByte
  rw [zeros_file t inside]
  show (List.replicate (t.size k) 0)[g]? = some 0
  rw [List.getElem?_replicate,if_pos less]

theorem zeros_saved (t : Files) (c : Nat) : SavedChunk t (zeros t) c := by
  refine ⟨⟨List.length_map _,fun k f there => ?_⟩,start_posValid t,fun k g less _ _ => ?_,fun _ => rfl,fun p pd there => ?_⟩
  · have inside := (List.getElem?_eq_some_iff.mp there).1
    rw [zeros,List.length_map] at inside
    rw [zeros_file t inside] at there
    cases there
    exact ⟨rfl,Nat.le_of_eq List.length_replicate⟩
  · rw [zeros_byte less]
    rfl
  · cases there

theorem readParts_sum {files : List CacheFile} {parts : List Part} {bytes : List UInt8} (read : readParts files parts = some bytes) :
    bytes.length = (parts.map Part.len).sum := by
  induction parts generalizing bytes with
  | nil =>
      cases read
      rfl
  | cons part rest ih =>
      unfold readParts at read
      split at read
      · cases read
      · split at read
        · rename_i first more one others
          cases read
          rw [List.length_append,List.map_cons,List.sum_cons,read_length one,ih others]
        · cases read

-- A file that breaks the bytes is not the only one of the chunk.
theorem Breaks.several (breaks : Breaks t c off len k) (fits : t.chunkSize < 4294967296) (range : InChunk t c off len) :
    (filesOf t c 0).length ≠ 1 := by
  intro single
  obtain ⟨j,_,_,at_,inFile⟩ := single_part fits range single
  obtain ⟨_,start,before,beyond,_⟩ := breaks
  have some_ := range.some_
  obtain ⟨rfl,_⟩ := address_inj (show uint64 (t.fileOffset (t.file j) c + off) < t.size j by omega)
    (show c * t.chunkSize + off - t.start k < t.size k by omega) (by omega)
  omega

theorem Breaks.short {bytes : List UInt8} {pos : PosCache} (breaks : Breaks t c off len k) (fits : t.chunkSize < 4294967296) (range : InChunk t c off len)
    (valid : PosValid t m.pos) (read : m.fromFiles t c off len = some (bytes,pos)) : bytes.length < len := by
  have list := (calcChunkPos_spec valid range.chunk).1
  have several := breaks.several fits range
  unfold fromFiles at read
  dsimp only at read
  rw [list] at read
  split at read
  · rename_i j one
    rw [one] at several
    exact absurd rfl several
  · obtain ⟨bytes',once,same⟩ := Option.map_eq_some_iff.mp read
    cases same
    rw [readParts_sum once]
    exact (parts_places fits range).short range.some_ breaks

theorem Breaks.not_loaded (breaks : Breaks t c off len k) (fits : t.chunkSize < 4294967296) (range : InChunk t c off len) :
    ¬ LoadsPart t (zeros t) c off len := by
  rintro ⟨p,m',pd,loaded,there,_,length,here,same,_⟩
  have saved := zeros_saved t c
  have some_ := range.some_
  rw [loadPiece_read saved.files saved.pos range.chunk rfl rfl,Option.map_eq_some_iff] at loaded
  obtain ⟨⟨bytes,pos⟩,read,result⟩ := loaded
  cases result
  rw [show (zeros t).pieces.length = ([] : List PieceData).length from rfl] at there
  cases there
  have short := breaks.short (m := {zeros t with pos := (t.calcChunkPos (zeros t).pos c).2}) fits range
    (calcChunkPos_spec saved.pos range.chunk).2 read
  have chunk := chunkLen_eq fits range.chunk
  have upTo := range.upTo
  have whole := lt_numChunks.mp range.chunk
  obtain ⟨j,g,⟨inFile,place⟩,_⟩ := one_place (t := t) (x := c * t.chunkSize + off + (len - 1)) (by omega)
  have last := here.here j g inFile (by omega) (by omega)
  rw [zeros_byte inFile,place,show c * t.chunkSize + off + (len - 1) - (c * t.chunkSize + off) = len - 1 by omega] at last
  dsimp only at last
  rw [List.getElem?_append_right (by omega),List.getElem?_drop,show bytes.length + (len - 1 - bytes.length) = len - 1 by omega] at last
  unfold buffered at last
  rw [List.getElem?_map,List.getElem?_range (by omega)] at last
  cases last

-- Any part of a saved chunk can be loaded, unless it starts strictly inside what a
-- file has of the chunk, goes on behind it, and is as long as the chunk is up to
-- there.
theorem part_loaded_iff (fits : t.chunkSize < 4294967296) (inside : c < t.numChunks) (some_ : 0 < len) (upTo : off + len ≤ t.chunkLen c) :
    (∀ m, SavedChunk t m c → LoadsPart t m c off len) ↔ ∀ k, ¬ Breaks t c off len k := by
  have range : InChunk t c off len := ⟨inside,some_,upTo⟩
  constructor
  · intro every k breaks
    exact breaks.not_loaded fits range (every _ (zeros_saved t c))
  · intro unbroken m saved
    cases found : m.findPiece c off len true with
    | some p => exact saved.found found
    | none => exact saved.read fits range unbroken found

-- Two files in one chunk, with the bytes 1 to 8.
def threeAndFive : Files where
  chunkSize := 8
  sizes := [3,5]
  chunked := by decide
  long := by decide
  few := by decide

def oneToEight : MultiFileCache := ⟨[⟨3,[1,2,3]⟩,⟨5,[4,5,6,7,8]⟩],⟨0,0⟩,[],[],fun _ _ => false,fun _ _ => 0⟩

theorem oneToEight_saved : SavedChunk threeAndFive oneToEight 0 := by
  refine ⟨⟨rfl,fun k f there => ?_⟩,start_posValid _,fun k g less _ _ => ?_,fun _ => rfl,fun p pd there => ?_⟩
  · match k with
    | 0 | 1 =>
      cases there
      decide
    | k + 2 => cases there
  · match k with
    | 0 =>
      have : g < 3 := less
      match g with
      | 0 | 1 | 2 => rfl
    | 1 =>
      have : g < 5 := less
      match g with
      | 0 | 1 | 2 | 3 | 4 => rfl
    | k + 2 => exact absurd less (Nat.not_lt_zero g)
  · cases there

-- Two bytes from offset 2 on are loaded: the first file ends at 3, behind them.
theorem part_loaded_two : LoadsPart threeAndFive oneToEight 0 2 2 := by
  refine (part_loaded_iff (t := threeAndFive) (c := 0) (by decide) (by decide) (by decide) (by decide)).mpr ?_ _ oneToEight_saved
  rintro k ⟨_,start,_,_,near⟩
  match k with
  | 0 => exact absurd near (by decide)
  | 1 => exact absurd start (by decide)
  | k + 2 => exact absurd ‹_ < _ + Files.size _ _› (by
      have := threeAndFive.start_mono (show 2 ≤ k + 2 by omega)
      have : threeAndFive.start 2 = 8 := rfl
      omega)

-- Four bytes from offset 1 on: the two of the first file are left out, and those of
-- the second take their place.
theorem part_shifted : SavedChunk threeAndFive oneToEight 0 ∧ 1 + 4 ≤ threeAndFive.chunkLen 0 ∧
    (∃ p m' pd, oneToEight.loadPiece threeAndFive 0 1 4 = some (p,m') ∧ m'.pieces[p]? = some pd ∧ pd.mapped = false ∧ pd.buf = [4,5,0,0]) ∧
    fileByte oneToEight.files 0 1 = some 2 ∧ ¬ LoadsPart threeAndFive oneToEight 0 1 4 := by
  refine ⟨oneToEight_saved,by decide,⟨_,_,_,rfl,rfl,rfl,rfl⟩,rfl,?_⟩
  rintro ⟨p,m',pd,loaded,there,_,_,here,same,_⟩
  cases loaded
  cases there
  have first := here.here 0 1 (by decide) (by decide) (by decide)
  cases first

end KtorrentStream.Diskio.MultiFileCache
