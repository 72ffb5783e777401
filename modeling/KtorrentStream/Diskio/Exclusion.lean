import KtorrentStream.Diskio.ExcludedFiles
import KtorrentStream.Diskio.PartReads
set_option autoImplicit true

namespace KtorrentStream.Diskio.ExcludingCache
open KtorrentStream.Util KtorrentStream.Torrent KtorrentStream.Torrent.Files KtorrentStream.Diskio.MultiFileCache

-- Bytes of a chunk that several files share, which no file of it breaks.
structure SharedPart (t : Files) (c off len : Nat) : Prop where
  range : InChunk t c off len
  several : (filesOf t c 0).length ≠ 1
  unbroken : ∀ k, ¬ Breaks t c off len k

-- What is deleted with a data file: all but its first and last chunk.
def forget (t : Files) (k : Nat) (saved : Nat → Option UInt8) : Nat → Option UInt8 := fun x =>
  if t.start k ≤ x ∧ x < t.start k + t.size k ∧ place t k (x - t.start k) = none then none else saved x

-- A run from files that hold what was saved of them: pieces of shared chunks are
-- prepared, loaded, written and saved, and files are excluded and included, in any
-- order. A load that fails leaves a piece in memory that is read in part.
inductive Reached (t : Files) : ExcludingCache → (Nat → Option UInt8) → Prop
  | new {m : ExcludingCache} (files : FilesOk t m.files) (pos : m.pos = ⟨0,0⟩) (pieces : m.pieces = []) (included : ∀ k, m.dndFiles k = none)
      (holds : Holds t m.files saved) : Reached t m saved
  | prepare {m m' : ExcludingCache} (before : Reached t m saved) (part : SharedPart t c off len) (prepared : m.preparePiece t c off len = some (p,m')) :
      Reached t m' saved
  | load {m m' : ExcludingCache} (before : Reached t m saved) (part : SharedPart t c off len) (loaded : m.loadPiece t c off len = some (p,m')) :
      Reached t m' saved
  | fail {m m' : ExcludingCache} {pd : PieceData} (before : Reached t m saved) (part : SharedPart t c off len)
      (failed : m.loadPiece t c off len = none) (created : m.createPiece t c off len true = some (p,m')) (piece : m'.pieces[p]? = some pd)
      (buf : List UInt8) (whole : buf.length = len) : Reached t {m' with pieces := m'.pieces.set p {pd with buf := buf}} saved
  | write {m m' : ExcludingCache} {p : Nat} (before : Reached t m saved) (data : List UInt8) (wrote : m.write t p data = some m') : Reached t m' saved
  | save {m m' : ExcludingCache} {p : Nat} {pd : PieceData} (before : Reached t m saved) (piece : m.pieces[p]? = some pd)
      (saves : m.savePiece t p = some m') : Reached t m' (savedAt (address t pd) pd.buf saved)
  | clear {m : ExcludingCache} (before : Reached t m saved) (chunk : Nat) : Reached t (m.clearPieces chunk) saved
  | exclude {m : ExcludingCache} (before : Reached t m saved) (well : ¬ Misplaced t k) :
      Reached t (m.downloadStatusChanged t k false) (forget t k saved)
  | include_ {m : ExcludingCache} (before : Reached t m saved) (k : Nat) : Reached t (m.downloadStatusChanged t k true) saved

structure PieceOk (t : Files) (pd : PieceData) : Prop where
  part : SharedPart t pd.chunk pd.off pd.len
  unmapped : pd.mapped = false
  buf : pd.buf.length = pd.len

structure Sound (t : Files) (m : ExcludingCache) : Prop where
  disk : m.disk.Ok t
  pos : PosValid t m.pos
  pieces : ∀ (p : Nat) (pd : PieceData), m.pieces[p]? = some pd → PieceOk t pd

-- What is saved is stored.
def Keeps (t : Files) (disk : Disk) (saved : Nat → Option UInt8) : Prop :=
  ∀ k g byte, g < t.size k → saved (t.start k + g) = some byte → disk.byte t k g = some byte

variable {t : Files} {m m' : ExcludingCache} {disk disk' : Disk} {pd : PieceData} {saved : Nat → Option UInt8}

theorem Keeps.put {data : List UInt8} (keeps : Keeps t disk saved) (put : Disk.Put t a data disk disk') : Keeps t disk' (savedAt a data saved) := by
  intro k g byte less here
  unfold savedAt at here
  split at here
  · rename_i inside
    rw [put.inside k g less inside.1 inside.2]
    exact here
  · rename_i outside
    exact put.kept k g byte less outside (keeps k g byte less here)

-- A new piece, which is not mapped.
def inserted (t : Files) (m : ExcludingCache) (c off len : Nat) (readOnly : Bool) : ExcludingCache :=
  {m with toMultiFileCache :=
    ({m.toMultiFileCache with pos := (t.calcChunkPos m.pos c).2} : MultiFileCache).insertPiece (m.toMultiFileCache.buffered c off len readOnly)}

theorem SharedPart.two (part : SharedPart t c off len) : ∃ j k rest, filesOf t c 0 = j :: k :: rest := by
  have several := part.several
  have some_ := filesOf_ne_nil part.range.chunk
  cases list : filesOf t c 0 with
  | nil => exact absurd list some_
  | cons j rest =>
      cases rest with
      | nil =>
          rw [list] at several
          exact absurd rfl several
      | cons k rest => exact ⟨j,k,rest,rfl⟩

theorem createPiece_shared (valid : PosValid t m.pos) (part : SharedPart t c off len) (readOnly : Bool) :
    m.createPiece t c off len readOnly = some (m.pieces.length,inserted t m c off len readOnly) := by
  have list := (calcChunkPos_spec valid part.range.chunk).1
  obtain ⟨j,k,rest,two⟩ := part.two
  unfold createPiece MultiFileCache.createPiece
  dsimp only
  rw [list,two]
  rfl

theorem buffered_ok (part : SharedPart t c off len) (m : MultiFileCache) (readOnly : Bool) : PieceOk t (m.buffered c off len readOnly) := by
  refine ⟨part,rfl,?_⟩
  show ((List.range len).map _).length = len
  rw [List.length_map,List.length_range]

theorem inserted_sound (sound : Sound t m) (part : SharedPart t c off len) (readOnly : Bool) : Sound t (inserted t m c off len readOnly) := by
  refine ⟨sound.disk,(calcChunkPos_spec sound.pos part.range.chunk).2,fun p pd there => ?_⟩
  change (m.pieces ++ [_])[p]? = some pd at there
  by_cases old : p < m.pieces.length
  · rw [List.getElem?_append_left old] at there
    exact sound.pieces p pd there
  · rw [List.getElem?_append_right (Nat.le_of_not_lt old)] at there
    rw [List.mem_singleton.mp (List.mem_of_getElem? there)]
    exact buffered_ok part _ readOnly

theorem inserted_last (t : Files) (m : ExcludingCache) (c off len : Nat) (readOnly : Bool) :
    (inserted t m c off len readOnly).pieces[m.pieces.length]? = some (m.toMultiFileCache.buffered c off len readOnly) := List.getElem?_concat_length

theorem Sound.setPiece (sound : Sound t m) (ok : PieceOk t pd) (p : Nat) : Sound t {m with pieces := m.pieces.set p pd} := by
  refine ⟨sound.disk,sound.pos,fun q pd' there => ?_⟩
  by_cases same : q = p
  · subst same
    obtain ⟨inside,_⟩ := List.getElem?_eq_some_iff.mp there
    rw [List.length_set] at inside
    rw [List.getElem?_set_self inside] at there
    cases there
    exact ok
  · rw [List.getElem?_set_ne (fun e => same e.symm)] at there
    exact sound.pieces q pd' there

theorem Sound.moved (sound : Sound t m) (cache : PosCache) (valid : PosValid t cache) : Sound t {m with pos := cache} :=
  ⟨sound.disk,valid,sound.pieces⟩

theorem Sound.withDisk (sound : Sound t m) (ok : disk.Ok t) : Sound t (m.withDisk disk) := ⟨ok,sound.pos,sound.pieces⟩

-- Where a piece is read from: the parts of its range.
theorem fromFiles_shared (valid : PosValid t m.pos) (part : SharedPart t c off len) (buf : List UInt8) :
    m.fromFiles t c off len buf =
      (m.disk.readParts t c ((filesOf t c 0).headD 0) (parts t c off len (filesOf t c 0).length 0 0 (filesOf t c 0)) buf 0).map
        fun buf => (buf,(t.calcChunkPos m.pos c).2) := by
  have list := (calcChunkPos_spec valid part.range.chunk).1
  obtain ⟨j,k,rest,two⟩ := part.two
  unfold fromFiles
  dsimp only
  rw [list,two]

-- Reading keeps the buffer's length, whatever is stored.
theorem readPart_length {bytes : List UInt8} {part : Part} (read : disk.readPart t c first part = some bytes) : bytes.length ≤ part.len := by
  unfold Disk.readPart at read
  split at read
  · obtain ⟨f,_,once⟩ := Option.bind_eq_some_iff.mp read
    exact Nat.le_of_eq (read_length once)
  · cases read
    split
    · exact List.length_take_le _ _
    · exact List.length_take_le _ _

theorem readParts_length {parts : List Part} {buf buf' : List UInt8} (at_ : Nat) (covers : Covers t b a parts) (room : at_ + (b - a) ≤ buf.length)
    (read : disk.readParts t c first parts buf at_ = some buf') : buf'.length = buf.length := by
  induction covers generalizing buf at_ with
  | nil done =>
      cases read
      rfl
  | @cons a rest' part file here inFile some_ upTo rest ih =>
      unfold Disk.readParts at read
      split at read
      · cases read
      · rename_i bytes once
        have short := readPart_length once
        have fitted : (CacheFile.splice buf bytes at_).length = buf.length := by
          rw [CacheFile.splice_length _ _ _ (by omega)]
          omega
        rw [ih (at_ + part.len) (by rw [fitted]; omega) read,fitted]

theorem inRange (fits : t.chunkSize < 4294967296) (part : SharedPart t c off len) :
    c * t.chunkSize + off + len ≤ (c + 1) * t.chunkSize ∧ c * t.chunkSize + off + len ≤ t.totalSize := by
  have chunk := chunkLen_eq fits part.range.chunk
  have upTo := part.range.upTo
  have whole := lt_numChunks.mp part.range.chunk
  rw [Nat.succ_mul]
  omega

theorem SharedPart.covers (part : SharedPart t c off len) (fits : t.chunkSize < 4294967296) :
    Covers t (c * t.chunkSize + off + len) (c * t.chunkSize + off) (parts t c off len (filesOf t c 0).length 0 0 (filesOf t c 0)) :=
  parts_cover fits part.range part.unbroken

theorem loadPiece_read (valid : PosValid t m.pos) (part : SharedPart t c off len) (none : m.findPiece c off len true = none) :
    m.loadPiece t c off len =
      ((inserted t m c off len true).fromFiles t c off len (m.buffered c off len true).buf).map fun read =>
        (m.pieces.length,{inserted t m c off len true with
          pos := read.2,pieces := (inserted t m c off len true).pieces.set m.pieces.length {m.buffered c off len true with buf := read.1}}) := by
  unfold loadPiece
  rw [none]
  dsimp only
  rw [createPiece_shared valid part]
  dsimp only
  rw [inserted_last]
  dsimp only
  rw [if_neg (show ¬ (m.buffered c off len true).mapped = true from Bool.false_ne_true)]
  cases (inserted t m c off len true).fromFiles t c off len (m.buffered c off len true).buf with
  | none => rfl
  | some read => rfl

theorem buffered_length (m : MultiFileCache) (c off len : Nat) (readOnly : Bool) : (m.buffered c off len readOnly).buf.length = len := by
  show ((List.range len).map _).length = len
  rw [List.length_map,List.length_range]

theorem load_sound (fits : t.chunkSize < 4294967296) (sound : Sound t m) (part : SharedPart t c off len)
    (loaded : m.loadPiece t c off len = some (p,m')) : Sound t m' ∧ m'.disk = m.disk := by
  cases found : m.findPiece c off len true with
  | some q =>
      unfold loadPiece at loaded
      rw [found] at loaded
      cases loaded
      exact ⟨sound,rfl⟩
  | none =>
      have fresh := inserted_sound sound part true
      rw [loadPiece_read sound.pos part found,fromFiles_shared fresh.pos part,Option.map_map,Option.map_eq_some_iff] at loaded
      obtain ⟨buf,read,result⟩ := loaded
      cases result
      have length := buffered_length m.toMultiFileCache c off len true
      have whole := readParts_length 0 (part.covers fits) (by omega) read
      refine ⟨(fresh.moved _ (calcChunkPos_spec fresh.pos part.range.chunk).2).setPiece ⟨part,rfl,?_⟩ _,rfl⟩
      exact whole.trans length

theorem prepare_sound (sound : Sound t m) (part : SharedPart t c off len) (prepared : m.preparePiece t c off len = some (p,m')) :
    Sound t m' ∧ m'.disk = m.disk := by
  unfold preparePiece at prepared
  split at prepared
  · cases prepared
    exact ⟨sound,rfl⟩
  · rw [createPiece_shared sound.pos part] at prepared
    cases prepared
    exact ⟨inserted_sound sound part false,rfl⟩

theorem fail_sound (sound : Sound t m) (part : SharedPart t c off len) (created : m.createPiece t c off len true = some (p,m'))
    (piece : m'.pieces[p]? = some pd) (buf : List UInt8) (whole : buf.length = len) :
    Sound t {m' with pieces := m'.pieces.set p {pd with buf := buf}} ∧ m'.disk = m.disk := by
  rw [createPiece_shared sound.pos part] at created
  cases created
  rw [inserted_last] at piece
  cases piece
  exact ⟨(inserted_sound sound part true).setPiece ⟨part,rfl,whole⟩ _,rfl⟩

-- No piece is mapped, so that writing into one is writing into its buffer.
theorem write_sound (sound : Sound t m) (data : List UInt8) (wrote : m.write t p data = some m') : Sound t m' ∧ m'.disk = m.disk := by
  unfold write MultiFileCache.write at wrote
  cases piece : m.pieces[p]? with
  | none =>
      rw [piece] at wrote
      cases wrote
      exact ⟨sound,rfl⟩
  | some pd =>
      have ok := sound.pieces p pd piece
      have length := ok.buf
      have unmapped : ¬ pd.mapped = true := by
        rw [ok.unmapped]
        exact Bool.false_ne_true
      rw [piece] at wrote
      dsimp only at wrote
      rw [if_neg unmapped] at wrote
      split at wrote
      · cases wrote
        exact ⟨sound,rfl⟩
      · split at wrote
        · cases wrote
        · cases wrote
          have whole : (data ++ pd.buf.drop data.length).length = pd.len := by
            rw [List.length_append,List.length_drop]
            omega
          exact ⟨sound.setPiece (show PieceOk t {pd with buf := data ++ pd.buf.drop data.length} from ⟨ok.part,ok.unmapped,whole⟩) p,rfl⟩

theorem save_put (fits : t.chunkSize < 4294967296) (sound : Sound t m) (piece : m.pieces[p]? = some pd) :
    ∃ m', m.savePiece t p = some m' ∧ Sound t m' ∧ Disk.Put t (address t pd) pd.buf m.disk m'.disk := by
  have ok := sound.pieces p pd piece
  have length := ok.buf
  obtain ⟨list,pos⟩ := calcChunkPos_spec sound.pos ok.part.range.chunk
  obtain ⟨upTo,_⟩ := inRange fits ok.part
  obtain ⟨disk,wrote,put⟩ := writeParts_put fits ok.part.range.chunk ok.part.several sound.disk (ok.part.covers fits)
    (Nat.le_add_right _ _) upTo (show pd.chunk * t.chunkSize + pd.off + pd.buf.length = _ by omega)
  unfold savePiece
  rw [piece]
  dsimp only
  rw [if_neg (by rw [ok.unmapped]; exact Bool.false_ne_true),list,wrote]
  exact ⟨_,rfl,(sound.withDisk put.ok).moved _ pos,put⟩

theorem clear_sound (sound : Sound t m) (chunk : Nat) : Sound t (m.clearPieces chunk) := ⟨sound.disk,sound.pos,sound.pieces⟩

theorem exclude_sound (fits : t.chunkSize < 4294967296) (sound : Sound t m) (keeps : Keeps t m.disk saved) (well : ¬ Misplaced t k) :
    Sound t (m.downloadStatusChanged t k false) ∧ Keeps t (m.downloadStatusChanged t k false).disk (forget t k saved) := by
  have excludes := exclude_keeps fits sound.disk well m.tmp
  refine ⟨sound.withDisk excludes.ok,fun j g byte inFile here => ?_⟩
  unfold forget at here
  split at here
  · cases here
  · rename_i kept
    refine excludes.kept j g byte inFile (fun same => ?_) (keeps j g byte inFile here)
    subst same
    refine Option.isSome_iff_ne_none.mpr fun none => kept ⟨Nat.le_add_right _ _,by omega,?_⟩
    rw [Nat.add_sub_cancel_left]
    exact none

theorem include_sound (fits : t.chunkSize < 4294967296) (sound : Sound t m) (keeps : Keeps t m.disk saved) (k : Nat) :
    Sound t (m.downloadStatusChanged t k true) ∧ Keeps t (m.downloadStatusChanged t k true).disk saved := by
  obtain ⟨ok,kept⟩ := include_keeps (k := k) fits sound.disk m.tmp
  exact ⟨sound.withDisk ok,fun j g byte inFile here => kept j g byte inFile (keeps j g byte inFile here)⟩

theorem reached_keeps (fits : t.chunkSize < 4294967296) (reached : Reached t m saved) : Sound t m ∧ Keeps t m.disk saved := by
  induction reached with
  | new files pos pieces included holds =>
      refine ⟨⟨⟨files,fun k d excluded => ?_⟩,pos ▸ start_posValid t,fun p pd there => ?_⟩,fun k g byte less here => ?_⟩
      · exact nomatch (included k).symm.trans excluded
      · rw [pieces] at there
        cases there
      · rw [byte_file (included k)]
        exact holds k g byte less here
  | prepare _ part prepared ih =>
      obtain ⟨sound,same⟩ := prepare_sound ih.1 part prepared
      exact ⟨sound,same ▸ ih.2⟩
  | load _ part loaded ih =>
      obtain ⟨sound,same⟩ := load_sound fits ih.1 part loaded
      exact ⟨sound,same ▸ ih.2⟩
  | fail _ part _ created piece buf whole ih =>
      obtain ⟨sound,same⟩ := fail_sound ih.1 part created piece buf whole
      exact ⟨sound,same ▸ ih.2⟩
  | write _ data wrote ih =>
      obtain ⟨sound,same⟩ := write_sound ih.1 data wrote
      exact ⟨sound,same ▸ ih.2⟩
  | save _ piece saves ih =>
      obtain ⟨m',result,sound,put⟩ := save_put fits ih.1 piece
      rw [saves] at result
      cases result
      exact ⟨sound,ih.2.put put⟩
  | clear _ chunk ih => exact ⟨clear_sound ih.1 chunk,ih.2⟩
  | exclude _ well ih => exact exclude_sound fits ih.1 ih.2 well
  | include_ _ k ih => exact include_sound fits ih.1 ih.2 k

-- The bytes of a range as they were saved last.
def HasSaved (t : Files) (saved : Nat → Option UInt8) (c off len : Nat) (buf : List UInt8) : Prop :=
  buf.length = len ∧ ∀ o < len, buf[o]? = saved (c * t.chunkSize + off + o)

def Loads (t : Files) (m : ExcludingCache) (saved : Nat → Option UInt8) (c off len : Nat) : Prop :=
  ∃ p m' pd, m.loadPiece t c off len = some (p,m') ∧ m'.pieces[p]? = some pd ∧ HasSaved t saved c off len pd.buf

theorem load_read (fits : t.chunkSize < 4294967296) (sound : Sound t m) (keeps : Keeps t m.disk saved) (part : SharedPart t c off len)
    (none : m.findPiece c off len true = none)
    (all : ∀ x, c * t.chunkSize + off ≤ x → x < c * t.chunkSize + off + len → (saved x).isSome = true) : Loads t m saved c off len := by
  have fresh := inserted_sound sound part true
  have length := buffered_length m.toMultiFileCache c off len true
  obtain ⟨upTo,whole⟩ := inRange fits part
  have stored : m.disk.Stored t (c * t.chunkSize + off) (c * t.chunkSize + off + len) := fun k g less low high => by
    obtain ⟨byte,some_⟩ := Option.isSome_iff_exists.mp (all _ low high)
    rw [keeps k g byte less some_]
    rfl
  obtain ⟨buf,read,size,_,here⟩ := readParts_stored fits part.range.chunk part.several (m.buffered c off len true).buf 0 sound.disk (part.covers fits)
    (Nat.le_add_right _ _) upTo (by omega) stored
  have loaded := loadPiece_read sound.pos part none
  have same : (inserted t m c off len true).disk = m.disk := rfl
  rw [fromFiles_shared fresh.pos part,same,read] at loaded
  have inside := (List.getElem?_eq_some_iff.mp (inserted_last t m c off len true)).1
  refine ⟨_,_,_,loaded,List.getElem?_set_self inside,size.trans length,fun o less => ?_⟩
  obtain ⟨k,g,⟨inFile,place⟩,_⟩ := one_place (t := t) (x := c * t.chunkSize + off + o) (by omega)
  obtain ⟨byte,some_⟩ := Option.isSome_iff_exists.mp (all (c * t.chunkSize + off + o) (by omega) (by omega))
  have byteThere := here k g inFile (by omega) (by omega)
  rw [keeps k g byte inFile (place ▸ some_),place,Nat.zero_add,Nat.add_sub_cancel_left] at byteThere
  rw [some_]
  exact byteThere

theorem load_found {p : Nat} (found : m.findPiece c off len true = some p)
    (current : ∀ p pd, m.findPiece c off len true = some p → m.pieces[p]? = some pd → HasSaved t saved c off len pd.buf) : Loads t m saved c off len := by
  obtain ⟨pd,there⟩ := findPiece_there found
  refine ⟨p,m,pd,?_,there,current p pd found there⟩
  unfold loadPiece
  rw [found]

theorem included_again (inside : k < t.numFiles) (sound : Sound t m) : (m.downloadStatusChanged t k true).dndFiles k = none := by
  obtain ⟨f,there⟩ := sound.disk.files.file inside
  unfold downloadStatusChanged withDisk
  dsimp only
  unfold Disk.downloadStatusChanged
  split
  · cases ‹true = false›
  · exact if_pos rfl
  · rename_i other
    cases excluded : m.disk.dndFiles k with
    | none => rfl
    | some d => exact absurd rfl (other f d there excluded)

-- Whatever is excluded and included, the pieces of shared chunks have what was
-- saved last, all saving goes through, and a file that is included again has the
-- bytes that were saved of it.
theorem exclusion_keeps (fits : t.chunkSize < 4294967296) (reached : Reached t m saved) :
    (∀ c off len, SharedPart t c off len →
      (∀ p pd, m.findPiece c off len true = some p → m.pieces[p]? = some pd → HasSaved t saved c off len pd.buf) →
      (∀ x, c * t.chunkSize + off ≤ x → x < c * t.chunkSize + off + len → (saved x).isSome = true) → Loads t m saved c off len) ∧
    (∀ (p : Nat) (pd : PieceData), m.pieces[p]? = some pd → (m.savePiece t p).isSome = true) ∧
    ∀ k < t.numFiles, (m.downloadStatusChanged t k true).dndFiles k = none ∧
      ∀ g byte, g < t.size k → saved (t.start k + g) = some byte → fileByte (m.downloadStatusChanged t k true).files k g = some byte := by
  obtain ⟨sound,keeps⟩ := reached_keeps fits reached
  refine ⟨fun c off len part current all => ?_,fun p pd piece => ?_,fun k inside => ?_⟩
  · cases found : m.findPiece c off len true with
    | some p => exact load_found found current
    | none => exact load_read fits sound keeps part found all
  · obtain ⟨m',saves,_⟩ := save_put fits sound piece
    rw [saves]
    rfl
  · have again := included_again inside sound
    obtain ⟨_,kept⟩ := include_sound fits sound keeps k
    refine ⟨again,fun g byte less here => ?_⟩
    have there := kept k g byte less here
    exact (byte_file again g).symm.trans there

-- The cache of oneToEight, with all bytes saved.
def included : ExcludingCache := {oneToEight with dndFiles := fun _ => none,tmp := [0,0,0,0,0,0,0,0]}

def eight : Nat → Option UInt8 := fun x => if x < 8 then some (x.toUInt8 + 1) else none

theorem included_reached : Reached threeAndFive included eight := by
  refine .new oneToEight_saved.files rfl rfl (fun _ => rfl) fun k g byte less here => ?_
  match k with
  | 0 =>
    have : g < 3 := less
    match g with
    | 0 | 1 | 2 => exact here
  | 1 =>
    have : g < 5 := less
    match g with
    | 0 | 1 | 2 | 3 | 4 => exact here
  | k + 2 => exact absurd less (Nat.not_lt_zero g)

-- The second file can be excluded: the chunk starts in front of it.
theorem second_excluded : Loads threeAndFive (included.downloadStatusChanged threeAndFive 1 false) (forget threeAndFive 1 eight) 0 0 8 := by
  have excluded := included_reached.exclude (k := 1) (fun misplaced => absurd misplaced.2.1 (by decide))
  refine (exclusion_keeps (by decide) excluded).1 0 0 8 ⟨⟨by decide,by decide,by decide⟩,by decide,fun k breaks => ?_⟩ ?_ (by decide)
  · exact absurd breaks.1 (by decide)
  · intro p pd found
    cases found

-- The first one cannot: its bytes are saved as those of a first chunk and looked for
-- as those of a last one. What is saved meanwhile is lost when it is included again.
theorem first_excluded :
    ¬ Loads threeAndFive (included.downloadStatusChanged threeAndFive 0 false) eight 0 0 8 ∧
    (((included.downloadStatusChanged threeAndFive 0 false).loadPiece threeAndFive 0 0 8).map fun loaded => loaded.2.pieces.map PieceData.buf) =
      some [[0,0,0,4,5,6,7,8]] ∧
    ((((((included.downloadStatusChanged threeAndFive 0 false).preparePiece threeAndFive 0 0 8).bind fun prepared =>
      prepared.2.write threeAndFive prepared.1 [11,12,13,14,15,16,17,18]).bind fun m => m.savePiece threeAndFive 0).map fun m =>
      m.downloadStatusChanged threeAndFive 0 true).map fun m => (m.dndFiles 0).isNone && fileByte m.files 0 0 == some 1) = some true := by
  refine ⟨?_,by decide +kernel⟩
  rintro ⟨p,m',pd,loaded,there,_,bytes⟩
  cases loaded
  cases there
  exact absurd (bytes 0 (by decide)) (by decide +kernel)

end KtorrentStream.Diskio.ExcludingCache
