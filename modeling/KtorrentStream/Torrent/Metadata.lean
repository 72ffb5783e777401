import KtorrentStream.Bcodec.Decoding
import KtorrentStream.Torrent.Load
set_option autoImplicit true

namespace KtorrentStream.Torrent
open KtorrentStream.Util KtorrentStream.Bcodec

-- The number of chunks without the cut to 32 bits.
def chunkCount (totalSize chunkSize : Nat) : Nat :=
  if totalSize % chunkSize > 0 then totalSize / chunkSize + 1 else totalSize / chunkSize

-- File k lies behind the files before it, and its chunks are those of its bytes.
structure Tile (tor : Torrent) (k : Nat) (f : TorrentFile) : Prop where
  offset : (f.cacheOffset : Int) = (tor.lengths.take k).sum
  size : tor.lengths[k]? = some (f.size : Int)
  firstChunk : f.firstChunk = f.cacheOffset / tor.chunkSize
  firstChunkOffset : f.firstChunkOffset = f.cacheOffset % tor.chunkSize
  lastChunk : f.lastChunk = if 0 < f.size then (f.cacheOffset + f.size - 1) / tor.chunkSize else f.cacheOffset / tor.chunkSize
  lastChunkSize : f.lastChunk * tor.chunkSize + f.lastChunkSize = f.cacheOffset + f.size

structure Consistent (tor : Torrent) : Prop where
  chunked : 0 < tor.chunkSize
  lengths : ∀ len ∈ tor.lengths, 0 ≤ len
  total : (tor.totalSize : Int) = tor.lengths.sum
  hashes : tor.hashPieces.length = chunkCount tor.totalSize tor.chunkSize
  inside : ∀ hash ∈ tor.hashPieces, hash.length = 20
  files : tor.files = [] ∨ tor.files.length = tor.lengths.length
  tiles : ∀ (k : Nat) (f : TorrentFile), tor.files[k]? = some f → Tile tor k f

-- Loading gives consistent metadata or throws an Error.
def Meets : Except LoadFailure Torrent → Prop
  | .error (.thrown _) => True
  | .error .dividedByZero => False
  | .ok tor => Consistent tor

section

variable (toUnicode : Option (List UInt8) → List UInt8 → List Char) (enc : Option (List UInt8))

-- The lengths of the files, as they are in the data.
def lengthsOf : List BNode → Except LoadError (List Int)
  | [] => .ok []
  | node :: rest =>
    match readFile toUnicode enc node with
    | .error e => .error e
    | .ok none => lengthsOf rest
    | .ok (some s) => (lengthsOf rest).map (s :: ·)

def readLengths (info : Entries) : Except LoadError (List Int) :=
  match BDictNode.getList info "files" with
  | some files => lengthsOf toUnicode enc files
  | none => (getInt64 (BDictNode.getValue info "length")).map ([·])

-- There is a file, and nothing throws before it is made.
def FirstFile : List BNode → Prop
  | [] => False
  | node :: rest =>
    match readFile toUnicode enc node with
    | .error _ => False
    | .ok none => FirstFile rest
    | .ok (some _) => True

-- The sum in a Uint64.
def wrapped (totalSize : Nat) (lengths : List Int) : Nat := lengths.foldl (fun total s => uint64 (total + toUint64 s)) totalSize

-- No length is negative, the sum fits into 64 bits and the number of chunks into
-- 32, and the hashes fill their string.
structure Sound (chunkSize : Nat) (lengths : List Int) (pieces : List UInt8) : Prop where
  nonneg : ∀ len ∈ lengths, 0 ≤ len
  total : lengths.sum < 18446744073709551616
  chunks : chunkCount lengths.sum.toNat chunkSize < 4294967296
  whole : pieces.length % 20 = 0

-- The info is refused before a division by a piece length of 0; with another piece
-- length, what the check of the number of hashes lets through is sound.
structure SafeInfo (info : Entries) (pieceLength : Int) (rest : Prop) : Prop where
  refused : toUint64 pieceLength = 0 →
    (∀ files, BDictNode.getList info "files" = some files → ¬ FirstFile toUnicode enc files) ∧
    ¬ ∃ lengths pieces name, readLengths toUnicode enc info = .ok lengths ∧
      getByteArray (BDictNode.getValue info "pieces") = .ok pieces ∧ getByteArray (BDictNode.getValue info "name") = .ok name
  sound : toUint64 pieceLength ≠ 0 → ∀ lengths pieces name, readLengths toUnicode enc info = .ok lengths →
    getByteArray (BDictNode.getValue info "pieces") = .ok pieces → getByteArray (BDictNode.getValue info "name") = .ok name →
    countChunks (wrapped 0 lengths) (toUint64 pieceLength) = uint32 ((pieces.length + 19) / 20) → rest →
    Sound (toUint64 pieceLength) lengths pieces

def Safe (qt : QtNumber) (data : QByteArray) : Prop :=
  ∀ dict off len pos, decode qt data 0 = .ok (some (.dict dict off len),pos) → ∀ enc, loadBefore dict = .ok enc →
    ∀ info, BDictNode.getDict dict "info" = some info →
    ∀ pieceLength, getInt64 (BDictNode.getValue info "piece length") = .ok pieceLength →
      SafeInfo toUnicode enc info pieceLength (loadAfter dict = .ok ())

end

def Short (bound : Nat) (n : BNode) : Prop := ∀ s off len, BNode.Within (.value (.string s) off len) n → s.length ≤ bound

theorem Short.item (all : ∀ n ∈ children, Short bound n) : Short bound (.list children off len) := by
  intro s o l within
  cases within with
  | item member inner => exact all _ member s o l inner

theorem Short.entry {children : Entries} (all : ∀ e ∈ children, Short bound e.2) : Short bound (.dict children off len) := by
  intro s o l within
  cases within with
  | entry member inner => exact all _ member s o l inner

section

variable {toUnicode : Option (List UInt8) → List UInt8 → List Char} {enc : Option (List UInt8)}

-- The files of a list of lengths, made one after the other.
def built (chunkSize : Nat) : Nat → List Int → List TorrentFile
  | _,[] => []
  | totalSize,s :: rest => .new totalSize (toUint64 s) chunkSize :: built chunkSize (uint64 (totalSize + toUint64 s)) rest

theorem loadFiles_eq (chunked : chunkSize ≠ 0) (nodes : List BNode) (files : List TorrentFile) (lengths : List Int) (totalSize : Nat) :
    loadFiles toUnicode enc chunkSize nodes files lengths totalSize =
      match lengthsOf toUnicode enc nodes with
      | .error e => .error (.thrown e)
      | .ok more => .ok (files ++ built chunkSize totalSize more,lengths ++ more,wrapped totalSize more) := by
  induction nodes generalizing files lengths totalSize with
  | nil =>
    unfold loadFiles lengthsOf
    dsimp only [built,wrapped]
    rw [List.append_nil,List.append_nil]
    rfl
  | cons node rest ih =>
    unfold loadFiles lengthsOf
    cases readFile toUnicode enc node with
    | error e => rfl
    | ok entry =>
      cases entry with
      | none => exact ih files lengths totalSize
      | some s =>
        dsimp only
        rw [if_neg chunked,ih]
        cases lengthsOf toUnicode enc rest with
        | error e => rfl
        | ok more =>
          dsimp only [Except.map,built,wrapped,List.foldl_cons]
          rw [List.append_assoc,List.append_assoc]
          rfl

end

theorem toUint64_of_nonneg (low : 0 ≤ v) (high : v < 18446744073709551616) : (toUint64 v : Int) = v := by
  unfold toUint64
  omega

theorem sum_nonneg {lengths : List Int} (nonneg : ∀ len ∈ lengths, 0 ≤ len) : 0 ≤ lengths.sum := by
  induction lengths with
  | nil => exact Int.le_refl 0
  | cons s rest ih =>
    rw [List.sum_cons]
    have here := nonneg s List.mem_cons_self
    have later := ih fun len member => nonneg len (List.mem_cons_of_mem s member)
    omega

theorem wrapped_eq (totalSize : Nat) {lengths : List Int} (nonneg : ∀ len ∈ lengths, 0 ≤ len) (small : (totalSize : Int) + lengths.sum < 18446744073709551616) :
    (wrapped totalSize lengths : Int) = totalSize + lengths.sum := by
  induction lengths generalizing totalSize with
  | nil =>
    show (totalSize : Int) = totalSize + 0
    omega
  | cons s rest ih =>
    have here := nonneg s List.mem_cons_self
    have others := fun len member => nonneg len (List.mem_cons_of_mem s member)
    have more := sum_nonneg others
    rw [List.sum_cons] at small ⊢
    have exact_ := toUint64_of_nonneg here (by omega)
    have step : uint64 (totalSize + toUint64 s) = totalSize + toUint64 s := uint64_of_lt (by omega)
    have rest := ih (totalSize + toUint64 s) others (by omega)
    show (wrapped (uint64 (totalSize + toUint64 s)) _ : Int) = _
    rw [step,rest]
    omega

theorem new_fields (small : off + size < 18446744073709551616) (few : (off + size) / chunkSize < 4294967296) :
    (TorrentFile.new off size chunkSize).firstChunk = off / chunkSize ∧
    (TorrentFile.new off size chunkSize).lastChunk = (if 0 < size then (off + size - 1) / chunkSize else off / chunkSize) ∧
    (TorrentFile.new off size chunkSize).lastChunk * chunkSize + (TorrentFile.new off size chunkSize).lastChunkSize = off + size := by
  have first : off / chunkSize ≤ (off + size) / chunkSize := Nat.div_le_div_right (by omega)
  have last : (TorrentFile.new off size chunkSize).lastChunk = if 0 < size then (off + size - 1) / chunkSize else off / chunkSize := by
    show (if size > 0 then uint32 (uint64 (off + size - 1) / chunkSize) else uint32 (off / chunkSize)) = _
    by_cases some_ : 0 < size
    · have less : (off + size - 1) / chunkSize ≤ (off + size) / chunkSize := Nat.div_le_div_right (by omega)
      rw [if_pos some_,if_pos some_,uint64_of_lt (by omega),uint32_of_lt (by omega)]
    · rw [if_neg some_,if_neg some_,uint32_of_lt (by omega)]
  have product : (TorrentFile.new off size chunkSize).lastChunk * chunkSize ≤ off + size := by
    rw [last]
    split
    · have := Nat.div_mul_le_self (off + size - 1) chunkSize
      omega
    · have := Nat.div_mul_le_self off chunkSize
      omega
  have rest : (TorrentFile.new off size chunkSize).lastChunkSize =
      uint64 (off + size + (18446744073709551616 - uint64 ((TorrentFile.new off size chunkSize).lastChunk * chunkSize))) := rfl
  refine ⟨uint32_of_lt (show off / chunkSize < _ by omega),last,?_⟩
  rw [rest,uint64_of_lt (show (TorrentFile.new off size chunkSize).lastChunk * chunkSize < _ by omega)]
  generalize (TorrentFile.new off size chunkSize).lastChunk * chunkSize = start at *
  unfold uint64
  omega

theorem countChunks_eq (totalSize chunkSize : Nat) : countChunks totalSize chunkSize = uint32 (chunkCount totalSize chunkSize) := by
  unfold countChunks chunkCount
  split
  · unfold uint32
    omega
  · rfl

section

variable {toUnicode : Option (List UInt8) → List UInt8 → List Char} {enc : Option (List UInt8)}

-- What load does once the info is read.
def finished (after : Except LoadError Unit) : Except LoadFailure Torrent → Except LoadFailure Torrent
  | .error e => .error e
  | .ok tor =>
    match after with
    | .error e => .error (.thrown e)
    | .ok _ => .ok tor

end

def latin1 (_ : Option (List UInt8)) (bytes : List UInt8) : List Char := bytes.map fun b => Char.ofNat b.toNat

def divides : Except LoadFailure Torrent → Bool
  | .error .dividedByZero => true
  | _ => false

end KtorrentStream.Torrent
