import Mathlib.Data.List.Basic
set_option autoImplicit true

namespace KtorrentStream.Diskio

structure PieceData where
  chunk : Nat
  off : Nat
  len : Nat
  mapped : Bool
  readOnly : Bool
  -- the bytes behind ptr when the piece is not mapped into a file
  buf : List UInt8

-- The data files are one run of bytes, chunk c starts at c * chunk_size. A
-- PieceData::Ptr is a place in `pieces`. canMap says whether a piece of a chunk
-- gets mapped (mmap may fail, mappedModeAllowed may refuse, the chunk may lie in
-- several files), fresh what the n-th buffer holds before it is written, fileEnd how
-- many bytes the file may have from the start of a chunk on (max_size).
structure Cache where
  chunkSize : Nat
  file : Nat → UInt8
  pieces : List PieceData
  pieceCache : List Nat
  canMap : Nat → Nat → Bool
  fresh : Nat → Nat → UInt8
  fileEnd : Nat → Nat
  -- every PieceData::write so far: the chunk, the place in it and the bytes
  written : List (Nat × Nat × List UInt8)

def window (file : Nat → UInt8) (start len : Nat) : List UInt8 := (List.range len).map fun i => file (start + i)

def poke (file : Nat → UInt8) (start : Nat) (data : List UInt8) : Nat → UInt8 := fun x =>
  if start ≤ x ∧ x < start + data.length then data.getD (x - start) 0 else file x

namespace Cache

def pieceOff (c : Cache) (pd : PieceData) : Nat := pd.chunk * c.chunkSize + pd.off

def bytes (c : Cache) (pd : PieceData) : List UInt8 :=
  if pd.mapped then window c.file (c.pieceOff pd) pd.len else pd.buf

def suits (c : Cache) (chunk off len : Nat) (readOnly : Bool) (p : Nat) : Bool :=
  match c.pieces[p]? with
  | none => false
  | some pd => pd.chunk == chunk && pd.off == off && pd.len == len && !(pd.readOnly && !readOnly)

def findPiece (c : Cache) (chunk off len : Nat) (readOnly : Bool) : Option Nat :=
  c.pieceCache.find? (c.suits chunk off len readOnly)

def newPiece (c : Cache) (chunk off len : Nat) (readOnly : Bool) : PieceData where
  chunk := chunk
  off := off
  len := len
  mapped := c.canMap chunk off
  readOnly := readOnly
  buf := (List.range len).map (c.fresh c.pieces.length)

def insertPiece (c : Cache) (pd : PieceData) : Cache :=
  {c with pieces := c.pieces ++ [pd],pieceCache := c.pieces.length :: c.pieceCache}

def createPiece (c : Cache) (chunk off len : Nat) (readOnly : Bool) : Nat × Cache :=
  (c.pieces.length,c.insertPiece (c.newPiece chunk off len readOnly))

def preparePiece (c : Cache) (chunk off len : Nat) : Nat × Cache :=
  match c.findPiece chunk off len false with
  | some p => (p,c)
  | none => c.createPiece chunk off len false

-- CacheFile::map throws an Error for a piece that ends behind max_size.
def mapThrows (c : Cache) (chunk off len : Nat) : Bool :=
  (c.findPiece chunk off len false).isNone && c.canMap chunk off && off + len > c.fileEnd chunk

def loadPiece (c : Cache) (chunk off len : Nat) : Nat × Cache :=
  match c.findPiece chunk off len true with
  | some p => (p,c)
  | none =>
    let pd := c.newPiece chunk off len true
    (c.pieces.length,c.insertPiece {pd with buf := window c.file (c.pieceOff pd) len})

def getPiece (c : Cache) (chunk off len : Nat) (readOnly : Bool) : Nat × Cache :=
  if readOnly then c.loadPiece chunk off len else c.preparePiece chunk off len

def fill (c : Cache) (p : Nat) (pd : PieceData) (data : List UInt8) : Cache :=
  if pd.mapped then {c with file := poke c.file (c.pieceOff pd) data}
  else {c with pieces := c.pieces.set p {pd with buf := data ++ pd.buf.drop data.length}}

-- The number of bytes written; a piece that is mapped read only throws.
def write (c : Cache) (p : Nat) (data : List UInt8) : Option (Nat × Cache) :=
  match c.pieces[p]? with
  | none => some (0,c)
  | some pd =>
    if data.length > pd.len then some (0,c)
    else if pd.readOnly then none
    else some (data.length,{c.fill p pd data with written := c.written ++ [(pd.chunk,pd.off,data)]})

-- Mapped pieces are in the file already, buffered ones need to be written.
def savePiece (c : Cache) (p : Nat) : Cache :=
  match c.pieces[p]? with
  | none => c
  | some pd => if pd.mapped then c else {c with file := poke c.file (c.pieceOff pd) pd.buf}

def clearPieces (c : Cache) (chunk : Nat) : Cache :=
  {c with pieceCache := c.pieceCache.filter fun p => (c.pieces[p]?).all fun pd => pd.chunk != chunk}

variable {c c' : Cache} {p q chunk off len : Nat} {pd pd' : PieceData} {data : List UInt8}

theorem window_congr (same : ∀ i < len, f (start + i) = g (start + i)) : window f start len = window g start len :=
  List.map_congr_left fun i member => same i (List.mem_range.mp member)

theorem window_poke (file : Nat → UInt8) (start : Nat) (data : List UInt8) :
    window (poke file start data) start data.length = data := by
  apply List.ext_getElem
  · simp [window]
  · intro i left right
    simp only [window,poke,List.getElem_map,List.getElem_range]
    rw [if_pos ⟨by omega,by omega⟩,Nat.add_sub_cancel_left,List.getD_eq_getElem?_getD,List.getElem?_eq_getElem right]
    rfl

theorem window_poke_of_disjoint (file : Nat → UInt8) (data : List UInt8)
    (apart : there + len ≤ start ∨ start + data.length ≤ there) :
    window (poke file start data) there len = window file there len :=
  window_congr fun i inside => if_neg (by omega)

structure Alike (pd pd' : PieceData) : Prop where
  chunk : pd'.chunk = pd.chunk
  off : pd'.off = pd.off
  len : pd'.len = pd.len
  mapped : pd'.mapped = pd.mapped
  readOnly : pd'.readOnly = pd.readOnly
  buf : pd.buf.length = pd.len → pd'.buf.length = pd.len

theorem Alike.refl (pd : PieceData) : Alike pd pd := ⟨rfl,rfl,rfl,rfl,rfl,id⟩

theorem fill_self (found : c.pieces[p]? = some pd) (full : data.length = pd.len) :
    ∃ pd', (c.fill p pd data).pieces[p]? = some pd' ∧ Alike pd pd' ∧
      (pd.buf.length = pd.len → (c.fill p pd data).bytes pd' = data) := by
  cases mapped : pd.mapped with
  | true =>
    refine ⟨pd,by rw [fill,if_pos mapped]; exact found,.refl pd,fun _ => ?_⟩
    rw [fill,if_pos mapped,bytes,if_pos mapped,← full]
    exact window_poke _ _ _
  | false =>
    have unmapped : ¬ pd.mapped = true := by simp [mapped]
    have inside : p < c.pieces.length := (List.getElem?_eq_some_iff.mp found).1
    have whole : pd.buf.length = pd.len → data ++ pd.buf.drop data.length = data := fun sized => by
      rw [List.drop_eq_nil_of_le (by omega),List.append_nil]
    refine ⟨{pd with buf := data ++ pd.buf.drop data.length},?_,⟨rfl,rfl,rfl,rfl,rfl,fun sized => ?_⟩,fun sized => ?_⟩
    · rw [fill,if_neg unmapped]
      simp [inside]
    · show (data ++ pd.buf.drop data.length).length = pd.len
      rw [whole sized,full]
    · rw [bytes,if_neg unmapped]
      exact whole sized

theorem fill_other (other : q ≠ p) : (c.fill p pd data).pieces[q]? = c.pieces[q]? := by
  unfold fill
  split
  · rfl
  · exact List.getElem?_set_ne (Ne.symm other)

-- Another piece of the chunk keeps its bytes when this one is filled.
theorem fill_bytes_other (apart : c.pieceOff pd' + pd'.len ≤ c.pieceOff pd ∨ c.pieceOff pd + data.length ≤ c.pieceOff pd') :
    (c.fill p pd data).bytes pd' = c.bytes pd' := by
  unfold bytes
  split
  · unfold fill
    split
    · exact window_poke_of_disjoint _ _ apart
    · rfl
  · rfl

-- The piece that preparePiece gives is the one asked for and can be written.
theorem preparePiece_ready (prepared : c.preparePiece chunk off len = (p,c')) :
    c'.written = c.written ∧ ∃ pd, c'.pieces[p]? = some pd ∧ pd.chunk = chunk ∧ pd.off = off ∧ pd.len = len ∧
      pd.readOnly = false := by
  unfold preparePiece at prepared
  split at prepared
  · rename_i q found
    cases prepared
    have fits := List.find?_some found
    unfold suits at fits
    split at fits
    · cases fits
    · rename_i pd there
      simp only [Bool.and_eq_true,beq_iff_eq,Bool.not_false,Bool.and_true,Bool.not_eq_true'] at fits
      exact ⟨rfl,pd,there,fits.1.1.1,fits.1.1.2,fits.1.2,fits.2⟩
  · cases prepared
    exact ⟨rfl,_,List.getElem?_concat_length,rfl,rfl,rfl,rfl⟩

theorem write_ready (found : c.pieces[p]? = some pd) (fits : data.length = pd.len) (writeable : pd.readOnly = false) :
    c.write p data = some (data.length,{c.fill p pd data with written := c.written ++ [(pd.chunk,pd.off,data)]}) := by
  unfold write
  rw [found]
  dsimp only
  rw [if_neg (by omega),if_neg (by simp [writeable])]

end Cache

end KtorrentStream.Diskio
