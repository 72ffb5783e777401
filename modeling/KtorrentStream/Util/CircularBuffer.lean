import Mathlib.Algebra.Group.Nat.Defs
import Mathlib.Data.List.Basic
set_option autoImplicit true

namespace KtorrentStream.Util

-- memcpy(dst + off, src, size of src)
def overwrite (dst : List UInt8) (off : Nat) (src : List UInt8) : List UInt8 :=
  dst.take off ++ src ++ dst.drop (off + src.length)

@[simp] theorem overwrite_length (inside : off + src.length ≤ dst.length) :
    (overwrite dst off src).length = dst.length := by
  simp [overwrite]
  omega

def slice (src : List UInt8) (off len : Nat) : List UInt8 := (src.drop off).take len

theorem slice_overwrite_before (inside : off + src.length ≤ dst.length) (before : a + len ≤ off) :
    slice (overwrite dst off src) a len = slice dst a len := by
  simp only [slice,overwrite]
  rw [List.append_assoc,List.drop_append_of_le_length (by simp; omega),
    List.take_append_of_le_length (by simp; omega),List.drop_take,List.take_take]
  congr 1
  omega

theorem slice_overwrite_self (inside : off + src.length ≤ dst.length) :
    slice (overwrite dst off src) off src.length = src := by
  simp only [slice,overwrite]
  rw [List.append_assoc,List.drop_left' (by simp; omega),List.take_left' rfl]

theorem slice_overwrite_after (inside : off + src.length ≤ dst.length) (after : off + src.length ≤ a) :
    slice (overwrite dst off src) a len = slice dst a len := by
  simp only [slice,overwrite]
  have front : (dst.take off ++ src).length = off + src.length := by
    simp
    omega
  rw [List.drop_append,List.drop_eq_nil_of_le (by omega),List.nil_append,front,List.drop_drop]
  congr 2
  omega

theorem slice_append (src : List UInt8) (off a b : Nat) : slice src off (a + b) = slice src off a ++ slice src (off + a) b := by
  simp [slice,List.take_add,List.drop_drop]

@[simp] theorem slice_length (inside : off + len ≤ src.length) : (slice src off len).length = len := by
  simp [slice]
  omega

@[simp] theorem slice_zero (src : List UInt8) (off : Nat) : slice src off 0 = [] := rfl

-- A ring of bytes. The capacity stays below 2^31, so that no sum of two positions
-- wraps around in a Uint32.
structure CircularBuffer where
  data : List UInt8
  start : Nat
  bufSize : Nat
  capacity_pos : 0 < data.length
  capacity_lt : data.length < 2 ^ 31
  start_lt : start < data.length
  size_le : bufSize ≤ data.length

namespace CircularBuffer

def bufCapacity (b : CircularBuffer) : Nat := b.data.length

-- The constructor leaves the storage as it comes.
def new (data : List UInt8) (capacity_pos : 0 < data.length) (capacity_lt : data.length < 2 ^ 31) : CircularBuffer :=
  ⟨data,0,0,capacity_pos,capacity_lt,capacity_pos,Nat.zero_le _⟩

def empty (b : CircularBuffer) : Bool := b.bufSize == 0
def full (b : CircularBuffer) : Bool := b.bufSize == b.bufCapacity

def firstRange (b : CircularBuffer) : Nat × Nat :=
  if b.start + b.bufSize > b.bufCapacity then (b.start,b.bufCapacity - b.start) else (b.start,b.bufSize)

-- Only asked for when the contents go over the end of the storage.
def secondRange (b : CircularBuffer) : Nat × Nat :=
  if b.start + b.bufSize > b.bufCapacity then (0,b.bufSize - (b.bufCapacity - b.start)) else (0,0)

def copied (b : CircularBuffer) (toRead : Nat) : List UInt8 :=
  let s := b.firstRange.2
  if s ≥ toRead then slice b.data b.firstRange.1 toRead
  else slice b.data b.firstRange.1 s ++ slice b.data b.secondRange.1 (toRead - s)

def advanced (b : CircularBuffer) (toRead : Nat) : CircularBuffer :=
  {b with
    start := (b.start + toRead) % b.bufCapacity
    bufSize := b.bufSize - toRead
    start_lt := Nat.mod_lt _ b.capacity_pos
    size_le := Nat.le_trans (Nat.sub_le _ _) b.size_le}

def read (b : CircularBuffer) (maxLen : Nat) : CircularBuffer × List UInt8 :=
  if b.empty then (b,[])
  else
    let toRead := if b.bufSize < maxLen then b.bufSize else maxLen
    (b.advanced toRead,b.copied toRead)

def stored (b : CircularBuffer) (src : List UInt8) (toWrite : Nat) : List UInt8 :=
  let writePos := (b.start + b.bufSize) % b.bufCapacity
  if writePos + toWrite > b.bufCapacity then
    let w := b.bufCapacity - writePos
    overwrite (overwrite b.data writePos (src.take w)) 0 (slice src w (toWrite - w))
  else overwrite b.data writePos (src.take toWrite)

theorem stored_length (b : CircularBuffer) (src : List UInt8) (toWrite : Nat) (fits : toWrite ≤ src.length)
    (room : toWrite ≤ b.bufCapacity - b.bufSize) : (b.stored src toWrite).length = b.data.length := by
  have capacity : b.bufCapacity = b.data.length := rfl
  have position : (b.start + b.bufSize) % b.bufCapacity < b.data.length := Nat.mod_lt _ b.capacity_pos
  rw [stored]
  simp only
  split
  · rw [overwrite_length,overwrite_length]
    · simp
      omega
    · rw [overwrite_length]
      · simp [slice]
        omega
      · simp
        omega
  · rw [overwrite_length]
    simp
    omega

def appended (b : CircularBuffer) (src : List UInt8) (toWrite : Nat) (fits : toWrite ≤ src.length)
    (room : toWrite ≤ b.bufCapacity - b.bufSize) : CircularBuffer where
  data := b.stored src toWrite
  start := b.start
  bufSize := b.bufSize + toWrite
  capacity_pos := b.stored_length src toWrite fits room ▸ b.capacity_pos
  capacity_lt := b.stored_length src toWrite fits room ▸ b.capacity_lt
  start_lt := b.stored_length src toWrite fits room ▸ b.start_lt
  size_le := by
    have capacity : b.bufCapacity = b.data.length := rfl
    have size := b.size_le
    rw [b.stored_length src toWrite fits room]
    omega

def write (b : CircularBuffer) (src : List UInt8) : CircularBuffer × Nat :=
  if b.full then (b,0)
  else
    let freeSpace := b.bufCapacity - b.bufSize
    if short : freeSpace < src.length then
      (b.appended src freeSpace (Nat.le_of_lt short) (Nat.le_refl _),freeSpace)
    else (b.appended src src.length (Nat.le_refl _) (Nat.le_of_not_lt short),src.length)

-- The ring as a queue: element i of the contents is i places after start.
def contents (b : CircularBuffer) : List UInt8 :=
  (List.range b.bufSize).map fun i => b.data.getD ((b.start + i) % b.bufCapacity) 0

theorem contents_length (b : CircularBuffer) : b.contents.length = b.bufSize := by
  simp [contents]

theorem wrap_of_lt {x capacity : Nat} (bound : x < 2 * capacity) :
    x % capacity = if x < capacity then x else x - capacity := by
  split
  · exact Nat.mod_eq_of_lt ‹_›
  · rw [Nat.mod_eq_sub_mod (by omega),Nat.mod_eq_of_lt (by omega)]

theorem contents_getElem? (b : CircularBuffer) (i : Nat) :
    b.contents[i]? = if i < b.bufSize then
      b.data[if b.start + i < b.bufCapacity then b.start + i else b.start + i - b.bufCapacity]? else none := by
  have start := b.start_lt
  have size := b.size_le
  have capacity : b.bufCapacity = b.data.length := rfl
  rw [contents,List.getElem?_map]
  split
  · rw [List.getElem?_range ‹_›,Option.map_some,wrap_of_lt (by omega),List.getD_eq_getElem?_getD]
    split <;> rw [List.getElem?_eq_getElem (by omega)] <;> rfl
  · rw [List.getElem?_eq_none (by simp; omega)]
    rfl

theorem slice_getElem? (src : List UInt8) (off len i : Nat) :
    (slice src off len)[i]? = if i < len then src[off + i]? else none := by
  rw [slice,List.getElem?_take]
  split
  · rw [List.getElem?_drop]
  · rfl

theorem overwrite_getElem? (inside : off ≤ dst.length) :
    (overwrite dst off src)[i]? = if i < off then dst[i]? else if i < off + src.length then src[i - off]? else dst[i]? := by
  have front : (dst.take off).length = off := by
    simp
    omega
  rw [overwrite,List.append_assoc,List.getElem?_append,front]
  split
  · rw [List.getElem?_take,if_pos ‹_›]
  · rw [List.getElem?_append]
    split
    · rw [if_pos (by omega)]
    · rw [if_neg (by omega),List.getElem?_drop]
      congr 1
      omega

theorem copied_contents (b : CircularBuffer) (short : toRead ≤ b.bufSize) :
    b.copied toRead = b.contents.take toRead := by
  have start := b.start_lt
  have size := b.size_le
  have capacity : b.bufCapacity = b.data.length := rfl
  apply List.ext_getElem?
  intro i
  rw [List.getElem?_take,contents_getElem?,copied,firstRange,secondRange]
  by_cases wrapped : b.start + b.bufSize > b.bufCapacity
  · simp only [if_pos wrapped]
    by_cases within : b.bufCapacity - b.start ≥ toRead
    · rw [if_pos within,slice_getElem?]
      by_cases inside : i < toRead
      · simp only [if_pos inside,if_pos (show i < b.bufSize by omega),if_pos (show b.start + i < b.bufCapacity by omega)]
      · simp only [if_neg inside]
    · rw [if_neg within,List.getElem?_append,slice_length (by omega),slice_getElem?,slice_getElem?]
      by_cases first : i < b.bufCapacity - b.start
      · simp only [if_pos first,if_pos (show i < toRead by omega),if_pos (show i < b.bufSize by omega),
          if_pos (show b.start + i < b.bufCapacity by omega)]
      · by_cases inside : i < toRead
        · simp only [if_neg first,if_pos inside,if_pos (show i < b.bufSize by omega),
            if_pos (show i - (b.bufCapacity - b.start) < toRead - (b.bufCapacity - b.start) by omega),
            if_neg (show ¬ b.start + i < b.bufCapacity by omega)]
          congr 1
          omega
        · simp only [if_neg first,if_neg inside,
            if_neg (show ¬ i - (b.bufCapacity - b.start) < toRead - (b.bufCapacity - b.start) by omega)]
  · simp only [if_neg wrapped]
    rw [if_pos short,slice_getElem?]
    by_cases inside : i < toRead
    · simp only [if_pos inside,if_pos (show i < b.bufSize by omega),if_pos (show b.start + i < b.bufCapacity by omega)]
    · simp only [if_neg inside]

theorem advanced_contents (b : CircularBuffer) (toRead : Nat) :
    (b.advanced toRead).contents = b.contents.drop toRead := by
  apply List.ext_getElem
  · rw [contents_length,List.length_drop,contents_length]
    rfl
  · intro i inside inside'
    rw [List.getElem_drop]
    simp only [contents,advanced,List.getElem_map,List.getElem_range]
    show b.data.getD (((b.start + toRead) % b.bufCapacity + i) % b.bufCapacity) 0 = _
    rw [Nat.mod_add_mod,Nat.add_assoc]

theorem stored_getElem? (b : CircularBuffer) (fits : toWrite ≤ src.length)
    (room : toWrite ≤ b.bufCapacity - b.bufSize) (inside : i < b.bufSize + toWrite) :
    (b.stored src toWrite)[if b.start + i < b.bufCapacity then b.start + i else b.start + i - b.bufCapacity]? =
      if i < b.bufSize then
        b.data[if b.start + i < b.bufCapacity then b.start + i else b.start + i - b.bufCapacity]?
      else src[i - b.bufSize]? := by
  have start := b.start_lt
  have size := b.size_le
  have capacity : b.bufCapacity = b.data.length := rfl
  generalize place : (if b.start + i < b.bufCapacity then b.start + i else b.start + i - b.bufCapacity) = j
  have position : (b.start + b.bufSize) % b.bufCapacity =
      if b.start + b.bufSize < b.bufCapacity then b.start + b.bufSize else b.start + b.bufSize - b.bufCapacity :=
    wrap_of_lt (by omega)
  rw [stored]
  simp only
  generalize (b.start + b.bufSize) % b.bufCapacity = writePos at *
  split
  · rw [overwrite_getElem? (Nat.zero_le _),overwrite_getElem? (by split at position <;> omega)]
    simp only [List.length_take,slice,List.length_drop]
    grind
  · rw [overwrite_getElem? (by split at position <;> omega)]
    simp only [List.length_take]
    grind

theorem appended_contents (b : CircularBuffer) (src : List UInt8) (toWrite : Nat) (fits : toWrite ≤ src.length)
    (room : toWrite ≤ b.bufCapacity - b.bufSize) :
    (b.appended src toWrite fits room).contents = b.contents ++ src.take toWrite := by
  have capacity : (b.appended src toWrite fits room).bufCapacity = b.bufCapacity := b.stored_length src toWrite fits room
  have size : (b.appended src toWrite fits room).bufSize = b.bufSize + toWrite := rfl
  apply List.ext_getElem?
  intro i
  rw [contents_getElem?,capacity,size,List.getElem?_append,contents_length,contents_getElem?,List.getElem?_take]
  by_cases inside : i < b.bufSize + toWrite
  · rw [if_pos inside]
    refine (b.stored_getElem? fits room inside).trans ?_
    by_cases old : i < b.bufSize
    · simp only [if_pos old]
    · simp only [if_neg old,if_pos (show i - b.bufSize < toWrite by omega)]
  · rw [if_neg inside,if_neg (by omega),if_neg (by omega)]

theorem read_contents (b : CircularBuffer) (maxLen : Nat) :
    (b.read maxLen).2 = b.contents.take maxLen ∧ (b.read maxLen).1.contents = b.contents.drop maxLen := by
  have length := b.contents_length
  rw [read]
  split
  · rename_i none
    have zero : b.bufSize = 0 := by simpa [empty] using none
    simp [List.eq_nil_of_length_eq_zero (length.trans zero)]
  · simp only
    split
    · rename_i short
      rw [copied_contents b (Nat.le_refl _),advanced_contents,List.take_of_length_le (by omega),
        List.take_of_length_le (by omega),List.drop_of_length_le (by omega),List.drop_of_length_le (by omega)]
      exact ⟨rfl,rfl⟩
    · exact ⟨copied_contents b (by omega),advanced_contents b maxLen⟩

theorem write_contents (b : CircularBuffer) (src : List UInt8) :
    (b.write src).1.contents = b.contents ++ src.take (b.write src).2 ∧ (b.write src).2 ≤ src.length := by
  rw [write]
  split
  · simp
  · simp only
    split
    · rename_i short
      exact ⟨appended_contents b src _ (Nat.le_of_lt short) (Nat.le_refl _),Nat.le_of_lt short⟩
    · rename_i enough
      exact ⟨appended_contents b src _ (Nat.le_refl _) (Nat.le_of_not_lt enough),Nat.le_refl _⟩

end CircularBuffer
end KtorrentStream.Util
