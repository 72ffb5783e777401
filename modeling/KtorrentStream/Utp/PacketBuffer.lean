import KtorrentStream.Util.CircularBuffer
import KtorrentStream.Utp.Protocol
set_option autoImplicit true

namespace KtorrentStream.Utp
open KtorrentStream.Util

def maxSize : Nat := 1500

-- The pointers of a PacketBuffer are offsets into the first MAX_SIZE bytes of its
-- buffer, none for a null pointer.
structure PacketBuffer where
  buffer : List UInt8
  header : Option Nat
  extension : Option Nat
  payload : Option Nat
  size : Nat
  sized : buffer.length = maxSize
  inside : ∀ off, payload = some off → off ≤ maxSize

namespace PacketBuffer

-- A buffer of the pool comes with whatever was in it. All that is sent of it is
-- written first.
def new : PacketBuffer where
  buffer := List.replicate maxSize 0
  header := none
  extension := none
  payload := none
  size := 0
  sized := List.length_replicate
  inside := by
    intro off none
    cases none

def payloadSize (p : PacketBuffer) : Nat :=
  match p.payload with
  | some off => maxSize - off
  | none => 0

def headRoom (p : PacketBuffer) : Nat := p.payload.getD maxSize

def data (p : PacketBuffer) : List UInt8 := slice p.buffer (p.header.getD 0) p.size

def payloadBytes (p : PacketBuffer) : List UInt8 := slice p.buffer (p.headRoom) p.payloadSize

def fillSize (toRead : Nat) : Nat := if toRead > maxSize - Header.size then maxSize - Header.size else toRead

theorem fillSize_le (toRead : Nat) : fillSize toRead ≤ maxSize := by
  rw [fillSize]
  have : maxSize = 1500 := rfl
  split <;> omega

theorem fill_fits (cbuf : CircularBuffer) (toRead : Nat) :
    maxSize - fillSize toRead + (cbuf.read (fillSize toRead)).2.length ≤ maxSize := by
  have size := fillSize_le toRead
  rw [(cbuf.read_contents _).1,List.length_take]
  omega

-- Data is put at the end of the buffer, so that headers go in front of it.
def fillData (p : PacketBuffer) (cbuf : CircularBuffer) (toRead : Nat) : PacketBuffer × CircularBuffer :=
  let off := maxSize - fillSize toRead
  ({buffer := overwrite p.buffer off (cbuf.read (fillSize toRead)).2
    header := some off
    extension := some off
    payload := some off
    size := fillSize toRead
    sized := by rw [overwrite_length (by rw [p.sized]; exact fill_fits cbuf toRead)]; exact p.sized
    inside := by
      intro off' same
      cases same
      exact Nat.sub_le _ _},(cbuf.read (fillSize toRead)).1)

-- setHeader either returns false, or writes the header; with too little room in
-- front of the payload it would write before the start of the buffer.
inductive Layout where
  | noRoom
  | undefined
  | done (p : PacketBuffer)

def writeAt (p : PacketBuffer) (off : Nat) (bytes : List UInt8) (inside : off + bytes.length ≤ maxSize) : PacketBuffer :=
  {p with
    buffer := overwrite p.buffer off bytes
    sized := by rw [overwrite_length (by rw [p.sized]; omega)]; exact p.sized}

def setHeader (p : PacketBuffer) (hdr : Header) (extensionLength : UInt32) : Layout :=
  if ((20 : UInt32) - extensionLength).toNat > p.headRoom then .noRoom
  else
    let header : Option Nat :=
      match p.payload with
      | some off => if off < Header.size + extensionLength.toNat then none else some (off - Header.size - extensionLength.toNat)
      | none => some 0
    match header with
    | none => .undefined
    | some start =>
        if inside : start + hdr.write.length ≤ maxSize then
          .done {p.writeAt start hdr.write inside with
            header := some start
            extension := some (start + Header.size)
            size :=
              match p.payload with
              | some _ => maxSize - start
              | none => Header.size + extensionLength.toNat}
        else .undefined

-- sack.bitmask and the two bytes before it are written through extensionData().
def writeExtension (p : PacketBuffer) (bytes : List UInt8) : PacketBuffer :=
  match p.extension with
  | none => p
  | some off => if inside : off + bytes.length ≤ maxSize then p.writeAt off bytes inside else p

theorem fillData_payload (p : PacketBuffer) (cbuf : CircularBuffer) (some_bytes : toRead ≤ cbuf.bufSize)
    (room : toRead + Header.size ≤ maxSize) :
    (p.fillData cbuf toRead).1.payload = some (maxSize - toRead) ∧
    (p.fillData cbuf toRead).1.payloadBytes = cbuf.contents.take toRead ∧
    (p.fillData cbuf toRead).2.contents = cbuf.contents.drop toRead := by
  have size : fillSize toRead = toRead := if_neg (by omega)
  have length := cbuf.contents_length
  refine ⟨by simp only [fillData,size],?_,by simp only [fillData,size]; exact (cbuf.read_contents toRead).2⟩
  simp only [payloadBytes,payloadSize,headRoom,fillData,size,Option.getD_some,(cbuf.read_contents toRead).1]
  have count : (cbuf.contents.take toRead).length = toRead := by
    rw [List.length_take]
    omega
  have whole : maxSize - (maxSize - toRead) = toRead := by omega
  rw [whole]
  conv_lhs => arg 3; rw [← count]
  exact slice_overwrite_self (by rw [p.sized,count]; omega)

theorem writeExtension_eq (p : PacketBuffer) (place : p.extension = some off) (inside : off + bytes.length ≤ maxSize) :
    p.writeExtension bytes = p.writeAt off bytes inside := by
  rw [writeExtension,place]
  exact dif_pos inside

theorem roomFor (extensionLength : UInt32) (short : extensionLength.toNat ≤ 6) :
    ((20 : UInt32) - extensionLength).toNat = 20 - extensionLength.toNat := by
  rw [UInt32.toNat_sub_of_le _ _ (UInt32.le_iff_toNat_le.mpr (Nat.le_trans short (by decide)))]
  rfl

theorem slice_headers (start : Nat) (buffer : List UInt8) (hdr : Header) (bytes : List UInt8)
    (inside : start + 20 + bytes.length ≤ buffer.length) :
    slice (overwrite (overwrite buffer start hdr.write) (start + 20) bytes) start (20 + bytes.length) =
      hdr.write ++ bytes ∧
    ∀ a len, start + 20 + bytes.length ≤ a →
      slice (overwrite (overwrite buffer start hdr.write) (start + 20) bytes) a len = slice buffer a len := by
  have first : start + hdr.write.length ≤ buffer.length := by
    rw [hdr.write_length]
    omega
  have second : start + 20 + bytes.length ≤ (overwrite buffer start hdr.write).length := by
    rw [overwrite_length first]
    exact inside
  refine ⟨?_,?_⟩
  · rw [slice_append,slice_overwrite_self second,slice_overwrite_before second (Nat.le_refl _)]
    exact congrArg (· ++ bytes) (slice_overwrite_self first)
  · intro a len after
    rw [slice_overwrite_after second (by omega),slice_overwrite_after first (by rw [hdr.write_length]; omega)]

theorem setHeader_front (p : PacketBuffer) (hdr : Header) (extensionLength : UInt32) (bytes : List UInt8)
    (none : p.payload = none) (accepted : ¬ ((20 : UInt32) - extensionLength).toNat > p.headRoom)
    (exact_length : bytes.length = extensionLength.toNat) (room : Header.size + extensionLength.toNat ≤ maxSize) :
    ∃ p', p.setHeader hdr extensionLength = .done p' ∧ (p'.writeExtension bytes).data = hdr.write ++ bytes ∧
      (p'.writeExtension bytes).payload = .none := by
  have header : Header.size = 20 := rfl
  have inside : 0 + hdr.write.length ≤ maxSize := by
    rw [hdr.write_length]
    omega
  have result : p.setHeader hdr extensionLength = .done {p.writeAt 0 hdr.write inside with
      header := some 0
      extension := some (0 + Header.size)
      size := Header.size + extensionLength.toNat} := by
    rw [setHeader,if_neg accepted]
    simp only [none]
    rw [dif_pos inside]
  refine ⟨_,result,?_⟩
  rw [writeExtension_eq _ rfl (by simp only [Header.size]; omega)]
  simp only [data,writeAt,Option.getD_some,Header.size,← exact_length]
  exact ⟨(slice_headers 0 p.buffer hdr bytes (by rw [p.sized]; omega)).1,none⟩

-- The header of a data packet goes in front of its payload, which stays as it is.
theorem setHeader_before (p : PacketBuffer) (hdr : Header) (extensionLength : UInt32) (bytes : List UInt8)
    (payload : p.payload = some off) (accepted : ¬ ((20 : UInt32) - extensionLength).toNat > p.headRoom)
    (exact_length : bytes.length = extensionLength.toNat) (room : Header.size + extensionLength.toNat ≤ off) :
    ∃ p', p.setHeader hdr extensionLength = .done p' ∧
      (p'.writeExtension bytes).data = hdr.write ++ bytes ++ p.payloadBytes ∧
      (p'.writeExtension bytes).payload = some off ∧ (p'.writeExtension bytes).payloadBytes = p.payloadBytes := by
  have max : maxSize = 1500 := rfl
  have header : Header.size = 20 := rfl
  have bound := p.inside off payload
  obtain ⟨start,rfl⟩ : ∃ start, off = start + 20 + extensionLength.toNat := ⟨off - 20 - extensionLength.toNat,by omega⟩
  have inside : start + hdr.write.length ≤ maxSize := by
    rw [hdr.write_length]
    omega
  have result : p.setHeader hdr extensionLength = .done {p.writeAt start hdr.write inside with
      header := some start
      extension := some (start + Header.size)
      size := maxSize - start} := by
    rw [setHeader,if_neg accepted]
    simp only [payload]
    rw [if_neg (by omega),show start + 20 + extensionLength.toNat - Header.size - extensionLength.toNat = start by omega]
    simp only
    rw [dif_pos inside]
  have slices := slice_headers start p.buffer hdr bytes (by rw [p.sized]; omega)
  have rest := slices.2 (start + 20 + extensionLength.toNat) (maxSize - (start + 20 + extensionLength.toNat)) (by omega)
  refine ⟨_,result,?_⟩
  rw [writeExtension_eq _ rfl (by simp only [Header.size]; omega)]
  simp only [data,writeAt,Option.getD_some,Header.size,payloadBytes,payloadSize,headRoom,payload]
  refine ⟨?_,trivial,rest⟩
  rw [show maxSize - start = 20 + bytes.length + (maxSize - (start + 20 + extensionLength.toNat)) by omega,
    slice_append,slices.1,show start + (20 + bytes.length) = start + 20 + extensionLength.toNat by omega,rest]

-- The extensions of a connection are short enough for the room to be measured right.
theorem setHeader_control (p : PacketBuffer) (hdr : Header) (extensionLength : UInt32) (bytes : List UInt8)
    (none : p.payload = none) (short : extensionLength.toNat ≤ 6) (exact_length : bytes.length = extensionLength.toNat) :
    ∃ p', p.setHeader hdr extensionLength = .done p' ∧ (p'.writeExtension bytes).data = hdr.write ++ bytes := by
  have max : maxSize = 1500 := rfl
  have header : Header.size = 20 := rfl
  have accepted : ¬ ((20 : UInt32) - extensionLength).toNat > p.headRoom := by
    rw [roomFor _ short,headRoom,none,Option.getD_none]
    omega
  obtain ⟨p',result,bytes,_⟩ := p.setHeader_front hdr extensionLength bytes none accepted exact_length (by omega)
  exact ⟨p',result,bytes⟩

theorem setHeader_data (p : PacketBuffer) (hdr : Header) (extensionLength : UInt32) (bytes : List UInt8)
    (payload : p.payload = some off) (short : extensionLength.toNat ≤ 6)
    (exact_length : bytes.length = extensionLength.toNat) (room : Header.size + extensionLength.toNat ≤ off) :
    ∃ p', p.setHeader hdr extensionLength = .done p' ∧
      (p'.writeExtension bytes).data = hdr.write ++ bytes ++ p.payloadBytes ∧
      (p'.writeExtension bytes).payload = some off ∧ (p'.writeExtension bytes).payloadBytes = p.payloadBytes := by
  have header : Header.size = 20 := rfl
  have accepted : ¬ ((20 : UInt32) - extensionLength).toNat > p.headRoom := by
    rw [roomFor _ short,headRoom,payload,Option.getD_some]
    omega
  exact p.setHeader_before hdr extensionLength bytes payload accepted exact_length room

end PacketBuffer
end KtorrentStream.Utp
