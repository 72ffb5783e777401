import KtorrentStream.Utp.SeqNr
import Mathlib.Tactic.IntervalCases
set_option autoImplicit true

namespace KtorrentStream.Utp

-- bt::Buffer: a block of bytes whose size is a Uint32.
structure Buffer where
  data : List UInt8
  size_lt : data.length < 2 ^ 32
  deriving DecidableEq

def Buffer.size (b : Buffer) : UInt32 := UInt32.ofNat b.data.length

@[simp] theorem Buffer.size_toNat (b : Buffer) : b.size.toNat = b.data.length := by
  simp only [Buffer.size,UInt32.toNat_ofNat']
  exact Nat.mod_eq_of_lt b.size_lt

-- util/functions.h: integers go on the wire most significant byte first.
def writeUint16 (val : UInt16) : List UInt8 :=
  [((val &&& 0xFF00) >>> 8).toUInt8,(val &&& 0x00FF).toUInt8]

def readUint16 (buf : List UInt8) (off : Nat) : UInt16 :=
  (buf.getD off 0).toUInt16 <<< 8 ||| (buf.getD (off + 1) 0).toUInt16

def writeUint32 (val : UInt32) : List UInt8 :=
  [((val &&& 0xFF000000) >>> 24).toUInt8,((val &&& 0x00FF0000) >>> 16).toUInt8,
   ((val &&& 0x0000FF00) >>> 8).toUInt8,(val &&& 0x000000FF).toUInt8]

def readUint32 (buf : List UInt8) (off : Nat) : UInt32 :=
  (buf.getD off 0).toUInt32 <<< 24 ||| (buf.getD (off + 1) 0).toUInt32 <<< 16 |||
  (buf.getD (off + 2) 0).toUInt32 <<< 8 ||| (buf.getD (off + 3) 0).toUInt32

theorem uint16_of_bytes (val : UInt16) :
    ((val &&& 0xFF00) >>> 8).toUInt8.toUInt16 <<< 8 ||| (val &&& 0x00FF).toUInt8.toUInt16 = val := by
  apply UInt16.toBitVec_inj.mp
  ext i inside
  interval_cases i <;> simp [-UInt16.toUInt16_toUInt8,-UInt16.toUInt8_and]

theorem uint32_of_bytes (val : UInt32) :
    ((val &&& 0xFF000000) >>> 24).toUInt8.toUInt32 <<< 24 |||
    ((val &&& 0x00FF0000) >>> 16).toUInt8.toUInt32 <<< 16 |||
    ((val &&& 0x0000FF00) >>> 8).toUInt8.toUInt32 <<< 8 |||
    (val &&& 0x000000FF).toUInt8.toUInt32 = val := by
  apply UInt32.toBitVec_inj.mp
  ext i inside
  interval_cases i <;> simp [-UInt32.toUInt32_toUInt8,-UInt32.toUInt8_and]

instance sixteen_neZero : NeZero 16 := ⟨by decide⟩

-- The type field is a 4 bit field; these are the values the protocol names.
def stData : Fin 16 := 0
def stFin : Fin 16 := 1
def stState : Fin 16 := 2
def stReset : Fin 16 := 3
def stSyn : Fin 16 := 4

def selectiveAckId : UInt8 := 1

structure Header where
  version : Fin 16
  type : Fin 16
  extension : UInt8
  connectionId : UInt16
  timestampMicroseconds : UInt32
  timestampDifferenceMicroseconds : UInt32
  wndSize : UInt32
  seqNr : UInt16
  ackNr : UInt16
  deriving DecidableEq

def Header.size : Nat := 20

def Header.typeAndVersion (hdr : Header) : UInt8 :=
  (UInt8.ofNat hdr.type.val <<< 4 &&& 0xF0) ||| (UInt8.ofNat hdr.version.val &&& 0x0F)

def Header.write (hdr : Header) : List UInt8 :=
  [hdr.typeAndVersion,hdr.extension] ++ writeUint16 hdr.connectionId ++
  writeUint32 hdr.timestampMicroseconds ++ writeUint32 hdr.timestampDifferenceMicroseconds ++
  writeUint32 hdr.wndSize ++ writeUint16 hdr.seqNr ++ writeUint16 hdr.ackNr

def Header.read (data : List UInt8) : Header where
  type := Fin.ofNat 16 ((data.getD 0 0 &&& 0xF0) >>> 4).toNat
  version := Fin.ofNat 16 (data.getD 0 0 &&& 0x0F).toNat
  extension := data.getD 1 0
  connectionId := readUint16 data 2
  timestampMicroseconds := readUint32 data 4
  timestampDifferenceMicroseconds := readUint32 data 8
  wndSize := readUint32 data 12
  seqNr := readUint16 data 16
  ackNr := readUint16 data 18

@[simp] theorem Header.write_length (hdr : Header) : hdr.write.length = 20 := rfl

theorem nibbles_read : ∀ type version : Fin 16,
    Fin.ofNat 16 (((((UInt8.ofNat type.val <<< 4 &&& 0xF0) ||| (UInt8.ofNat version.val &&& 0x0F))
      &&& 0xF0) >>> 4).toNat) = type ∧
    Fin.ofNat 16 ((((UInt8.ofNat type.val <<< 4 &&& 0xF0) ||| (UInt8.ofNat version.val &&& 0x0F))
      &&& 0x0F).toNat) = version := by
  decide

theorem Header.read_write (hdr : Header) (rest : List UInt8) : Header.read (hdr.write ++ rest) = hdr := by
  have nibbles := nibbles_read hdr.type hdr.version
  cases hdr
  simp only [Header.read,Header.write,Header.typeAndVersion,readUint16,readUint32,writeUint16,writeUint32,
    List.cons_append,List.nil_append,List.getD_cons_zero,List.getD_cons_succ,Header.mk.injEq]
  exact ⟨nibbles.2,nibbles.1,trivial,uint16_of_bytes _,uint32_of_bytes _,uint32_of_bytes _,
    uint32_of_bytes _,uint16_of_bytes _,uint16_of_bytes _⟩

-- bitmask is a pointer into a packet; what may be read or written behind it are
-- the length bytes the structure speaks of.
structure SelectiveAck where
  extension : UInt8
  length : UInt8
  bitmask : List UInt8
  sized : bitmask.length = length.toNat
  deriving DecidableEq

def acked (sack : SelectiveAck) (bit : UInt16) : Bool :=
  if bit.toNat < 2 ∨ bit.toNat > 8 * sack.length.toNat + 1 then false
  else
    let byte := (bit.toNat - 2) / 8
    let bitOff := (bit.toNat - 2) % 8
    sack.bitmask.getD byte 0 &&& (1 <<< UInt8.ofNat bitOff) != 0

def ack (sack : SelectiveAck) (bit : UInt16) : SelectiveAck :=
  if bit.toNat < 2 ∨ bit.toNat > 8 * sack.length.toNat + 1 then sack
  else
    let byte := (bit.toNat - 2) / 8
    let bitOff := (bit.toNat - 2) % 8
    {sack with
      bitmask := sack.bitmask.set byte (sack.bitmask.getD byte 0 ||| (1 <<< UInt8.ofNat bitOff))
      sized := by rw [List.length_set]; exact sack.sized}

@[simp] theorem ack_length (sack : SelectiveAck) (bit : UInt16) : (ack sack bit).length = sack.length := by
  rw [ack]
  split <;> rfl

@[simp] theorem ack_extension (sack : SelectiveAck) (bit : UInt16) :
    (ack sack bit).extension = sack.extension := by
  rw [ack]
  split <;> rfl

-- What parse leaves in a PacketParser. Offsets are plain numbers: a datagram is
-- far too short for the Uint32 sums to wrap around.
structure PacketParser where
  header : Header
  selectiveAck : Option SelectiveAck
  dataOffset : Nat
  deriving DecidableEq

inductive Parse where
  | undefined
  | rejected
  | accepted (parser : PacketParser)
  deriving DecidableEq

-- One round of the loop over the header extensions reads ptr[0] and ptr[1].
-- ptr[1] lies behind the packet when the extension is its last byte.
def parseLoop (packet : List UInt8) (hdr : Header) : Nat → Nat → UInt8 → Option SelectiveAck → Parse
  | 0,_,_,_ => .undefined
  | fuel + 1,dataOff,extId,sack =>
      if dataOff < packet.length ∧ extId ≠ 0 then
        match packet[dataOff]?,packet[dataOff + 1]? with
        | some next,some length =>
            if extId = selectiveAckId then
              if inside : dataOff + 2 + length.toNat > packet.length then .rejected
              else
                parseLoop packet hdr fuel (dataOff + 2 + length.toNat) next
                  (some ⟨next,length,(packet.drop (dataOff + 2)).take length.toNat,by simp; omega⟩)
            else parseLoop packet hdr fuel (dataOff + 2 + length.toNat) next sack
        | _,_ => .undefined
      else .accepted ⟨hdr,sack,dataOff⟩

def parse (packet : List UInt8) : Parse :=
  if packet.length < Header.size then .rejected
  else parseLoop packet (Header.read packet) packet.length Header.size (Header.read packet).extension none

theorem parseLoop_last (packet : List UInt8) (hdr : Header) (dataOff : Nat) (sack : Option SelectiveAck)
    (fueled : 0 < fuel) : parseLoop packet hdr fuel dataOff 0 sack = .accepted ⟨hdr,sack,dataOff⟩ := by
  obtain ⟨fuel,rfl⟩ := Nat.exists_eq_succ_of_ne_zero (Nat.ne_of_gt fueled)
  simp [parseLoop]

-- A packet without an extension, and one with a selective ack as its only one.
theorem parse_plain (hdr : Header) (payload : List UInt8) (plain : hdr.extension = 0) :
    parse (hdr.write ++ payload) = .accepted ⟨hdr,none,20⟩ := by
  rw [parse,Header.read_write,plain,parseLoop_last _ _ _ _ (by simp)]
  simp [Header.size]

theorem parseLoop_selectiveAck (packet : List UInt8) (hdr : Header) (dataOff : Nat) (sack : SelectiveAck)
    (suffix : packet.drop dataOff = sack.extension :: sack.length :: (sack.bitmask ++ rest)) :
    parseLoop packet hdr (fuel + 1) dataOff selectiveAckId found =
      parseLoop packet hdr fuel (dataOff + 2 + sack.length.toNat) sack.extension (some sack) := by
  have first : packet[dataOff]? = some sack.extension := by
    rw [← Nat.add_zero dataOff,← List.getElem?_drop,suffix]
    rfl
  have second : packet[dataOff + 1]? = some sack.length := by
    rw [← List.getElem?_drop,suffix]
    rfl
  have mask : (packet.drop (dataOff + 2)).take sack.length.toNat = sack.bitmask := by
    rw [← List.drop_drop,suffix,← sack.sized]
    simp
  have long : packet.length - dataOff = sack.length.toNat + rest.length + 2 := by
    simpa [sack.sized] using congrArg List.length suffix
  rw [parseLoop,if_pos ⟨by omega,by decide⟩]
  simp only [first,second,mask]
  rw [if_pos trivial,dif_neg (by omega)]

theorem parse_selectiveAck (hdr : Header) (sack : SelectiveAck) (payload : List UInt8)
    (only : hdr.extension = selectiveAckId) (single : sack.extension = 0) :
    parse (hdr.write ++ (sack.extension :: sack.length :: (sack.bitmask ++ payload))) =
      .accepted ⟨hdr,some sack,22 + sack.length.toNat⟩ := by
  have suffix : (hdr.write ++ (sack.extension :: sack.length :: (sack.bitmask ++ payload))).drop Header.size =
      sack.extension :: sack.length :: (sack.bitmask ++ payload) := List.drop_left' rfl
  obtain ⟨fuel,enough⟩ : ∃ fuel,
      (hdr.write ++ (sack.extension :: sack.length :: (sack.bitmask ++ payload))).length = fuel + 2 :=
    ⟨_,rfl⟩
  rw [parse,Header.read_write,only,if_neg (by simp [Header.size]),enough,
    parseLoop_selectiveAck _ _ _ sack suffix,single,parseLoop_last _ _ _ _ (Nat.succ_pos _)]
  rfl

end KtorrentStream.Utp
