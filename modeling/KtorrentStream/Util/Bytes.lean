import Mathlib.Data.List.GetD
set_option autoImplicit true

namespace KtorrentStream.Util

-- WriteUint32 and WriteUint16: the high byte first.
def writeUint32 (val : Nat) : List UInt8 :=
  [UInt8.ofNat (val / 16777216),UInt8.ofNat (val / 65536),UInt8.ofNat (val / 256),UInt8.ofNat val]

def writeUint16 (val : Nat) : List UInt8 := [UInt8.ofNat (val / 256),UInt8.ofNat val]

def readUint32 (buf : List UInt8) (off : Nat) : Nat :=
  (buf.getD off 0).toNat * 16777216 + (buf.getD (off + 1) 0).toNat * 65536 +
    (buf.getD (off + 2) 0).toNat * 256 + (buf.getD (off + 3) 0).toNat

def readUint16 (buf : List UInt8) (off : Nat) : Nat :=
  (buf.getD off 0).toNat * 256 + (buf.getD (off + 1) 0).toNat

@[simp] theorem writeUint32_length (val : Nat) : (writeUint32 val).length = 4 := rfl

@[simp] theorem writeUint16_length (val : Nat) : (writeUint16 val).length = 2 := rfl

theorem readUint32_write (bound : val < 4294967296) (rest : List UInt8) : readUint32 (writeUint32 val ++ rest) 0 = val := by
  simp only [readUint32,writeUint32,List.cons_append,List.nil_append,List.getD_cons_zero,List.getD_cons_succ,UInt8.toNat_ofNat']
  omega

theorem readUint16_write (bound : val < 65536) (rest : List UInt8) : readUint16 (writeUint16 val ++ rest) 0 = val := by
  simp only [readUint16,writeUint16,List.cons_append,List.nil_append,List.getD_cons_zero,List.getD_cons_succ,UInt8.toNat_ofNat']
  omega

theorem readUint32_take (buf : List UInt8) (enough : 4 ≤ n) : readUint32 (buf.take n) 0 = readUint32 buf 0 := by
  simp only [readUint32,List.getD_eq_getElem?_getD,List.getElem?_take_of_lt (show 0 < n by omega),
    List.getElem?_take_of_lt (show 0 + 1 < n by omega),List.getElem?_take_of_lt (show 0 + 2 < n by omega),
    List.getElem?_take_of_lt (show 0 + 3 < n by omega)]

theorem readUint32_append (front rest : List UInt8) (off : Nat) :
    readUint32 (front ++ rest) (front.length + off) = readUint32 rest off := by
  simp only [readUint32,List.getD_append_right _ _ _ _ (Nat.le_add_right _ _),Nat.add_assoc,Nat.add_sub_cancel_left]

theorem readUint16_append (front rest : List UInt8) (off : Nat) :
    readUint16 (front ++ rest) (front.length + off) = readUint16 rest off := by
  simp only [readUint16,List.getD_append_right _ _ _ _ (Nat.le_add_right _ _),Nat.add_assoc,Nat.add_sub_cancel_left]

end KtorrentStream.Util
