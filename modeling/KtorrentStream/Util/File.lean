import Mathlib.Data.List.Basic
set_option autoImplicit true

namespace KtorrentStream.Util

-- What is left to read of an open file. fread gives fewer bytes at its end.
abbrev File := List UInt8

def File.read (f : File) (size : Nat) : List UInt8 × File := (f.take size,f.drop size)

def uint32Bytes (n : Nat) : List UInt8 :=
  [UInt8.ofNat n,UInt8.ofNat (n / 256),UInt8.ofNat (n / 65536),UInt8.ofNat (n / 16777216)]

def uint32Of : List UInt8 → Option Nat
  | [a,b,c,d] => some (a.toNat + 256 * b.toNat + 65536 * c.toNat + 16777216 * d.toNat)
  | _ => none

@[simp] theorem uint32Bytes_length (n : Nat) : (uint32Bytes n).length = 4 := rfl

theorem uint32Of_bytes (bound : n < 4294967296) : uint32Of (uint32Bytes n) = some n := by
  simp only [uint32Of,uint32Bytes,UInt8.toNat_ofNat',Option.some.injEq]
  omega

def File.readUint32 (f : File) : Option (Nat × File) :=
  let (bytes,rest) := f.read 4
  (uint32Of bytes).map fun n => (n,rest)

theorem File.readUint32_bytes (bound : n < 4294967296) (rest : List UInt8) :
    File.readUint32 (uint32Bytes n ++ rest) = some (n,rest) := by
  have front : (uint32Bytes n ++ rest).take 4 = uint32Bytes n := List.take_left' rfl
  have back : (uint32Bytes n ++ rest).drop 4 = rest := List.drop_left' rfl
  simp only [File.readUint32,File.read,front,back,uint32Of_bytes bound,Option.map_some]

theorem File.read_append (bytes rest : List UInt8) : File.read (bytes ++ rest) bytes.length = (bytes,rest) := by
  rw [File.read,List.take_left,List.drop_left]

end KtorrentStream.Util
