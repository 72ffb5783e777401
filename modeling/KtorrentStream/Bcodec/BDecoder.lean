import Mathlib.Data.Nat.Digits.Defs
import Mathlib.Data.Nat.Digits.Lemmas
import KtorrentStream.Bcodec.BNode
set_option autoImplicit true

namespace KtorrentStream.Bcodec

-- A QByteArray has an int size, so its length is below 2^31.
structure QByteArray where
  bytes : List UInt8
  size_lt : bytes.length < 2^31

def QByteArray.size (data : QByteArray) : Nat := data.bytes.length

def decimal (n : Nat) : List UInt8 :=
  if n = 0 then [48] else (Nat.digits 10 n).reverse.map fun d => UInt8.ofNat (48+d)

-- QString::toInt and QString::toLongLong are Qt code. Only their documented
-- behaviour on plain decimal text and their ranges is assumed.
structure QtNumber where
  toInt : List UInt8 → Option Int
  toLongLong : List UInt8 → Option Int
  toInt_range : ∀ n v, toInt n = some v → -2^31 ≤ v ∧ v < 2^31
  toInt_decimal : ∀ n : Nat, n < 2^31 → toInt (decimal n) = some (n : Int)
  toInt_overflow : ∀ n : Nat, 2^31 ≤ n → toInt (decimal n) = none
  toLongLong_decimal : ∀ n : Nat, n < 2^63 → toLongLong (decimal n) = some (n : Int)

instance decimalDigits (n : List UInt8) : Decidable (∀ d ∈ n, 48 ≤ d ∧ d ≤ 57) := List.decidableBAll _ n

-- One such pair of conversions: plain decimal digits, bounded by the type.
def digitsValue (n : List UInt8) : Option Nat :=
  if n ≠ [] ∧ ∀ d ∈ n, 48 ≤ d ∧ d ≤ 57 then
    some (Nat.ofDigits 10 (n.reverse.map fun d => d.toNat-48))
  else none

theorem decimal_digits (n : Nat) : decimal n ≠ [] ∧ ∀ d ∈ decimal n, 48 ≤ d ∧ d ≤ 57 := by
  unfold decimal
  split
  · simp
  · rename_i positive
    refine ⟨by simpa using Nat.digits_ne_nil_iff_ne_zero.mpr positive,?_⟩
    intro d member
    obtain ⟨x,digit,rfl⟩ := List.mem_map.mp member
    have small : x < 10 := Nat.digits_lt_base (by decide) (List.mem_reverse.mp digit)
    have value : (UInt8.ofNat (48+x)).toNat = 48+x := by
      rw [UInt8.toNat_ofNat']
      omega
    rw [UInt8.le_iff_toNat_le,UInt8.le_iff_toNat_le,value]
    exact ⟨by simp,by simp; omega⟩

theorem digitsValue_decimal (n : Nat) : digitsValue (decimal n) = some n := by
  rw [digitsValue,if_pos (decimal_digits n)]
  unfold decimal
  split
  · subst_vars; rfl
  · have back : ((Nat.digits 10 n).map fun d => (UInt8.ofNat (48+d)).toNat-48) = Nat.digits 10 n := by
      conv_rhs => rw [← List.map_id (Nat.digits 10 n)]
      refine List.map_congr_left fun d member => ?_
      have small : d < 10 := Nat.digits_lt_base (by decide) member
      rw [UInt8.toNat_ofNat',Nat.mod_eq_of_lt (by omega)]
      simp
    rw [← List.map_reverse,List.reverse_reverse,List.map_map]
    rw [show ((fun d : UInt8 => d.toNat-48) ∘ fun d => UInt8.ofNat (48+d)) =
      fun d => (UInt8.ofNat (48+d)).toNat-48 from rfl,back,Nat.ofDigits_digits]

def boundedBy (bound : Nat) (n : List UInt8) : Option Int :=
  (digitsValue n).bind fun v => if v < bound then some (v : Int) else none

def QtNumber.plain : QtNumber where
  toInt := boundedBy (2^31)
  toLongLong := boundedBy (2^63)
  toInt_range n v number := by
    obtain ⟨x,_,bounded⟩ := Option.bind_eq_some_iff.mp number
    split at bounded
    · cases bounded; omega
    · cases bounded
  toInt_decimal n small := by simp [boundedBy,digitsValue_decimal]; omega
  toInt_overflow n big := by simp [boundedBy,digitsValue_decimal]; omega
  toLongLong_decimal n small := by simp [boundedBy,digitsValue_decimal]; omega

inductive Error where
  | illegalToken (c : UInt8)          -- "Illegal token: %1"
  | decodeError                       -- "Decode error"
  | unexpectedEnd                     -- "Unexpected end of input"
  | cannotConvert (n : List UInt8)    -- "Cannot convert %1 to an int"
  | incomplete                        -- "Torrent is incomplete."
  deriving DecidableEq, Repr

-- `fuel` is the model's own outcome. It is proved never to happen with the
-- fuel that `decode` supplies.
inductive Failure where
  | thrown (err : Error)
  | fuel
  deriving DecidableEq, Repr

-- Every parse function returns its result together with the cursor `pos`
-- behind it, or throws.
def raise (err : Error) : Except Failure α := .error (.thrown err)

section
variable (qt : QtNumber) (data : QByteArray)

-- The scanning loops of parseInt and parseString: everything up to `stop`.
def textUntil (stop : UInt8) (pos : Nat) : List UInt8 :=
  (data.bytes.drop pos).takeWhile (fun c => decide (c ≠ stop))

def parseInt (off : Nat) : Except Failure (BNode × Nat) :=
  let n := textUntil data 101 (off+1)
  let pos := off+1+n.length
  if pos ≥ data.size then raise .unexpectedEnd
  else match qt.toInt n with
    | some val => .ok (.value (.int val) off (pos+1-off),pos+1)
    | none => match qt.toLongLong n with
      | some bi => .ok (.value (.int64 bi) off (pos+1-off),pos+1)
      | none => raise (.cannotConvert n)

def parseString (off : Nat) : Except Failure (BNode × Nat) :=
  let n := textUntil data 58 off
  let pos := off+n.length
  if pos ≥ data.size then raise .unexpectedEnd
  else match qt.toInt n with
    | none => raise (.cannotConvert n)
    | some len =>
      if len < 0 then raise (.cannotConvert n)
      -- pos + len is a Uint32 sum in the source
      else if (pos+1+len.toNat) % 2^32 > data.size then raise .incomplete
      else
        let arr := (data.bytes.drop (pos+1)).take len.toNat
        .ok (.value (.string arr) off (pos+1+len.toNat-off),pos+1+len.toNat)

-- The frames of parseList and parseDict around their loops. Both advance the
-- cursor once more after the loop, whatever made the loop stop.
def parseList (loop : Nat → Except Failure (List BNode × Nat)) (off : Nat) : Except Failure (BNode × Nat) := do
  let (children,pos) ← loop (off+1)
  return (.list children off (pos+1-off),pos+1)

def parseDict (loop : Nat → Except Failure (List (List UInt8 × BNode) × Nat)) (off : Nat) : Except Failure (BNode × Nat) := do
  let (children,pos) ← loop (off+1)
  return (.dict children off (pos+1-off),pos+1)

def keyOf : Option BNode → Except Failure (List UInt8)
  | some (.value (.string key) _ _) => .ok key
  | _ => raise .decodeError

mutual
-- `none` is the null pointer decode returns at the end of the data.
def decodeFuel : Nat → Nat → Except Failure (Option BNode × Nat)
  | 0,_ => .error .fuel
  | fuel+1,pos => match data.bytes[pos]? with
    | none => .ok (none,pos)
    | some c =>
      if c = 100 then (parseDict (dictLoop fuel) pos).map fun r => (some r.1,r.2)
      else if c = 108 then (parseList (listLoop fuel) pos).map fun r => (some r.1,r.2)
      else if c = 105 then (parseInt qt data pos).map fun r => (some r.1,r.2)
      else if 48 ≤ c ∧ c ≤ 57 then (parseString qt data pos).map fun r => (some r.1,r.2)
      else raise (.illegalToken c)
def listLoop : Nat → Nat → Except Failure (List BNode × Nat)
  | 0,_ => .error .fuel
  | fuel+1,pos =>
    if pos < data.size ∧ data.bytes[pos]? ≠ some 101 then do
      let (n,pos) ← decodeFuel fuel pos
      let (rest,pos) ← listLoop fuel pos
      return (n.toList ++ rest,pos)
    else .ok ([],pos)
def dictLoop : Nat → Nat → Except Failure (List (List UInt8 × BNode) × Nat)
  | 0,_ => .error .fuel
  | fuel+1,pos =>
    if pos < data.size ∧ data.bytes[pos]? ≠ some 101 then do
      let (kn,pos) ← decodeFuel fuel pos
      let key ← keyOf kn
      match ← decodeFuel fuel pos with
      | (none,_) => raise .decodeError
      | (some value,pos) => do
        let (rest,pos) ← dictLoop fuel pos
        return ((key,value) :: rest,pos)
    else .ok ([],pos)
end

-- Each call of decode and each turn of a loop reads at least one byte.
def decode (off : Nat) : Except Failure (Option BNode × Nat) :=
  decodeFuel qt data (2*data.size+1) off

end

end KtorrentStream.Bcodec
