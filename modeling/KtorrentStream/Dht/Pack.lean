import KtorrentStream.Dht.KBucket
import KtorrentStream.Dht.AnnounceTask
set_option autoImplicit true

namespace KtorrentStream.Dht
open KtorrentStream.Util KtorrentStream.Net

-- (int) off + size, a sum of two ints that wraps around.
def intSum (off size : Nat) : Int := ((off + size + 2147483648) % 4294967296 : Nat) - (2147483648 : Int)

-- The id, the IP address and the port.
def entryBytes (addr : Address) (id : Key) : List UInt8 := id.hash ++ pack addr

-- outside: the writes or reads leave the array.
inductive Packing (α : Type)
  | threw
  | done (result : α)
  | outside
  deriving DecidableEq

def Packing.toOption {α : Type} : Packing α → Option α
  | .done result => some result
  | _ => none

def packBucketEntry (e : KBucketEntry) (ba : List UInt8) (off : UInt32) : Packing (List UInt8) :=
  let bytes := entryBytes e.addr e.nodeId
  let size := if e.addr.ipVersion = 4 then 26 else 38
  if intSum off.toNat size > ba.length then .threw
  else if off.toNat + size ≤ ba.length then .done (ba.take off.toNat ++ bytes ++ ba.drop (off.toNat + size))
  else .outside

def unpackEntry (ba : List UInt8) (off : UInt32) (ipVersion : Nat) : Packing TaskNode :=
  let size := if ipVersion = 4 then 26 else 38
  if intSum off.toNat size > ba.length then .threw
  else match unpackBucketEntry ba off.toNat ipVersion with
    | some node => .done node
    | none => .outside

theorem entryBytes_length (addr : Address) (id : Key) : (entryBytes addr id).length = if addr.ipVersion = 4 then 26 else 38 := by
  unfold entryBytes
  cases addr with
  | v4 ip port => simp [id.sized,pack,Address.ipVersion]
  | v6 ip port => simp [id.sized,pack,Address.ipVersion,ip.property]

theorem packBucketEntry_new (e : KBucketEntry) (size : Nat) (enough : size = (entryBytes e.addr e.nodeId).length) :
    packBucketEntry e (List.replicate size 0) 0 = .done (entryBytes e.addr e.nodeId) := by
  rw [entryBytes_length] at enough
  unfold packBucketEntry
  dsimp only
  rw [← enough,List.length_replicate]
  have small : size ≤ 38 := by
    rw [enough]
    split <;> decide
  have sum : intSum (0 : UInt32).toNat size = size := by
    unfold intSum
    rw [show (0 : UInt32).toNat = 0 from rfl]
    omega
  rw [sum,if_neg (Int.lt_irrefl _),show (0 : UInt32).toNat = 0 from rfl,Nat.zero_add,if_pos (Nat.le_refl _),List.take_zero,
    List.nil_append,List.drop_eq_nil_of_le (by rw [List.length_replicate]),List.append_nil]

end KtorrentStream.Dht
