import KtorrentStream.Util.BitSet
import KtorrentStream.Util.Bytes
import KtorrentStream.Util.Word
import KtorrentStream.Download.PieceDownloader
set_option autoImplicit true

namespace KtorrentStream.Download
open KtorrentStream.Util

structure Packet where
  type : UInt8
  data : List UInt8
  size : Nat

-- AllocPacket, and the bytes its callers write behind the type. The array has size
-- bytes, a Uint32: when size has wrapped, the writes leave the array.
def allocPacket (size : Nat) (type : UInt8) (body : List UInt8) : Option Packet :=
  if uint32 size = 5 + body.length then
    some ⟨type,writeUint32 (uint32Sub (uint32 size) 4) ++ type :: body,uint32 size⟩
  else none

namespace Packet

def ofType (type : UInt8) : Option Packet := allocPacket 5 type []

def ofPort (port : Nat) : Option Packet := allocPacket 7 9 (writeUint16 port)

def ofChunk (chunk : Nat) (type : UInt8) : Option Packet := allocPacket 9 type (writeUint32 chunk)

def ofBitSet (bs : BitSet) : Option Packet := allocPacket (5 + bs.data.length) 5 bs.data

def ofRequest (r : Request) (type : UInt8) : Option Packet :=
  allocPacket 17 type (writeUint32 r.index ++ writeUint32 r.off ++ writeUint32 r.len)

-- memory is what stands behind the header once readPiece has returned: the piece,
-- or what the new array held when readPiece failed.
def ofPiece (index begin_ len : Nat) (memory : List UInt8) : Option Packet :=
  allocPacket (13 + len) 7 (writeUint32 index ++ writeUint32 begin_ ++ memory)

def ofExtension (extId : UInt8) (extData : List UInt8) : Option Packet :=
  allocPacket (6 + extData.length) 20 (extId :: extData)

end Packet

inductive Constructed : Packet → Prop
  | ofType : Packet.ofType type = some p → Constructed p
  | ofPort : Packet.ofPort port = some p → Constructed p
  | ofChunk : Packet.ofChunk chunk type = some p → Constructed p
  | ofBitSet : Packet.ofBitSet bs = some p → Constructed p
  | ofRequest : Packet.ofRequest r type = some p → Constructed p
  | ofPiece : Packet.ofPiece index begin_ len memory = some p → Constructed p
  | ofExtension : Packet.ofExtension extId extData = some p → Constructed p

theorem allocPacket_some (made : allocPacket size type body = some p) :
    p.data = writeUint32 (p.size - 4) ++ type :: body ∧ p.size = 5 + body.length ∧ p.size < 4294967296 := by
  unfold allocPacket at made
  split at made
  · rename_i room
    cases made
    have small : uint32 size < 4294967296 := Nat.mod_lt _ (by decide)
    refine ⟨?_,room,small⟩
    rw [uint32Sub_of_le (by omega) small]
  · cases made

theorem Constructed.alloc (made : Constructed p) : ∃ size type body, allocPacket size type body = some p := by
  cases made with
  | ofType made => exact ⟨_,_,_,made⟩
  | ofPort made => exact ⟨_,_,_,made⟩
  | ofChunk made => exact ⟨_,_,_,made⟩
  | ofBitSet made => exact ⟨_,_,_,made⟩
  | ofRequest made => exact ⟨_,_,_,made⟩
  | ofPiece made => exact ⟨_,_,_,made⟩
  | ofExtension made => exact ⟨_,_,_,made⟩

-- A packet is the length of what follows, in four bytes, and then the message.
theorem Constructed.framed (made : Constructed p) :
    p.data = writeUint32 (p.data.drop 4).length ++ p.data.drop 4 ∧ (p.data.drop 4).length + 4 = p.size ∧
      p.data.drop 4 ≠ [] ∧ p.size < 4294967296 := by
  obtain ⟨size,type,body,alloc⟩ := made.alloc
  obtain ⟨data,length,small⟩ := allocPacket_some alloc
  have message : p.data.drop 4 = type :: body := by
    rw [data]
    exact List.drop_left' rfl
  rw [message,List.length_cons]
  refine ⟨?_,by omega,List.cons_ne_nil _ _,small⟩
  rw [data,length]
  congr 2
  omega

end KtorrentStream.Download
