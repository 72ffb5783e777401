import KtorrentStream.Download.Packet
set_option autoImplicit true

namespace KtorrentStream.Peer
open KtorrentStream.Util KtorrentStream.Download

-- What Cache::loadPiece comes to: an exception, no piece or one that is not ok, or a piece.
inductive Load
  | error
  | failed
  | piece (bytes : List UInt8)
  deriving DecidableEq

-- bytes is what the chunk holds on disk. The cache may fail, but what it loads of the
-- chunk is that part of it.
structure Chunk where
  bytes : List UInt8
  onDisk : Bool
  loadPiece : Nat → Nat → Load
  sized : bytes.length < 4294967296
  loads : ∀ off len d, off + len ≤ bytes.length → loadPiece off len = .piece d → d = (bytes.drop off).take len

structure PieceRequest where
  index : UInt32
  off : UInt32
  len : UInt32

def PieceRequest.request (r : PieceRequest) : Request := ⟨r.index.toNat,r.off.toNat,r.len.toNat,none⟩

-- overrun: the constructor of the packet writes outside its array.
inductive Answer
  | queued (packets : List Packet)
  | threw
  | overrun

structure Uploader where
  hasUploadSlot : Bool
  paused : Bool
  fastExtensions : Bool
  killed : Bool
  requests : List PieceRequest
  queue : List Packet

def areWeChoked (u : Uploader) : Bool := !u.hasUploadSlot || u.paused

namespace Uploader

def addPacket (u : Uploader) (packet : Option Packet) : Uploader := {u with queue := u.queue ++ packet.toList}

def handleRequest (u : Uploader) (packet : List UInt8) : Uploader :=
  if packet.length ≠ 13 then {u with killed := true}
  else
    let r : PieceRequest := ⟨.ofNat (readUint32 packet 1),.ofNat (readUint32 packet 5),.ofNat (readUint32 packet 9)⟩
    if u.hasUploadSlot then {u with requests := u.requests ++ [r]}
    else if u.fastExtensions then u.addPacket (Packet.ofRequest r.request 16)
    else u

-- The new array of a packet holds whatever was there before. Where its size wraps the
-- header is written past its end, before readPiece.
def ofPiece (uninit : Nat → UInt8) (c : Chunk) (index begin_ len : UInt32) : Answer :=
  let memory := (List.range len.toNat).map uninit
  let packet (data : List UInt8) := match Packet.ofPiece index.toNat begin_.toNat len.toNat data with
    | some packet => Answer.queued [packet]
    | none => .overrun
  if uint32 (13 + len.toNat) < 13 then .overrun
  else match c.loadPiece begin_.toNat len.toNat with
    | .error => .threw
    | .failed => packet memory
    | .piece bytes => packet ((bytes ++ memory.drop bytes.length).take len.toNat)

def sendChunk (uninit : Nat → UInt8) (r : PieceRequest) (c : Chunk) : Option Answer :=
  if r.off.toNat ≥ c.bytes.length ∨ (r.off + r.len).toNat > c.bytes.length then none
  else some (ofPiece uninit c r.index r.off r.len)

def reject (u : Uploader) (r : PieceRequest) : Answer :=
  .queued (if u.fastExtensions then (Packet.ofRequest r.request 16).toList else [])

def answer (u : Uploader) (chunks : Nat → Option Chunk) (uninit : Nat → UInt8) (r : PieceRequest) : Answer :=
  match chunks r.index.toNat with
  | none => u.reject r
  | some c => if c.onDisk then (sendChunk uninit r c).getD (u.reject r) else u.reject r

-- The requests are taken one by one; one that throws stays in front.
def handleAll (chunks : Nat → Option Chunk) (uninit : Nat → UInt8) (u : Uploader) : List PieceRequest → Option Uploader
  | [] => some {u with requests := []}
  | r :: rest => match u.answer chunks uninit r with
    | .overrun => none
    | .threw => some {u with requests := r :: rest}
    | .queued packets => handleAll chunks uninit {u with queue := u.queue ++ packets} rest

def handleRequests (chunks : Nat → Option Chunk) (uninit : Nat → UInt8) (u : Uploader) : Option Uploader :=
  if areWeChoked u then some u else u.handleAll chunks uninit u.requests

end Uploader

-- What a PIECE packet in answer to a request has to be.
structure Exact (chunks : Nat → Option Chunk) (r : PieceRequest) (p : Packet) : Prop where
  inside : ∃ c, chunks r.index.toNat = some c ∧ r.off.toNat + r.len.toNat ≤ c.bytes.length ∧
    p.data = writeUint32 (9 + r.len.toNat) ++ 7 :: (writeUint32 r.index.toNat ++ writeUint32 r.off.toNat ++
      (c.bytes.drop r.off.toNat).take r.len.toNat)
  noWrap : 13 + r.len.toNat < 4294967296
  size : p.size = 13 + r.len.toNat

def RightAnswer (chunks : Nat → Option Chunk) (r : PieceRequest) : Answer → Prop
  | .queued packets => ∀ p ∈ packets, p.type = 7 → Exact chunks r p
  | .threw => True
  | .overrun => False

-- The check of sendChunk, in 32 bits, lets the request pass.
def Passes (c : Chunk) (r : PieceRequest) : Prop :=
  r.off.toNat < c.bytes.length ∧ (r.off.toNat + r.len.toNat ≤ c.bytes.length ∨ 4294967296 ≤ r.off.toNat + r.len.toNat)

instance : Decidable (Passes c r) :=
  inferInstanceAs (Decidable (r.off.toNat < c.bytes.length ∧
    (r.off.toNat + r.len.toNat ≤ c.bytes.length ∨ 4294967296 ≤ r.off.toNat + r.len.toNat)))

-- The packet that answers it does not wrap, and if the cache does not throw the request
-- does not either and the cache has its bytes.
def Safe (chunks : Nat → Option Chunk) (r : PieceRequest) : Prop :=
  ∀ c, chunks r.index.toNat = some c → c.onDisk = true → Passes c r →
    13 + r.len.toNat < 4294967296 ∧ (c.loadPiece r.off.toNat r.len.toNat ≠ .error →
      r.off.toNat + r.len.toNat ≤ c.bytes.length ∧ (0 < r.len.toNat → c.loadPiece r.off.toNat r.len.toNat ≠ .failed))

end KtorrentStream.Peer
