import KtorrentStream.Util.BitSet
import KtorrentStream.Util.Word
import KtorrentStream.Bcodec.Fields
set_option autoImplicit true

namespace KtorrentStream.Magnet
open KtorrentStream.Util KtorrentStream.Bcodec KtorrentStream.Torrent

def metadataPieceSize : Nat := 16384

def numPieces (size : Nat) : Nat := size / metadataPieceSize + (if size % metadataPieceSize > 0 then 1 else 0)

-- memcpy(metadata.data() + off,data,data.size())
def copyAt (metadata : List UInt8) (off : Nat) (data : List UInt8) : List UInt8 :=
  metadata.take off ++ data ++ metadata.drop (off + data.length)

structure MetadataDownload where
  pieces : BitSet
  metadata : List UInt8
  totalSize : Nat

def requestPacket (piece : UInt32) : List UInt8 :=
  encode [.beginDict,.writeByteArray (ascii "msg_type"),.writeUint32 0,.writeByteArray (ascii "piece"),.writeUint32 piece,
    .finish]

namespace MetadataDownload

-- metadata.resize(size) leaves the bytes as they happen to be; a size that is negative as
-- an int leaves none. The constructor also asks for piece 0.
def new (memory : Nat → UInt8) (size : Nat) : MetadataDownload :=
  ⟨BitSet.new (numPieces size),(List.range (if size < 2147483648 then size else 0)).map memory,size⟩

def downloadNext (d : MetadataDownload) : List (List UInt8) :=
  ((List.range d.pieces.numBits).filter fun i => !d.pieces.get i).map fun i => requestPacket (UInt32.ofNat i)

def sizeOf (d : MetadataDownload) (piece : Nat) : Nat :=
  if piece = d.pieces.numBits - 1 ∧ d.totalSize % metadataPieceSize > 0 then d.totalSize % metadataPieceSize
  else metadataPieceSize

def data (d : MetadataDownload) (piece : Nat) (pieceData : List UInt8) : Bool × MetadataDownload × List (List UInt8) :=
  if piece ≥ d.pieces.numBits then (false,d,d.downloadNext)
  else if d.sizeOf piece ≠ pieceData.length then (false,d,d.downloadNext)
  else
    let after := {d with
      metadata := copyAt d.metadata (uint32 (piece * metadataPieceSize)) pieceData,
      pieces := d.pieces.set piece true}
    if after.pieces.allOn then (true,after,[]) else (false,after,after.downloadNext)

end MetadataDownload

end KtorrentStream.Magnet
