import KtorrentStream.Magnet.MetadataDownload
set_option autoImplicit true

namespace KtorrentStream.Peer
open KtorrentStream.Util KtorrentStream.Bcodec KtorrentStream.Torrent KtorrentStream.Magnet

def dataPacket (piece totalSize : UInt32) (data : List UInt8) : List UInt8 :=
  encode [.beginDict,.writeByteArray (ascii "msg_type"),.writeUint32 1,.writeByteArray (ascii "piece"),.writeUint32 piece,
    .writeByteArray (ascii "total_size"),.writeUint32 totalSize,.finish] ++ data

def rejectPacket (piece : UInt32) : List UInt8 :=
  encode [.beginDict,.writeByteArray (ascii "msg_type"),.writeUint32 2,.writeByteArray (ascii "piece"),.writeUint32 piece,
    .finish]

def cutPiece (md : List UInt8) (piece : Nat) : List UInt8 :=
  let lastLen := if md.length % metadataPieceSize = 0 then metadataPieceSize else md.length % metadataPieceSize
  let len := if piece = numPieces md.length - 1 then lastLen else metadataPieceSize
  (md.drop (piece * metadataPieceSize)).take len

-- metaData is that of the torrent, once it is loaded. sent are the packets that went to
-- the peer and downloaded what has been emitted with metadataDownloaded.
structure UTMetaData where
  metaData : Option (List UInt8)
  download : Option MetadataDownload
  sent : List (List UInt8)
  downloaded : List (List UInt8)

namespace UTMetaData

def send (u : UTMetaData) (packets : List (List UInt8)) : UTMetaData := {u with sent := u.sent ++ packets}

def castUint32 (v : Int) : Nat := (v % 4294967296).toNat

def sendReject (u : UTMetaData) (piece : Int) : UTMetaData := u.send [rejectPacket (UInt32.ofNat (castUint32 piece))]

def sendData (u : UTMetaData) (piece totalSize : Nat) (data : List UInt8) : UTMetaData :=
  u.send [dataPacket (UInt32.ofNat piece) (UInt32.ofNat totalSize) data]

def received (u : UTMetaData) (outcome : Bool × MetadataDownload × List (List UInt8)) : UTMetaData :=
  {u.send outcome.2.2 with
    download := some outcome.2.1,
    downloaded := if outcome.1 then u.downloaded ++ [outcome.2.1.metadata] else u.downloaded}

-- Without the field the exception ends handlePacket.
def data (u : UTMetaData) (dict : Entries) (pieceData : List UInt8) : UTMetaData :=
  match u.download with
  | none => u
  | some d =>
    match getInt (BDictNode.getValue dict "piece") with
    | .error _ => u
    | .ok piece => u.received (d.data (castUint32 piece) pieceData)

def reject (u : UTMetaData) (dict : Entries) : UTMetaData :=
  match u.download with
  | none => u
  | some d =>
    match getInt (BDictNode.getValue dict "piece") with
    | .error _ => u
    | .ok _ => u.send d.downloadNext

def request (u : UTMetaData) (dict : Entries) : UTMetaData :=
  match getInt (BDictNode.getValue dict "piece") with
  | .error _ => u
  | .ok piece =>
    match u.metaData with
    | none => u.sendReject piece
    | some md =>
      if piece < 0 ∨ piece ≥ numPieces md.length then u.sendReject piece
      else u.sendData piece.toNat md.length (cutPiece md piece.toNat)

-- The packet begins behind the message id and the extended id, where the source decodes at
-- offset 2. None: it is a list, which is then used as if it were a dictionary.
def handlePacket (qt : QtNumber) (u : UTMetaData) (packet : QByteArray) : Option UTMetaData :=
  match decode qt packet 0 with
  | .ok (some (.dict dict _ _),pos) =>
    match getInt (BDictNode.getValue dict "msg_type") with
    | .error _ => some u
    | .ok type =>
      if type = 0 then some (u.request dict)
      else if type = 1 then some (u.data dict (packet.bytes.drop pos))
      else if type = 2 then some (u.reject dict)
      else some u
  | .ok (some (.list _ _ _),_) => none
  | _ => some u

end UTMetaData

end KtorrentStream.Peer
