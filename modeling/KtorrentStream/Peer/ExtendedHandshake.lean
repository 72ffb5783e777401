import KtorrentStream.Peer.MetadataExchange
import KtorrentStream.Peer.UTPex
set_option autoImplicit true

namespace KtorrentStream.Peer
open KtorrentStream.Util KtorrentStream.Bcodec KtorrentStream.Torrent KtorrentStream.Magnet

-- Value::toInt. A value of 64 bits leaves ival as it happens to be.
def toInt (ival : Int) : Value → Int
  | .string _ => 0
  | .int v => v
  | .int64 _ => ival

inductive PeerProtocolExtension where
  | utPex (id : Nat) (pex : UTPex)
  | utMetaData (id reportedMetadataSize : Nat) (md : UTMetaData)

def PeerProtocolExtension.changeID (id : Nat) : PeerProtocolExtension → PeerProtocolExtension
  | .utPex _ pex => .utPex id pex
  | .utMetaData _ size md => .utMetaData id size md

-- UT_PEX_ID and UT_METADATA_ID
def utPexID : Nat := 1
def utMetadataID : Nat := 2

-- setReportedMetadataSize of a UTMetaData whose torrent has metaData.
def UTMetaData.setReportedMetadataSize (memory : Nat → UInt8) (u : UTMetaData) (metadataSize : Nat) : UTMetaData :=
  if metadataSize > 0 ∧ u.metaData = none ∧ u.download.isNone then
    {u.send [requestPacket 0] with download := some (.new memory metadataSize)}
  else u

-- What a Peer has of the extension protocol. id is its place in the peers of UTPex.
structure ExtendedPeer where
  id : Nat
  extensionProtocol : Bool
  pexAllowed : Bool
  utPexId : Nat
  extensions : PtrMap PeerProtocolExtension
  maxRequestQueue : Nat
  partialSeed : Bool

-- What handleExtendedHandshake finds: UTPex::isEnabled(), the metadata of the torrent if
-- it is loaded, and uninitialised memory.
structure Surroundings where
  utPexEnabled : Bool
  metaData : Option (List UInt8)
  memory : Nat → UInt8
  ival : Int

namespace ExtendedPeer

variable (qt : QtNumber) (w : Surroundings) (p : ExtendedPeer)

-- The message that is sent, if there is one.
def sendExtProtHandshake (port : UInt16) (metadataSize : UInt32) (partialSeed : Bool) (version : List UInt8) : Option (List UInt8) :=
  let supported : List Call := [.beginDict,.writeByteArray (ascii "m"),.beginDict,
    .writeByteArray (ascii "ut_pex"),.writeUint32 (if p.pexAllowed then 1 else 0),
    .writeByteArray (ascii "ut_metadata"),.writeUint32 2,.finish]
  let ports : List Call := if port > 0 then [.writeByteArray (ascii "p"),.writeUint32 port.toUInt32] else []
  let requests : List Call := [.writeByteArray (ascii "reqq"),.writeUint32 250]
  let sizes : List Call := if metadataSize ≠ 0 then [.writeByteArray (ascii "metadata_size"),.writeUint32 metadataSize] else []
  let others : List Call := [.writeByteArray (ascii "upload_only"),.writeByteArray (ascii (if partialSeed then "1" else "0")),
    .writeByteArray (ascii "v"),.writeByteArray version,.finish]
  if !p.extensionProtocol then none else some (encode (supported ++ ports ++ requests ++ sizes ++ others))

def handleUtPex (val : Option Value) : ExtendedPeer :=
  match val with
  | none => p
  | some v =>
    if !w.utPexEnabled then p
    else
      let id := UTMetaData.castUint32 (toInt w.ival v)
      let p := {p with utPexId := id}
      if id = 0 then {p with extensions := p.extensions.erase utPexID}
      else if p.extensions.contains utPexID then
        {p with extensions := p.extensions.modify utPexID (PeerProtocolExtension.changeID id)}
      else if p.pexAllowed then {p with extensions := p.extensions.insert utPexID (.utPex id (.new p.id))}
      else p

def reportedSize (dict : Entries) : Except LoadError Int :=
  match BDictNode.getValue dict "metadata_size" with
  | none => .ok 0
  | some v => getInt (some v)

-- An error ends the handshake.
def handleUtMetadata (dict : Entries) (val : Option Value) : Except LoadError ExtendedPeer :=
  match val with
  | none => .ok p
  | some v =>
    let id := UTMetaData.castUint32 (toInt w.ival v)
    if id = 0 then .ok {p with extensions := p.extensions.erase utMetadataID}
    else if p.extensions.contains utMetadataID then
      .ok {p with extensions := p.extensions.modify utMetadataID (PeerProtocolExtension.changeID id)}
    else do
      let size := UTMetaData.castUint32 (← reportedSize dict)
      let md := UTMetaData.setReportedMetadataSize w.memory ⟨w.metaData,none,[],[]⟩ size
      return {p with extensions := p.extensions.insert utMetadataID (.utMetaData id size md)}

def handleReqq (val : Option Value) : ExtendedPeer :=
  match val with
  | none => p
  | some v => {p with maxRequestQueue := UTMetaData.castUint32 (toInt w.ival v)}

def handleUploadOnly (val : Option Value) : ExtendedPeer :=
  match val with
  | none => p
  | some v => {p with partialSeed := toInt w.ival v == 1}

-- packet has what is behind the message id and the extended id, where the source decodes
-- at offset 2.
def handleExtendedHandshake (packet : QByteArray) : ExtendedPeer :=
  match decode qt packet 0 with
  | .ok (some (.dict dict _ _),_) =>
    match BDictNode.getDict dict "m" with
    | none => p
    | some mdict =>
      let p := p.handleUtPex w (BDictNode.getValue mdict "ut_pex")
      match p.handleUtMetadata w dict (BDictNode.getValue mdict "ut_metadata") with
      | .error _ => p
      | .ok p => (p.handleReqq w (BDictNode.getValue dict "reqq")).handleUploadOnly w (BDictNode.getValue dict "upload_only")
  | _ => p

end ExtendedPeer

def portEntry (port : UInt16) : List (List UInt8 × BTree) := if port > 0 then [(ascii "p",.int port.toNat)] else []

def sizeEntry (metadataSize : UInt32) : List (List UInt8 × BTree) :=
  if metadataSize ≠ 0 then [(ascii "metadata_size",.int metadataSize.toNat)] else []

def handshakeFields (pex : Bool) (port : UInt16) (metadataSize : UInt32) (partialSeed : Bool) (version : List UInt8) : List (List UInt8 × BTree) :=
  (ascii "m",.dict [(ascii "ut_pex",.int (if pex then 1 else 0)),(ascii "ut_metadata",.int 2)]) :: (portEntry port ++
    (ascii "reqq",.int 250) :: (sizeEntry metadataSize ++
      [(ascii "upload_only",.str (ascii (if partialSeed then "1" else "0"))),(ascii "v",.str version)]))

theorem callsEntries_append (before after : List (List UInt8 × BTree)) :
    callsEntries (before ++ after) = callsEntries before ++ callsEntries after := by
  induction before with
  | nil => rfl
  | cons entry rest ih =>
      rw [List.cons_append,callsEntries,callsEntries,ih]
      simp only [List.cons_append,List.append_assoc]

theorem naturalEntries_append (before : List (List UInt8 × BTree)) (first : NaturalEntries before) (second : NaturalEntries after) :
    NaturalEntries (before ++ after) := by
  induction before with
  | nil => exact second
  | cons entry rest ih => exact ⟨first.1,ih first.2⟩

theorem field_skip (before : List (List UInt8 × BTree)) (absent : field before key = none) : field (before ++ after) key = field after key := by
  unfold field at absent ⊢
  rw [List.find?_append,Option.map_eq_none_iff.mp absent,Option.none_or]

section Fields
variable {pex partialSeed : Bool} {port : UInt16} {metadataSize : UInt32} {version : List UInt8}

theorem sent_fields (p : ExtendedPeer) (extended : p.extensionProtocol = true) : p.sendExtProtHandshake port metadataSize partialSeed version =
    some ((BTree.dict (handshakeFields p.pexAllowed port metadataSize partialSeed version)).calls.flatMap Call.bytes) := by
  have pex : intText (if p.pexAllowed then 1 else 0 : UInt32).toNat = Call.bytes (.writeUint64 (.ofNat (if p.pexAllowed then 1 else 0 : Int).toNat)) := by
    cases p.pexAllowed <;> rfl
  have ports : List.flatMap Call.bytes (if port > 0 then [.writeByteArray (ascii "p"),.writeUint32 port.toUInt32] else []) =
      (callsEntries (portEntry port)).flatMap Call.bytes := by
    unfold portEntry
    split
    · simp [callsEntries,BTree.calls,Call.bytes]
    · rfl
  have sizes : List.flatMap Call.bytes (if metadataSize ≠ 0 then [.writeByteArray (ascii "metadata_size"),.writeUint32 metadataSize] else []) =
      (callsEntries (sizeEntry metadataSize)).flatMap Call.bytes := by
    unfold sizeEntry
    split
    · simp [callsEntries,BTree.calls,Call.bytes]
    · rfl
  simp only [ExtendedPeer.sendExtProtHandshake,extended,encode_eq,handshakeFields,BTree.calls,callsEntries,callsEntries_append,
    List.flatMap_append,List.flatMap_cons,List.flatMap_nil,List.cons_append,List.nil_append,List.append_assoc,ports,sizes]
  rw [Call.bytes.eq_4,pex]
  rfl

theorem handshakeFields_natural : (BTree.dict (handshakeFields pex port metadataSize partialSeed version)).Natural := by
  have ids : NaturalEntries [(ascii "ut_pex",.int (if pex then 1 else 0)),(ascii "ut_metadata",.int 2)] := by
    cases pex <;> exact ⟨⟨by decide,by decide⟩,⟨by decide,by decide⟩,trivial⟩
  have ports : NaturalEntries (portEntry port) := by
    have small := port.toNat_lt
    unfold portEntry
    split
    · exact ⟨⟨by omega,by omega⟩,trivial⟩
    · trivial
  have sizes : NaturalEntries (sizeEntry metadataSize) := by
    have small := metadataSize.toNat_lt
    unfold sizeEntry
    split
    · exact ⟨⟨by omega,by omega⟩,trivial⟩
    · trivial
  exact ⟨ids,naturalEntries_append _ ports ⟨⟨by decide,by decide⟩,naturalEntries_append _ sizes ⟨trivial,trivial,trivial⟩⟩⟩

theorem field_m : field (handshakeFields pex port metadataSize partialSeed version) "m" =
    some (.dict [(ascii "ut_pex",.int (if pex then 1 else 0)),(ascii "ut_metadata",.int 2)]) := rfl

theorem portEntry_skip (other : ascii "p" ≠ ascii key) (clean : ascii "p" = (ascii "p").takeWhile (· ≠ 0)) : field (portEntry port) key = none := by
  unfold portEntry
  split
  · simp only [field,List.find?_cons,←clean,other,decide_false,List.find?_nil,Option.map_none]
  · rfl

theorem field_reqq : field (handshakeFields pex port metadataSize partialSeed version) "reqq" = some (.int 250) :=
  field_skip (portEntry port) (portEntry_skip (by decide) rfl)

theorem field_metadataSize : field (handshakeFields pex port metadataSize partialSeed version) "metadata_size" =
    if metadataSize ≠ 0 then some (.int metadataSize.toNat) else none := by
  refine (field_skip (portEntry port) (portEntry_skip (by decide) rfl)).trans ?_
  show field (sizeEntry metadataSize ++ _) _ = _
  unfold sizeEntry
  split <;> rfl

theorem field_uploadOnly : field (handshakeFields pex port metadataSize partialSeed version) "upload_only" =
    some (.str (ascii (if partialSeed then "1" else "0"))) := by
  refine (field_skip (portEntry port) (portEntry_skip (by decide) rfl)).trans ?_
  show field (sizeEntry metadataSize ++ _) _ = _
  unfold sizeEntry
  split <;> rfl

end Fields

namespace ExtendedPeer

variable {qt : QtNumber} {w : Surroundings} {p : ExtendedPeer}

-- What the handshake makes of a peer with no extensions that allows PEX.
def greeted (w : Surroundings) (p : ExtendedPeer) (pex : Bool) (metadataSize : UInt32) : ExtendedPeer :=
  let p := if pex then {p with utPexId := 1,extensions := p.extensions.insert utPexID (.utPex 1 (.new p.id))} else {p with utPexId := 0}
  {p with
    extensions := p.extensions.insert utMetadataID
      (.utMetaData 2 metadataSize.toNat (UTMetaData.setReportedMetadataSize w.memory ⟨w.metaData,none,[],[]⟩ metadataSize.toNat))
    maxRequestQueue := 250
    partialSeed := false}

theorem handleUtPex_none (enabled : w.utPexEnabled = true) (allowed : p.pexAllowed = true) (none_yet : p.extensions = .empty) (pex : Bool) :
    p.handleUtPex w (some (.int (if pex then 1 else 0))) =
      if pex then {p with utPexId := 1,extensions := p.extensions.insert utPexID (.utPex 1 (.new p.id))} else {p with utPexId := 0} := by
  cases pex with
  | false =>
      simp only [handleUtPex,enabled,none_yet]
      rfl
  | true =>
      simp only [handleUtPex,enabled,allowed,none_yet]
      rfl

theorem handleUtMetadata_none (absent : p.extensions.find utMetadataID = none) (read : reportedSize dict = .ok size) :
    p.handleUtMetadata w dict (some (.int 2)) = .ok {p with
      extensions := p.extensions.insert utMetadataID (.utMetaData 2 (UTMetaData.castUint32 size)
        (UTMetaData.setReportedMetadataSize w.memory ⟨w.metaData,none,[],[]⟩ (UTMetaData.castUint32 size)))} := by
  have two : UTMetaData.castUint32 (toInt w.ival (.int 2)) = 2 := rfl
  simp only [handleUtMetadata,two,PtrMap.contains,absent,read]
  rfl

theorem reportedSize_written {partialSeed : Bool} (same : treeEntries dict = handshakeFields pex port metadataSize partialSeed version)
    (plain : PlainEntries dict) (small : metadataSize.toNat < 2^31) : reportedSize dict = .ok metadataSize.toNat := by
  have there := @field_metadataSize pex partialSeed port metadataSize version
  unfold reportedSize
  by_cases known : metadataSize ≠ 0
  · rw [if_pos known] at there
    rw [getValue_int same plain there (by omega)]
    rfl
  · rw [if_neg known] at there
    rw [getValue_none same plain there,not_not.mp known]
    rfl

theorem handled_greeted {partialSeed : Bool} (enabled : w.utPexEnabled = true) (allowed : p.pexAllowed = true)
    (none_yet : p.extensions = .empty) (small : metadataSize.toNat < 2^31) (packet : QByteArray)
    (bytes : packet.bytes = (BTree.dict (handshakeFields pex port metadataSize partialSeed version)).calls.flatMap Call.bytes) :
    p.handleExtendedHandshake qt w packet = greeted w p pex metadataSize := by
  have short := packet.size_lt
  rw [bytes] at short
  rw [←List.append_nil (List.flatMap _ _)] at bytes
  obtain ⟨node,decoded,same,plain⟩ := decode_encoded qt _ (natural_encodable _ handshakeFields_natural short) packet bytes
  obtain ⟨dict,off,len,rfl,tree,ints⟩ := tree_dict same plain
  obtain ⟨mdict,there,mtree,mints⟩ := getDict_some tree ints field_m
  have pexValue : BDictNode.getValue mdict "ut_pex" = some (.int (if pex then 1 else 0)) :=
    getValue_int mtree mints rfl (by split <;> decide)
  have metadataValue : BDictNode.getValue mdict "ut_metadata" = some (.int 2) := getValue_int mtree mints rfl (by decide)
  have reqq := getValue_int tree ints field_reqq (by decide)
  have uploadOnly := getValue_str tree ints field_uploadOnly
  have size := reportedSize_written tree ints small
  have absent : (p.handleUtPex w (some (.int (if pex then 1 else 0)))).extensions.find utMetadataID = none := by
    rw [handleUtPex_none enabled allowed none_yet]
    cases pex with
    | false => simp only [none_yet]; rfl
    | true => simp only [none_yet]; rfl
  simp only [handleExtendedHandshake,decoded,there,pexValue,metadataValue,reqq,uploadOnly]
  rw [handleUtMetadata_none absent size]
  simp only [castUint32_natCast]
  rw [handleUtPex_none enabled allowed none_yet,greeted]
  rfl

-- The receiver has the ids of the sender, the extensions with an id other than 0, and the
-- values that were sent.
structure RoundTrip (sender receiver : ExtendedPeer) (metadataSize : UInt32) (partialSeed : Bool) (after : ExtendedPeer) : Prop where
  utPexId : after.utPexId = if sender.pexAllowed then 1 else 0
  utPex : after.extensions.find utPexID = if sender.pexAllowed then some (.utPex 1 (.new receiver.id)) else none
  utMetaData : ∃ md, after.extensions.find utMetadataID = some (.utMetaData 2 metadataSize.toNat md)
  others : ∀ k, k ≠ utPexID → k ≠ utMetadataID → after.extensions.find k = none
  reqq : after.maxRequestQueue = 250
  uploadOnly : after.partialSeed = partialSeed

theorem greeted_roundTrip {partialSeed : Bool} (sender : ExtendedPeer) (none_yet : p.extensions = .empty) :
    RoundTrip sender p metadataSize partialSeed (greeted w p sender.pexAllowed metadataSize) ↔ partialSeed = false := by
  have nothing (k : Nat) : p.extensions.find k = none := by
    rw [none_yet]
    rfl
  have other : utPexID ≠ utMetadataID := by
    decide
  constructor
  · intro round
    exact round.uploadOnly.symm
  · rintro rfl
    unfold greeted
    cases pex : sender.pexAllowed with
    | false =>
        refine ⟨?_,?_,⟨UTMetaData.setReportedMetadataSize w.memory ⟨w.metaData,none,[],[]⟩ metadataSize.toNat,?_⟩,?_,rfl,rfl⟩
        · rw [pex]
          rfl
        · rw [pex]
          exact (PtrMap.find_insert _).trans ((if_neg other).trans (nothing _))
        · exact (PtrMap.find_insert _).trans (if_pos rfl)
        · intro k _ notMetadata
          exact (PtrMap.find_insert _).trans ((if_neg notMetadata).trans (nothing k))
    | true =>
        refine ⟨?_,?_,⟨UTMetaData.setReportedMetadataSize w.memory ⟨w.metaData,none,[],[]⟩ metadataSize.toNat,?_⟩,?_,rfl,rfl⟩
        · rw [pex]
          rfl
        · rw [pex]
          exact (PtrMap.find_insert _).trans ((if_neg other).trans ((PtrMap.find_insert _).trans (if_pos rfl)))
        · exact (PtrMap.find_insert _).trans (if_pos rfl)
        · intro k notPex notMetadata
          exact (PtrMap.find_insert _).trans ((if_neg notMetadata).trans ((PtrMap.find_insert _).trans ((if_neg notPex).trans (nothing k))))

-- upload_only is written as a string, and a string reads as 0.
theorem round_trip_iff (qt : QtNumber) (w : Surroundings) (sender receiver : ExtendedPeer) (port : UInt16) (metadataSize : UInt32)
    (partialSeed : Bool) (version : List UInt8) (packet : QByteArray) (enabled : w.utPexEnabled = true)
    (allowed : receiver.pexAllowed = true) (none_yet : receiver.extensions = .empty) (small : metadataSize.toNat < 2^31)
    (sent : sender.sendExtProtHandshake port metadataSize partialSeed version = some packet.bytes) :
    RoundTrip sender receiver metadataSize partialSeed (receiver.handleExtendedHandshake qt w packet) ↔ partialSeed = false := by
  have extended : sender.extensionProtocol = true := by
    by_contra off
    rw [sendExtProtHandshake,Bool.eq_false_of_not_eq_true off] at sent
    cases sent
  rw [sent_fields sender extended] at sent
  rw [handled_greeted enabled allowed none_yet small packet (Option.some.inj sent).symm]
  exact greeted_roundTrip sender none_yet

def sample (id : Nat) : ExtendedPeer := ⟨id,true,true,0,.empty,0,false⟩

def samplePacket (partialSeed : Bool) : QByteArray where
  bytes := ascii "d1:md6:ut_pexi1e11:ut_metadatai2ee4:reqqi250e11:upload_only1:" ++ ascii (if partialSeed then "1" else "0") ++ ascii "1:v2:kte"
  size_lt := by
    cases partialSeed <;> decide

theorem sample_sent (partialSeed : Bool) :
    (sample 1).sendExtProtHandshake 0 0 partialSeed (ascii "kt") = some (samplePacket partialSeed).bytes := by
  cases partialSeed <;> decide

theorem leecher_round_trips :
    RoundTrip (sample 1) (sample 2) 0 false ((sample 2).handleExtendedHandshake QtNumber.plain ⟨true,none,fun _ => 0,0⟩ (samplePacket false)) :=
  (round_trip_iff QtNumber.plain ⟨true,none,fun _ => 0,0⟩ (sample 1) (sample 2) 0 0 false (ascii "kt") (samplePacket false) rfl rfl rfl
    (by decide) (sample_sent false)).mpr rfl

theorem partial_seed_lost : (sample 1).sendExtProtHandshake 0 0 true (ascii "kt") = some (samplePacket true).bytes ∧
    ((sample 2).handleExtendedHandshake QtNumber.plain ⟨true,none,fun _ => 0,0⟩ (samplePacket true)).partialSeed = false ∧
    ¬RoundTrip (sample 1) (sample 2) 0 true ((sample 2).handleExtendedHandshake QtNumber.plain ⟨true,none,fun _ => 0,0⟩ (samplePacket true)) := by
  have sent := sample_sent true
  have fields := @sent_fields true 0 0 (ascii "kt") (sample 1) rfl
  have handled : (sample 2).handleExtendedHandshake QtNumber.plain ⟨true,none,fun _ => 0,0⟩ (samplePacket true) = _ :=
    handled_greeted rfl rfl rfl (by decide) (samplePacket true) (Option.some.inj (sent.symm.trans fields))
  rw [handled]
  refine ⟨sent,rfl,?_⟩
  intro round
  exact absurd round.uploadOnly (by nofun)

end ExtendedPeer

end KtorrentStream.Peer
