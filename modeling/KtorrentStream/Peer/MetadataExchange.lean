import KtorrentStream.Peer.UTMetaData
set_option autoImplicit true

namespace KtorrentStream.Peer
open KtorrentStream.Util KtorrentStream.Bcodec KtorrentStream.Torrent KtorrentStream.Magnet

-- The size that a piece of n bytes of metadata has to have.
def PieceFits (n piece size : Nat) : Prop :=
  piece < numPieces n ∧
    size = if piece = numPieces n - 1 ∧ n % metadataPieceSize > 0 then n % metadataPieceSize else metadataPieceSize

theorem numPieces_spec (n : Nat) : n ≤ numPieces n * 16384 ∧ numPieces n * 16384 < n + 16384 := by
  unfold numPieces metadataPieceSize
  split <;> omega

theorem numPieces_full (n : Nat) (whole : n % 16384 = 0) : numPieces n * 16384 = n := by
  unfold numPieces metadataPieceSize
  split <;> omega

-- Only the last piece may be short, and it ends where the metadata ends.
theorem fits_inside (fits : PieceFits n piece size) : piece * 16384 + size = min ((piece + 1) * 16384) n := by
  obtain ⟨bound,rfl⟩ := fits
  have spec := numPieces_spec n
  have whole := numPieces_full n
  unfold metadataPieceSize
  split <;> omega

theorem cutPiece_length (bound : piece < numPieces md.length) : PieceFits md.length piece (cutPiece md piece).length := by
  refine ⟨bound,?_⟩
  have spec := numPieces_spec md.length
  have whole := numPieces_full md.length
  have width : metadataPieceSize = 16384 := rfl
  simp only [cutPiece,List.length_take,List.length_drop]
  by_cases last : piece = numPieces md.length - 1
  · by_cases full : md.length % metadataPieceSize = 0
    · rw [if_pos last,if_pos full,if_neg (by omega)]
      rw [width] at full ⊢
      omega
    · rw [if_pos last,if_neg full,if_pos ⟨last,by omega⟩]
      rw [width] at full ⊢
      omega
  · rw [if_neg last,if_neg (fun both => last both.1),width]
    omega

theorem cutPiece_getElem (md : List UInt8) (piece : Nat) (inside : i < (cutPiece md piece).length) :
    (cutPiece md piece)[i]? = md[piece * 16384 + i]? := by
  simp only [cutPiece,List.length_take] at inside ⊢
  rw [List.getElem?_take,if_pos (by omega),List.getElem?_drop]
  rfl

theorem copyAt_length (inside : off + data.length ≤ metadata.length) : (copyAt metadata off data).length = metadata.length := by
  simp only [copyAt,List.length_append,List.length_take,List.length_drop]
  omega

theorem copyAt_inside (inside : off + data.length ≤ metadata.length) (low : off ≤ i) (high : i < off + data.length) :
    (copyAt metadata off data)[i]? = data[i - off]? := by
  have start : (metadata.take off).length = off := by rw [List.length_take]; omega
  rw [copyAt,List.getElem?_append_left (by rw [List.length_append,start]; exact high),
    List.getElem?_append_right (by omega),start]

theorem copyAt_outside (inside : off + data.length ≤ metadata.length) (apart : i < off ∨ off + data.length ≤ i) :
    (copyAt metadata off data)[i]? = metadata[i]? := by
  have start : (metadata.take off).length = off := by rw [List.length_take]; omega
  rcases apart with low | high
  · rw [copyAt,List.append_assoc,List.getElem?_append_left (by omega),List.getElem?_take,if_pos low]
  · rw [copyAt,List.getElem?_append_right (by rw [List.length_append,start]; exact high),List.length_append,start,
      List.getElem?_drop]
    congr 1
    omega

theorem allOn_iff {bs : BitSet} (counted : bs.Counted) : bs.allOn = true ↔ ∀ i < bs.numBits, bs.get i = true := by
  rw [BitSet.allOn,beq_iff_eq,counted,BitSet.count]
  have full : (List.range bs.numBits).countP bs.get = (List.range bs.numBits).length ↔ _ := List.countP_eq_length
  rw [List.length_range] at full
  rw [full]
  simp only [List.mem_range]

structure HoldsPieces (md : List UInt8) (ks : List Nat) (d : MetadataDownload) : Prop where
  totalSize : d.totalSize = md.length
  numBits : d.pieces.numBits = numPieces md.length
  counted : d.pieces.Counted
  length : d.metadata.length = md.length
  on : ∀ k < numPieces md.length, d.pieces.get k = true ↔ k ∈ ks
  bytes : ∀ i < md.length, i / 16384 ∈ ks → d.metadata[i]? = md[i]?

theorem new_length (memory : Nat → UInt8) (small : size < 2^31) : (MetadataDownload.new memory size).metadata.length = size := by
  simp only [MetadataDownload.new,List.length_map,List.length_range]
  exact if_pos small

theorem new_holds (memory : Nat → UInt8) {md : List UInt8} (small : md.length < 2^31) :
    HoldsPieces md [] (MetadataDownload.new memory md.length) := by
  refine ⟨rfl,rfl,BitSet.new_counted _,new_length memory small,?_,?_⟩
  · intro k _
    rw [MetadataDownload.new,BitSet.new_get]
    exact ⟨fun off => (nomatch off),fun member => (nomatch member)⟩
  · exact fun _ _ member => nomatch member

theorem holds_sizeOf (holds : HoldsPieces md ks d) : PieceFits md.length piece size ↔
    piece < d.pieces.numBits ∧ d.sizeOf piece = size := by
  rw [PieceFits,MetadataDownload.sizeOf,holds.numBits,holds.totalSize]
  exact and_congr_right' eq_comm

theorem data_unfit (holds : HoldsPieces md ks d) (unfit : ¬ PieceFits md.length piece bytes.length) :
    d.data piece bytes = (false,d,d.downloadNext) := by
  rw [holds_sizeOf holds,not_and] at unfit
  unfold MetadataDownload.data
  by_cases beyond : piece ≥ d.pieces.numBits
  · rw [if_pos beyond]
  · rw [if_neg beyond,if_pos (unfit (by omega))]

theorem piece_holds (small : md.length < 2^31) (holds : HoldsPieces md ks d) (bound : k < numPieces md.length) :
    HoldsPieces md (k :: ks) {d with
      metadata := copyAt d.metadata (uint32 (k * metadataPieceSize)) (cutPiece md k),
      pieces := d.pieces.set k true} := by
  have fits := cutPiece_length bound
  have inside := fits_inside fits
  have spec := numPieces_spec md.length
  have place : uint32 (k * metadataPieceSize) = k * 16384 := by
    unfold uint32 metadataPieceSize
    omega
  have room : k * 16384 + (cutPiece md k).length ≤ d.metadata.length := by
    rw [holds.length]
    omega
  rw [place]
  refine ⟨holds.totalSize,?_,BitSet.set_counted holds.counted k true,?_,?_,?_⟩
  · exact (BitSet.set_numBits d.pieces k true).trans holds.numBits
  · exact (copyAt_length room).trans holds.length
  · intro j small
    rw [BitSet.set_get,holds.numBits,List.mem_cons,← holds.on j small]
    by_cases same : k = j
    · simp [same,small]
    · simp [same,Ne.symm same]
  · intro i low member
    by_cases here : k * 16384 ≤ i ∧ i < k * 16384 + (cutPiece md k).length
    · show (copyAt _ _ _)[i]? = _
      rw [copyAt_inside room here.1 here.2,cutPiece_getElem md k (by omega)]
      congr 1
      omega
    · show (copyAt _ _ _)[i]? = _
      rw [copyAt_outside room (by omega)]
      have other : i / 16384 ≠ k := by omega
      rcases List.mem_cons.mp member with same | member
      · exact absurd same other
      · exact holds.bytes i low member

-- The data has come in whole exactly when the last missing piece has.
theorem data_fits (small : md.length < 2^31) (holds : HoldsPieces md ks d) (bound : k < numPieces md.length) :
    HoldsPieces md (k :: ks) (d.data k (cutPiece md k)).2.1 ∧
    ((d.data k (cutPiece md k)).1 = true ↔ ∀ j < numPieces md.length, j = k ∨ j ∈ ks) := by
  have after := piece_holds small holds bound
  have parts := (holds_sizeOf holds).mp (cutPiece_length bound)
  have all := allOn_iff after.counted
  unfold MetadataDownload.data
  rw [if_neg (by omega),if_neg (not_not_intro parts.2)]
  have complete : (∀ j < numPieces md.length, j = k ∨ j ∈ ks) ↔ (d.pieces.set k true).allOn = true := by
    rw [all,after.numBits]
    refine forall_congr' fun j => forall_congr' fun inside => ?_
    rw [after.on j inside,List.mem_cons]
  dsimp only
  by_cases full : (d.pieces.set k true).allOn = true
  · rw [if_pos full]
    exact ⟨after,by simp only [complete,full]⟩
  · rw [if_neg full]
    exact ⟨after,by simp only [complete,full]⟩

theorem holds_all (holds : HoldsPieces md ks d) (all : ∀ j < numPieces md.length, j ∈ ks) : d.metadata = md := by
  apply List.ext_getElem?
  intro i
  have spec := numPieces_spec md.length
  by_cases inside : i < md.length
  · exact holds.bytes i inside (all (i / 16384) (by omega))
  · rw [List.getElem?_eq_none (by rw [holds.length]; omega),List.getElem?_eq_none (by omega)]

def metaFields (type piece : UInt32) (rest : List (List UInt8 × BTree)) : List (List UInt8 × BTree) :=
  (ascii "msg_type",.int type.toNat) :: (ascii "piece",.int piece.toNat) :: rest

theorem field_type (type piece : UInt32) (rest : List (List UInt8 × BTree)) :
    field (metaFields type piece rest) "msg_type" = some (.int type.toNat) := rfl

theorem field_piece (type piece : UInt32) (rest : List (List UInt8 × BTree)) :
    field (metaFields type piece rest) "piece" = some (.int piece.toNat) := rfl

theorem requestPacket_eq (piece : UInt32) :
    requestPacket piece = (BTree.dict (metaFields 0 piece [])).calls.flatMap Call.bytes := by
  rw [requestPacket,encode_eq]
  simp [metaFields,BTree.calls,callsEntries,Call.bytes]

theorem rejectPacket_eq (piece : UInt32) :
    rejectPacket piece = (BTree.dict (metaFields 2 piece [])).calls.flatMap Call.bytes := by
  rw [rejectPacket,encode_eq]
  simp [metaFields,BTree.calls,callsEntries,Call.bytes]

theorem dataPacket_eq (piece total : UInt32) (data : List UInt8) : dataPacket piece total data =
    (BTree.dict (metaFields 1 piece [(ascii "total_size",.int total.toNat)])).calls.flatMap Call.bytes ++ data := by
  rw [dataPacket,encode_eq]
  simp [metaFields,BTree.calls,callsEntries,Call.bytes]

theorem metaFields_encodable (type piece : UInt32) (sized : EncodableEntries rest) :
    (BTree.dict (metaFields type piece rest)).Encodable := by
  have first := type.toNat_lt
  have second := piece.toNat_lt
  refine ⟨by decide,⟨by omega,by omega⟩,by decide,⟨by omega,by omega⟩,sized⟩

theorem handle_fields (qt : QtNumber) (u : UTMetaData) {type piece : UInt32} (small : type < 3) (sized : EncodableEntries rest)
    (packet : QByteArray)
    (starts : packet.bytes = (BTree.dict (metaFields type piece rest)).calls.flatMap Call.bytes ++ after) :
    ∃ dict, treeEntries dict = metaFields type piece rest ∧ PlainEntries dict ∧
      u.handlePacket qt packet = some (if type = 0 then u.request dict else if type = 1 then u.data dict after
        else u.reject dict) := by
  obtain ⟨node,decoded,same,plain⟩ := decode_encoded qt _ (metaFields_encodable type piece sized) packet starts
  obtain ⟨dict,off,len,rfl,tree,ints⟩ := tree_dict same plain
  refine ⟨dict,tree,ints,?_⟩
  have few : type.toNat < 3 := small
  have value := getValue_int tree ints (field_type type piece rest) (by omega)
  unfold UTMetaData.handlePacket
  rw [decoded]
  dsimp only
  rw [value,starts,List.drop_left]
  dsimp only [getInt]
  have kind (k : UInt32) : ((type.toNat : Int) = (k.toNat : Int)) ↔ type = k := by
    rw [Int.natCast_inj,UInt32.toNat_inj]
  have zero := kind 0
  have one := kind 1
  have two := kind 2
  simp only [UInt32.toNat_zero,UInt32.toNat_one,Nat.cast_zero,Nat.cast_one] at zero one
  by_cases request : type = 0
  · rw [if_pos (zero.mpr request),if_pos request]
  rw [if_neg (zero.not.mpr request),if_neg request]
  by_cases data : type = 1
  · rw [if_pos (one.mpr data),if_pos data]
  rw [if_neg (one.not.mpr data),if_neg data]
  rw [if_pos (by have := zero.not.mpr request; have := one.not.mpr data; omega)]

theorem castUint32_natCast (v : UInt32) : UTMetaData.castUint32 v.toNat = v.toNat := by
  have small := v.toNat_lt
  unfold UTMetaData.castUint32
  omega

def serving (md : List UInt8) : UTMetaData := ⟨some md,none,[],[]⟩

inductive MetadataAnswer where
  | piece (k : Nat)
  | reject (k : UInt32)
  | unfit (k totalSize : UInt32) (bytes : List UInt8)

-- A piece is what the other peer sends when it is asked for it. Rejects, and data that
-- does not fit, may come at any time.
def MetadataAnswer.Sent (qt : QtNumber) (md : List UInt8) : MetadataAnswer → QByteArray → Prop
  | .piece k,packet => k < numPieces md.length ∧ ∃ request : QByteArray, request.bytes = requestPacket (UInt32.ofNat k) ∧
      (serving md).handlePacket qt request = some ((serving md).send [packet.bytes])
  | .reject k,packet => packet.bytes = rejectPacket k
  | .unfit k totalSize bytes,packet => packet.bytes = dataPacket k totalSize bytes ∧ ¬ PieceFits md.length k.toNat bytes.length

def MetadataAnswer.brings : MetadataAnswer → List Nat
  | .piece k => [k]
  | _ => []

-- ks are the pieces that have come since the size was reported.
inductive MetadataExchange (qt : QtNumber) (memory : Nat → UInt8) (md : List UInt8) : List Nat → UTMetaData → Prop
  | start : MetadataExchange qt memory md [] ⟨none,some (.new memory md.length),[requestPacket 0],[]⟩
  | step (answer : MetadataAnswer) (packet : QByteArray) (before : MetadataExchange qt memory md ks u) (sent : answer.Sent qt md packet)
      (handled : u.handlePacket qt packet = some u') : MetadataExchange qt memory md (answer.brings ++ ks) u'

theorem piece_number {md : List UInt8} (small : md.length < 2^31) (bound : k < numPieces md.length) :
    (UInt32.ofNat k).toNat = k := by
  have spec := numPieces_spec md.length
  rw [UInt32.toNat_ofNat']
  omega

theorem request_answered (qt : QtNumber) {md : List UInt8} (small : md.length < 2^31) (bound : k < numPieces md.length)
    (request : QByteArray) (asks : request.bytes = requestPacket (UInt32.ofNat k)) :
    (serving md).handlePacket qt request = some ((serving md).send
      [dataPacket (UInt32.ofNat k) (UInt32.ofNat md.length) (cutPiece md k)]) := by
  have spec := numPieces_spec md.length
  have number := piece_number small bound
  rw [requestPacket_eq,← List.append_nil (List.flatMap _ _)] at asks
  have nothing : EncodableEntries [] := trivial
  obtain ⟨dict,tree,ints,handled⟩ := handle_fields qt (serving md) (by decide) nothing request asks
  rw [handled,if_pos rfl]
  have value := getValue_int tree ints (field_piece 0 (UInt32.ofNat k) []) (by omega)
  unfold UTMetaData.request
  rw [value,number]
  dsimp only [getInt,serving]
  rw [if_neg (by omega)]
  rfl

theorem piece_packet (qt : QtNumber) {md : List UInt8} (small : md.length < 2^31) {packet : QByteArray}
    (sent : (MetadataAnswer.piece k).Sent qt md packet) :
    packet.bytes = dataPacket (UInt32.ofNat k) (UInt32.ofNat md.length) (cutPiece md k) := by
  obtain ⟨bound,request,asks,handled⟩ := sent
  rw [request_answered qt small bound request asks] at handled
  have same := congrArg UTMetaData.sent (Option.some.inj handled)
  simpa [UTMetaData.send,serving] using same.symm

-- A data packet goes to the download, if its piece number can be read.
theorem data_handled (qt : QtNumber) {u : UTMetaData} (loading : u.download = some d) (packet : QByteArray)
    (bytes : packet.bytes = dataPacket k totalSize data) :
    (u.handlePacket qt packet = some (u.received (d.data k.toNat data)) ∨
      u.handlePacket qt packet = some u) ∧
    (k.toNat < 2^31 → u.handlePacket qt packet = some (u.received (d.data k.toNat data))) := by
  rw [dataPacket_eq] at bytes
  have sized : EncodableEntries [(ascii "total_size",.int totalSize.toNat)] := by
    have small := totalSize.toNat_lt
    exact ⟨by decide,⟨by omega,by omega⟩,trivial⟩
  obtain ⟨dict,tree,ints,handled⟩ := handle_fields qt u (by decide) sized packet bytes
  rw [handled,if_neg (by decide),if_pos rfl]
  unfold UTMetaData.data
  rw [loading]
  dsimp only
  constructor
  · cases read : getInt (BDictNode.getValue dict "piece") with
    | error e => exact .inr rfl
    | ok v =>
      left
      dsimp only
      rw [getInt_written tree ints (field_piece 1 k _) read,castUint32_natCast]
  · intro small
    rw [getValue_int tree ints (field_piece 1 k _) (by omega)]
    dsimp only [getInt]
    rw [castUint32_natCast]

theorem piece_handled (qt : QtNumber) {md : List UInt8} {u : UTMetaData} {packet : QByteArray} (small : md.length < 2^31)
    (loading : u.download = some d) (sent : (MetadataAnswer.piece k).Sent qt md packet) :
    u.handlePacket qt packet = some (u.received (d.data k (cutPiece md k))) := by
  have number := piece_number small sent.1
  have spec := numPieces_spec md.length
  have bound := sent.1
  have handled := (data_handled qt loading packet (piece_packet qt small sent)).2 (by omega)
  rwa [number] at handled

theorem reject_handled (qt : QtNumber) {u : UTMetaData} (loading : u.download = some d) (packet : QByteArray)
    (bytes : packet.bytes = rejectPacket k) :
    u.handlePacket qt packet = some (u.send d.downloadNext) ∨ u.handlePacket qt packet = some u := by
  rw [rejectPacket_eq,← List.append_nil (List.flatMap _ _)] at bytes
  have nothing : EncodableEntries [] := trivial
  obtain ⟨dict,tree,ints,handled⟩ := handle_fields qt u (by decide) nothing packet bytes
  rw [handled,if_neg (by decide),if_neg (by decide)]
  unfold UTMetaData.reject
  rw [loading]
  dsimp only
  cases getInt (BDictNode.getValue dict "piece") with
  | error e => exact .inr rfl
  | ok v => exact .inl rfl

theorem decimal_length (small : n < 2^32) : (decimal n).length ≤ 10 := by
  unfold decimal
  split
  · decide
  · rw [List.length_map,List.length_reverse,Nat.digits_length_le_iff (by decide)]
    omega

theorem requestPacket_length (k : UInt32) : (requestPacket k).length < 2^31 := by
  have piece := decimal_length k.toNat_lt
  have zero : (decimal 0).length ≤ 10 := decimal_length (by decide)
  have five : (decimal 5).length ≤ 10 := decimal_length (by decide)
  have eight : (decimal 8).length ≤ 10 := decimal_length (by decide)
  rw [requestPacket,encode_eq]
  simp [Call.bytes,intText,ascii]
  omega

theorem dataPacket_length (k totalSize : UInt32) (data : List UInt8) (few : data.length ≤ 16384) :
    (dataPacket k totalSize data).length < 2^31 := by
  have piece := decimal_length k.toNat_lt
  have total := decimal_length totalSize.toNat_lt
  have one : (decimal 1).length ≤ 10 := decimal_length (by decide)
  have five : (decimal 5).length ≤ 10 := decimal_length (by decide)
  have eight : (decimal 8).length ≤ 10 := decimal_length (by decide)
  have ten : (decimal 10).length ≤ 10 := decimal_length (by decide)
  rw [dataPacket,encode_eq]
  simp [Call.bytes,intText,ascii]
  omega

theorem piece_sent (qt : QtNumber) {md : List UInt8} (small : md.length < 2^31) (bound : k < numPieces md.length) :
    ∃ packet, (MetadataAnswer.piece k).Sent qt md packet := by
  have inside := fits_inside (cutPiece_length bound)
  refine ⟨⟨_,dataPacket_length (UInt32.ofNat k) (UInt32.ofNat md.length) (cutPiece md k) (by omega)⟩,bound,
    ⟨_,requestPacket_length (UInt32.ofNat k)⟩,rfl,?_⟩
  exact request_answered qt small bound _ rfl

theorem answer_handled (qt : QtNumber) {md : List UInt8} {u : UTMetaData} (small : md.length < 2^31) (loading : u.download = some d)
    (holds : HoldsPieces md ks d) (answer : MetadataAnswer) (packet : QByteArray) (sent : answer.Sent qt md packet) :
    ∃ u' d', u.handlePacket qt packet = some u' ∧ u'.download = some d' ∧ HoldsPieces md (answer.brings ++ ks) d' := by
  cases answer with
  | piece k =>
    exact ⟨_,_,piece_handled qt small loading sent,rfl,(data_fits small holds sent.1).1⟩
  | reject k =>
    rcases reject_handled qt loading packet sent with handled | handled
    · exact ⟨_,d,handled,loading,holds⟩
    · exact ⟨_,d,handled,loading,holds⟩
  | unfit k totalSize bytes =>
    have handled := (data_handled qt loading packet sent.1).1
    rw [data_unfit holds sent.2] at handled
    rcases handled with handled | handled
    · exact ⟨_,d,handled,rfl,holds⟩
    · exact ⟨_,d,handled,loading,holds⟩

theorem exchange_holds (qt : QtNumber) {md : List UInt8} (small : md.length < 2^31)
    (exchange : MetadataExchange qt memory md ks u) : ∃ d, u.download = some d ∧ HoldsPieces md ks d := by
  induction exchange with
  | start => exact ⟨_,rfl,new_holds memory small⟩
  | step answer packet before sent handled ih =>
    obtain ⟨d,loading,holds⟩ := ih
    obtain ⟨after,d',handled',loaded,held⟩ := answer_handled qt small loading holds answer packet sent
    rw [handled] at handled'
    rw [Option.some.inj handled']
    exact ⟨d',loaded,held⟩

-- Wherever an exchange of the metadata has come: a piece is handed to the download as it was
-- cut, data returns true exactly if it was the last one missing, and then the metadata is
-- there; what does not fit leaves the download as it is.
theorem metadata_exchanged (qt : QtNumber) (memory : Nat → UInt8) (md : QByteArray) (ks : List Nat) (u : UTMetaData)
    (exchange : MetadataExchange qt memory md.bytes ks u) :
    numPieces md.size = (md.size + 16383) / 16384 ∧
    ∃ d, u.download = some d ∧
      (∀ k < numPieces md.size, (∃ packet, (MetadataAnswer.piece k).Sent qt md.bytes packet) ∧
        (∀ packet, (MetadataAnswer.piece k).Sent qt md.bytes packet →
          u.handlePacket qt packet = some (u.received (d.data k (cutPiece md.bytes k)))) ∧
        ((d.data k (cutPiece md.bytes k)).1 = true ↔ ∀ j < numPieces md.size, j = k ∨ j ∈ ks) ∧
        ((d.data k (cutPiece md.bytes k)).1 = true → (d.data k (cutPiece md.bytes k)).2.1.metadata = md.bytes)) ∧
      (∀ piece bytes, ¬ PieceFits md.size piece bytes.length → (d.data piece bytes).1 = false ∧ (d.data piece bytes).2.1 = d) ∧
      ∀ answer packet, MetadataAnswer.Sent qt md.bytes answer packet → (u.handlePacket qt packet).isSome := by
  have small := md.size_lt
  obtain ⟨d,loading,holds⟩ := exchange_holds qt small exchange
  have spec := numPieces_spec md.size
  refine ⟨by omega,d,loading,?_,?_,?_⟩
  · intro k bound
    obtain ⟨after,complete⟩ := data_fits small holds bound
    refine ⟨piece_sent qt small bound,?_,complete,?_⟩
    · exact fun packet sent => piece_handled qt small loading sent
    · intro all
      refine holds_all after ?_
      exact fun j inside => List.mem_cons.mpr (complete.mp all j inside)
  · intro piece bytes unfit
    rw [data_unfit holds unfit]
    exact ⟨rfl,rfl⟩
  · intro answer packet sent
    obtain ⟨after,_,handled,_⟩ := answer_handled qt small loading holds answer packet sent
    rw [handled]
    rfl

-- A piece that does not complete the metadata comes, for the first time or again.
theorem piece_exchanged (qt : QtNumber) {md : List UInt8} (small : md.length < 2^31) (exchange : MetadataExchange qt memory md ks u)
    (bound : k < numPieces md.length) (missing : ∃ j < numPieces md.length, j ≠ k ∧ j ∉ ks) :
    ∃ u', MetadataExchange qt memory md (k :: ks) u' ∧ u'.downloaded = u.downloaded := by
  obtain ⟨d,loading,holds⟩ := exchange_holds qt small exchange
  obtain ⟨packet,sent⟩ := piece_sent qt small bound
  refine ⟨_,.step (.piece k) packet exchange sent (piece_handled qt small loading sent),?_⟩
  obtain ⟨j,inside,other,absent⟩ := missing
  have more : (d.data k (cutPiece md k)).1 = false := by
    refine Bool.eq_false_iff.mpr fun all => ?_
    exact ((data_fits small holds bound).2.mp all j inside).elim other absent
  unfold UTMetaData.received
  rw [more]
  rfl

theorem reject_exchanged (qt : QtNumber) {md : List UInt8} (small : md.length < 2^31) (exchange : MetadataExchange qt memory md ks u)
    (packet : QByteArray) (bytes : packet.bytes = rejectPacket k) :
    ∃ u', MetadataExchange qt memory md ks u' ∧ u'.downloaded = u.downloaded := by
  obtain ⟨d,loading,_⟩ := exchange_holds qt small exchange
  rcases reject_handled qt loading packet bytes with handled | handled
  · exact ⟨_,.step (.reject k) packet exchange bytes handled,rfl⟩
  · exact ⟨_,.step (.reject k) packet exchange bytes handled,rfl⟩

theorem twoPieces_length : (List.replicate 16384 (1 : UInt8) ++ [2]).length = 16385 := by
  rw [List.length_append,List.length_replicate,List.length_singleton]

-- Metadata of two pieces.
def twoPieces : QByteArray := ⟨List.replicate 16384 1 ++ [2],by rw [twoPieces_length]; decide⟩

-- The second piece comes twice, the first one is refused, and then it comes too.
theorem two_pieces_exchanged : ∃ u, MetadataExchange QtNumber.plain (fun _ => 0) twoPieces.bytes [0,1,1] u ∧
    u.downloaded = [twoPieces.bytes] := by
  have size : numPieces twoPieces.bytes.length = 2 := by
    have length : twoPieces.bytes.length = 16385 := twoPieces_length
    rw [length]
    rfl
  have few := twoPieces.size_lt
  have begun : MetadataExchange QtNumber.plain (fun _ => 0) twoPieces.bytes [] _ := .start
  obtain ⟨_,second,none⟩ := piece_exchanged QtNumber.plain few begun (k := 1) (by omega) ⟨0,by omega,by decide,by simp⟩
  obtain ⟨_,again,same⟩ := piece_exchanged QtNumber.plain few second (k := 1) (by omega) ⟨0,by omega,by decide,by simp⟩
  obtain ⟨u,refused,kept⟩ := reject_exchanged QtNumber.plain few again ⟨rejectPacket 0,by decide +kernel⟩ rfl
  obtain ⟨_,d,_,pieces,_⟩ := metadata_exchanged QtNumber.plain (fun _ => 0) twoPieces [1,1] u refused
  obtain ⟨⟨packet,sent⟩,handled,complete,result⟩ := pieces 0 (Nat.lt_of_lt_of_eq (by decide) size.symm)
  have all : (d.data 0 (cutPiece twoPieces.bytes 0)).1 = true := by
    refine complete.mpr fun j inside => ?_
    have two : j < 2 := Nat.lt_of_lt_of_eq inside size
    rcases j with _ | _ | j
    · exact .inl rfl
    · exact .inr List.mem_cons_self
    · omega
  refine ⟨_,.step (.piece 0) packet refused sent (handled packet sent),?_⟩
  simp only [UTMetaData.received,all,if_true,result all]
  rw [kept,same,none]
  rfl

end KtorrentStream.Peer
