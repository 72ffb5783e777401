import KtorrentStream.Lib.Along
import KtorrentStream.Peer.ExtendedHandshake
set_option autoImplicit true

namespace KtorrentStream.Peer
open KtorrentStream.Lib KtorrentStream.Util KtorrentStream.Bcodec KtorrentStream.Torrent KtorrentStream.Magnet

-- The piece is copied into the metadata.
def accepts (d : MetadataDownload) (piece : Nat) (pieceData : List UInt8) : Prop :=
  piece < d.pieces.numBits ∧ d.sizeOf piece = pieceData.length

instance (d : MetadataDownload) (piece : Nat) (pieceData : List UInt8) : Decidable (accepts d piece pieceData) :=
  inferInstanceAs (Decidable (_ ∧ _))

def isDict (qt : QtNumber) (packet : QByteArray) : Bool :=
  match decode qt packet 0 with
  | .ok (some (.dict _ _ _),_) => true
  | _ => false

def isList (qt : QtNumber) (packet : QByteArray) : Bool :=
  match decode qt packet 0 with
  | .ok (some (.list _ _ _),_) => true
  | _ => false

-- Where the memcpy of MetadataDownload::data puts how many bytes, and the size of what is
-- allocated, if the packet leads to one.
structure Write where
  off : Nat
  size : Nat
  allocated : Nat

namespace UTMetaData

variable (qt : QtNumber) (u : UTMetaData)

def writeData (dict : Entries) (pieceData : List UInt8) : Option Write :=
  match u.download with
  | none => none
  | some d =>
    match getInt (BDictNode.getValue dict "piece") with
    | .error _ => none
    | .ok piece =>
      if accepts d (castUint32 piece) pieceData then
        some ⟨uint32 (castUint32 piece * metadataPieceSize),pieceData.length,d.metadata.length⟩
      else none

def write (packet : QByteArray) : Option Write :=
  match decode qt packet 0 with
  | .ok (some (.dict dict _ _),pos) =>
    match getInt (BDictNode.getValue dict "msg_type") with
    | .error _ => none
    | .ok type => if type = 1 then u.writeData dict (packet.bytes.drop pos) else none
  | _ => none

end UTMetaData

-- A packet comes, or the torrent is loaded.
inductive MetadataEvent where
  | packet (packet : QByteArray)
  | loaded (metaData : List UInt8)

namespace MetadataEvent

variable (qt : QtNumber)

def step (u : UTMetaData) : MetadataEvent → UTMetaData
  | packet p => (u.handlePacket qt p).getD u
  | loaded metaData => {u with metaData := some metaData}

-- A dictionary is taken for one, anything else changes nothing, and what is written is
-- written into the metadata.
structure SafePacket (u : UTMetaData) (packet : QByteArray) : Prop where
  interpreted : (u.handlePacket qt packet).isSome
  ignored : isDict qt packet = false → u.handlePacket qt packet = some u
  inside : ∀ w, u.write qt packet = some w → w.off + w.size ≤ w.allocated

def Safe (u : UTMetaData) : MetadataEvent → Prop
  | packet p => SafePacket qt u p
  | loaded _ => True

-- No list comes, and no fitting piece of metadata of a negative size.
def Harmless (size : Int32) (u : UTMetaData) : MetadataEvent → Prop
  | packet p => isList qt p = false ∧ (size.toInt < 0 → u.write qt p = none)
  | loaded _ => True

end MetadataEvent

-- The UTMetaData of a peer that has reported a size.
def reporting (memory : Nat → UInt8) (metaData : Option (List UInt8)) (size : Int32) : UTMetaData :=
  UTMetaData.setReportedMetadataSize memory ⟨metaData,none,[],[]⟩ (UTMetaData.castUint32 size.toInt)

section Safety
variable {qt : QtNumber} {u : UTMetaData} {d : MetadataDownload}

theorem data_download (d : MetadataDownload) (piece : Nat) (pieceData : List UInt8) : (d.data piece pieceData).2.1 =
    if accepts d piece pieceData then {d with
      metadata := copyAt d.metadata (uint32 (piece * metadataPieceSize)) pieceData,
      pieces := d.pieces.set piece true}
    else d := by
  unfold MetadataDownload.data
  by_cases beyond : piece ≥ d.pieces.numBits
  · have refused : ¬accepts d piece pieceData := fun both => Nat.not_lt.mpr beyond both.1
    rw [if_pos beyond,if_neg refused]
  · rw [if_neg beyond]
    by_cases fits : d.sizeOf piece = pieceData.length
    · have accepted : accepts d piece pieceData := ⟨Nat.lt_of_not_ge beyond,fits⟩
      rw [if_neg (not_not.mpr fits),if_pos accepted]
      simp only
      split <;> rfl
    · have refused : ¬accepts d piece pieceData := fun both => fits both.2
      rw [if_pos fits,if_neg refused]

theorem request_download (u : UTMetaData) (dict : Entries) : (u.request dict).download = u.download := by
  unfold UTMetaData.request
  split
  · rfl
  · split
    · rfl
    · split <;> rfl

theorem reject_download (u : UTMetaData) (dict : Entries) : (u.reject dict).download = u.download := by
  unfold UTMetaData.reject
  split
  · rfl
  · split <;> rfl

-- What is copied, and what the download is afterwards.
structure Copied (d d' : MetadataDownload) (w : Write) (piece : Nat) (pieceData : List UInt8) : Prop where
  accepted : accepts d piece pieceData
  write : w = ⟨uint32 (piece * metadataPieceSize),pieceData.length,d.metadata.length⟩
  after : d' = {d with metadata := copyAt d.metadata w.off pieceData,pieces := d.pieces.set piece true}

-- The download changes by the write that is made, if one is.
def Changes (u u' : UTMetaData) (write : Option Write) : Prop :=
  (write = none ∧ u'.download = u.download) ∨ ∃ w d d' piece pieceData,
    write = some w ∧ u.download = some d ∧ u'.download = some d' ∧ Copied d d' w piece pieceData

theorem data_changes (u : UTMetaData) (dict : Entries) (pieceData : List UInt8) : Changes u (u.data dict pieceData) (u.writeData dict pieceData) := by
  unfold UTMetaData.data UTMetaData.writeData
  cases there : u.download with
  | none => exact .inl ⟨rfl,rfl⟩
  | some d =>
      cases getInt (BDictNode.getValue dict "piece") with
      | error e => exact .inl ⟨rfl,rfl⟩
      | ok piece =>
          simp only
          have after := data_download d (UTMetaData.castUint32 piece) pieceData
          by_cases accepted : accepts d (UTMetaData.castUint32 piece) pieceData
          · rw [if_pos accepted] at after ⊢
            exact .inr ⟨_,d,_,UTMetaData.castUint32 piece,pieceData,rfl,there,congrArg some after,accepted,rfl,rfl⟩
          · rw [if_neg accepted] at after ⊢
            exact .inl ⟨rfl,(congrArg some after).trans there.symm⟩

theorem handled_changes (qt : QtNumber) (u : UTMetaData) (packet : QByteArray) :
    Changes u ((u.handlePacket qt packet).getD u) (u.write qt packet) := by
  unfold UTMetaData.write UTMetaData.handlePacket
  cases decode qt packet 0 with
  | error e => exact .inl ⟨rfl,rfl⟩
  | ok r =>
      obtain ⟨node,pos⟩ := r
      rcases node with _ | ⟨v,off,len⟩ | ⟨children,off,len⟩ | ⟨dict,off,len⟩
      · exact .inl ⟨rfl,rfl⟩
      · exact .inl ⟨rfl,rfl⟩
      · exact .inl ⟨rfl,rfl⟩
      · simp only
        cases getInt (BDictNode.getValue dict "msg_type") with
        | error e => exact .inl ⟨rfl,rfl⟩
        | ok type =>
            simp only
            by_cases data : type = 1
            · subst type
              exact data_changes u dict (packet.bytes.drop pos)
            · rw [if_neg data,if_neg data]
              refine .inl ⟨rfl,?_⟩
              by_cases request : type = 0
              · rw [if_pos request]
                exact request_download u dict
              · rw [if_neg request]
                split
                · exact reject_download u dict
                · rfl

-- A list is the only thing that is taken for something else.
theorem handlePacket_isSome (qt : QtNumber) (u : UTMetaData) (packet : QByteArray) :
    (u.handlePacket qt packet).isSome ↔ isList qt packet = false := by
  unfold UTMetaData.handlePacket isList
  cases decode qt packet 0 with
  | error e => exact ⟨fun _ => rfl,fun _ => rfl⟩
  | ok r =>
      obtain ⟨node,pos⟩ := r
      rcases node with _ | ⟨v,off,len⟩ | ⟨children,off,len⟩ | ⟨dict,off,len⟩
      · exact ⟨fun _ => rfl,fun _ => rfl⟩
      · exact ⟨fun _ => rfl,fun _ => rfl⟩
      · exact ⟨nofun,nofun⟩
      · simp only
        refine ⟨fun _ => trivial,fun _ => ?_⟩
        cases getInt (BDictNode.getValue dict "msg_type") with
        | error e => rfl
        | ok type =>
            simp only
            split
            · rfl
            · split
              · rfl
              · split <;> rfl

theorem handlePacket_other (qt : QtNumber) (u : UTMetaData) (packet : QByteArray) (notList : isList qt packet = false)
    (notDict : isDict qt packet = false) : u.handlePacket qt packet = some u := by
  unfold isList at notList
  unfold isDict at notDict
  unfold UTMetaData.handlePacket
  cases decoded : decode qt packet 0 with
  | error e => rfl
  | ok r =>
      obtain ⟨node,pos⟩ := r
      rw [decoded] at notList notDict
      rcases node with _ | ⟨v,off,len⟩ | ⟨children,off,len⟩ | ⟨dict,off,len⟩
      · rfl
      · rfl
      · cases notList
      · cases notDict

-- The download has so many bytes as fit an int, or none.
structure Allocated (n : Nat) (d : MetadataDownload) : Prop where
  totalSize : d.totalSize = n
  numBits : d.pieces.numBits = numPieces n
  length : d.metadata.length = if n < 2147483648 then n else 0

def AllocatedFor (n : Nat) (u : UTMetaData) : Prop := ∀ d, u.download = some d → Allocated n d

theorem accepts_fits (allocated : Allocated n d) : accepts d piece pieceData ↔ PieceFits n piece pieceData.length := by
  rw [accepts,PieceFits,MetadataDownload.sizeOf,allocated.numBits,allocated.totalSize]
  exact and_congr_right' eq_comm

-- A piece of metadata that has been allocated is copied into it, and one of metadata that has
-- not is not.
theorem copied_inside (small : n < 4294967296) (allocated : Allocated n d) (copied : Copied d d' w piece pieceData) :
    w.off + w.size ≤ w.allocated ↔ n < 2147483648 := by
  have fits := (accepts_fits allocated).mp copied.accepted
  have inside := fits_inside fits
  have spec := numPieces_spec n
  obtain ⟨bound,size⟩ := fits
  have some_bytes : 0 < pieceData.length := by
    unfold metadataPieceSize at size
    split at size <;> omega
  rw [copied.write]
  simp only [allocated.length,uint32,metadataPieceSize]
  split <;> omega

theorem copied_allocated (small : n < 2147483648) (allocated : Allocated n d) (copied : Copied d d' w piece pieceData) : Allocated n d' := by
  have inside := (copied_inside (by omega) allocated copied).mpr small
  rw [copied.write] at inside
  rw [copied.after]
  refine ⟨allocated.totalSize,?_,?_⟩
  · exact (BitSet.set_numBits d.pieces piece true).trans allocated.numBits
  · rw [copied.write]
    exact (copyAt_length inside).trans allocated.length

theorem reported_small (size : Int32) : UTMetaData.castUint32 size.toInt < 4294967296 ∧
    (UTMetaData.castUint32 size.toInt < 2147483648 ↔ ¬size.toInt < 0) := by
  have low := size.le_toInt
  have high := size.toInt_lt
  unfold UTMetaData.castUint32
  omega

theorem reporting_allocated (memory : Nat → UInt8) (metaData : Option (List UInt8)) (size : Int32) :
    AllocatedFor (UTMetaData.castUint32 size.toInt) (reporting memory metaData size) := by
  intro d there
  unfold reporting UTMetaData.setReportedMetadataSize at there
  split at there
  · obtain rfl := Option.some.inj there
    refine ⟨rfl,rfl,?_⟩
    simp only [MetadataDownload.new,List.length_map,List.length_range]
  · cases there

theorem castUint32_int (v : Int) : UTMetaData.castUint32 v = UTMetaData.castUint32 (Int32.ofInt v).toInt := by
  unfold UTMetaData.castUint32
  rw [Int32.toInt_ofInt]
  exact congrArg Int.toNat Int.bmod_emod.symm

theorem handleUtPex_metadata (w : Surroundings) (p : ExtendedPeer) (val : Option Value) :
    (p.handleUtPex w val).extensions.find utMetadataID = p.extensions.find utMetadataID := by
  have other : utMetadataID ≠ utPexID := by
    decide
  unfold ExtendedPeer.handleUtPex
  split
  · rfl
  · split
    · rfl
    · simp only
      split
      · rw [PtrMap.find_erase,if_neg other]
      · split
        · rw [PtrMap.find_modify,if_neg other]
        · split
          · rw [PtrMap.find_insert,if_neg other]
          · rfl

theorem handleUtMetadata_created {w : Surroundings} {p p' : ExtendedPeer} (fresh : p.extensions.find utMetadataID = none)
    (handled : p.handleUtMetadata w dict val = .ok p') (made : p'.extensions.find utMetadataID = some (.utMetaData peerId size md)) :
    ∃ v : Int32, size = UTMetaData.castUint32 v.toInt ∧ md = reporting w.memory w.metaData v := by
  unfold ExtendedPeer.handleUtMetadata at handled
  split at handled
  · obtain rfl := Except.ok.inj handled
    cases fresh.symm.trans made
  · simp only [PtrMap.contains,fresh] at handled
    split at handled
    · obtain rfl := Except.ok.inj handled
      rw [PtrMap.find_erase,if_pos rfl] at made
      cases made
    · cases read : ExtendedPeer.reportedSize dict with
      | error e =>
          rw [read] at handled
          cases handled
      | ok v =>
          rw [read] at handled
          obtain rfl := Except.ok.inj handled
          rw [PtrMap.find_insert,if_pos rfl] at made
          obtain ⟨_,rfl,rfl⟩ := PeerProtocolExtension.utMetaData.inj (Option.some.inj made)
          refine ⟨Int32.ofInt v,castUint32_int v,?_⟩
          rw [reporting,←castUint32_int v]

-- The UTMetaData that an extended handshake makes is one that has been told a size.
theorem handshake_created (qt : QtNumber) {w : Surroundings} {p : ExtendedPeer} (packet : QByteArray) (fresh : p.extensions.find utMetadataID = none)
    (made : (p.handleExtendedHandshake qt w packet).extensions.find utMetadataID = some (.utMetaData peerId size md)) :
    ∃ v : Int32, size = UTMetaData.castUint32 v.toInt ∧ md = reporting w.memory w.metaData v := by
  unfold ExtendedPeer.handleExtendedHandshake at made
  split at made
  · split at made
    · cases fresh.symm.trans made
    · simp only at made
      have still (val : Option Value) : (p.handleUtPex w val).extensions.find utMetadataID = none := (handleUtPex_metadata w p val).trans fresh
      split at made
      · cases (still _).symm.trans made
      · rename_i handled
        refine handleUtMetadata_created (still _) handled (Eq.trans ?_ made)
        unfold ExtendedPeer.handleUploadOnly ExtendedPeer.handleReqq
        split <;> split <;> rfl
  · cases fresh.symm.trans made

namespace MetadataEvent

theorem safe_iff (size : Int32) (allocated : AllocatedFor (UTMetaData.castUint32 size.toInt) u) (e : MetadataEvent) :
    Safe qt u e ↔ Harmless qt size u e := by
  obtain ⟨small,sign⟩ := reported_small size
  cases e with
  | loaded metaData => exact Iff.rfl
  | packet p =>
      have changes := handled_changes qt u p
      constructor
      · intro safe
        refine ⟨(handlePacket_isSome qt u p).mp safe.interpreted,fun negative => ?_⟩
        rcases changes with ⟨none,_⟩ | ⟨w,d,d',piece,pieceData,some_write,there,_,copied⟩
        · exact none
        · have inside := (copied_inside small (allocated d there) copied).mp (safe.inside w some_write)
          exact absurd negative (sign.mp inside)
      · rintro ⟨notList,positive⟩
        refine ⟨(handlePacket_isSome qt u p).mpr notList,handlePacket_other qt u p notList,fun w there => ?_⟩
        rcases changes with ⟨none,_⟩ | ⟨w',d,d',piece,pieceData,some_write,loading,_,copied⟩
        · cases none.symm.trans there
        · obtain rfl := Option.some.inj (some_write.symm.trans there)
          refine (copied_inside small (allocated d loading) copied).mpr (sign.mpr fun negative => ?_)
          cases (positive negative).symm.trans there

theorem step_allocated (size : Int32) (allocated : AllocatedFor (UTMetaData.castUint32 size.toInt) u) (e : MetadataEvent)
    (harmless : Harmless qt size u e) : AllocatedFor (UTMetaData.castUint32 size.toInt) (step qt u e) := by
  obtain ⟨small,sign⟩ := reported_small size
  cases e with
  | loaded metaData => exact allocated
  | packet p =>
      rcases handled_changes qt u p with ⟨_,same⟩ | ⟨w,d,d',piece,pieceData,some_write,there,after,copied⟩
      · intro d there
        exact allocated d (same.symm.trans there)
      · intro d'' there'
        obtain rfl := Option.some.inj (after.symm.trans there')
        refine copied_allocated (sign.mpr fun negative => ?_) (allocated d there) copied
        cases (harmless.2 negative).symm.trans some_write

theorem safe_iff_harmless (qt : QtNumber) (memory : Nat → UInt8) (metaData : Option (List UInt8)) (size : Int32) (events : List MetadataEvent) :
    Along (step qt) (Safe qt) (reporting memory metaData size) events ↔
      Along (step qt) (Harmless qt size) (reporting memory metaData size) events := by
  have every : Along (step qt) (fun _ _ => True) (reporting memory metaData size) events := Along.always (fun _ _ => trivial) _ _
  refine every.congr (reporting_allocated memory metaData size) ?_ ?_
  · intro u e allocated _
    exact safe_iff size allocated e
  · intro u e allocated _ harmless
    exact step_allocated size allocated e harmless

def emptyList : QByteArray := ⟨ascii "le",by decide⟩

-- The last piece, of one byte, of 4294950913 bytes of metadata.
def lastByte : QByteArray := ⟨ascii "d8:msg_typei1e5:piecei262143eex",by decide⟩

-- A list is used as a dictionary; and of metadata of -16383 bytes, one byte is written far
-- beyond the empty array.
set_option maxRecDepth 4000 in
theorem unsafe_packets :
    ¬Along (step QtNumber.plain) (Safe QtNumber.plain) (reporting (fun _ => 0) none 3) [.packet emptyList] ∧
      (reporting (fun _ => 0) none (-16383)).write QtNumber.plain lastByte = some ⟨4294950912,1,0⟩ ∧
      ¬Along (step QtNumber.plain) (Safe QtNumber.plain) (reporting (fun _ => 0) none (-16383)) [.packet lastByte] := by
  have write : (reporting (fun _ => 0) none (-16383)).write QtNumber.plain lastByte = some ⟨4294950912,1,0⟩ := by
    rfl
  refine ⟨?_,write,?_⟩
  · intro along
    have interpreted := along.1.interpreted
    revert interpreted
    decide +kernel
  · intro along
    have inside := along.1.inside _ write
    revert inside
    decide

end MetadataEvent

end Safety

end KtorrentStream.Peer
