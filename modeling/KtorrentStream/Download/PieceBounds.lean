import KtorrentStream.Download.GrabCount
set_option autoImplicit true

namespace KtorrentStream.Download
open KtorrentStream.Lib KtorrentStream.Util KtorrentStream.Diskio

namespace ChunkDownload

variable {cd : ChunkDownload σ H} {cache : Cache} {sha : Sha1 σ H}

theorem savePiece_written (cache : Cache) (p : Nat) : (cache.savePiece p).written = cache.written := by
  unfold Cache.savePiece
  split
  · rfl
  · split <;> rfl

theorem loadPiece_written (cache : Cache) (chunk off len : Nat) : (cache.loadPiece chunk off len).2.written = cache.written := by
  unfold Cache.loadPiece
  split <;> rfl

theorem hashPiece_written (cd : ChunkDownload σ H) (sha : Sha1 σ H) (s : σ × Cache) (i : Nat) :
    (cd.hashPiece sha s i).2.written = s.2.written := by
  unfold hashPiece
  cases cd.pieceData.getD i none with
  | some p =>
    dsimp only
    split
    · rfl
    · exact savePiece_written s.2 p
  | none =>
    have loaded := loadPiece_written s.2 cd.index (i * maxPieceLen) (cd.pieceLen i)
    dsimp only [Cache.getPiece]
    rw [if_pos rfl]
    split
    · exact loaded
    · exact (savePiece_written _ _).trans loaded

theorem updateHash_written (cd : ChunkDownload σ H) (sha : Sha1 σ H) (cache : Cache) :
    (cd.updateHash sha cache).2.written = cache.written := by
  unfold updateHash
  dsimp only
  exact foldl_fixed (f := fun s : σ × Cache => s.2.written) (hashPiece_written cd sha) _ (cd.hashState,cache)

theorem stored_keeps (cd : ChunkDownload σ H) (sha : Sha1 σ H) (peers : Peers) (now : Nat) (cache : Cache) (p : Piece) :
    (cd.stored sha peers now cache p).isNeeded = true ∧ (cd.stored sha peers now cache p).cd.pieces = cd.pieces ∧
      (cd.stored sha peers now cache p).cache.written = cache.written := by
  unfold stored
  have first : ∃ cd1 peers1, (if cd.pdown.length > 1 then cd.endgameCancel peers p else (cd,peers)) = (cd1,peers1) ∧
      SameStore cd cd1 := by
    split
    · exact ⟨_,_,rfl,endgameCancel_store cd⟩
    · exact ⟨_,_,rfl,.refl cd⟩
  obtain ⟨cd1,peers1,cancelled,same⟩ := first
  have pieces : cd1.pieces = cd.pieces := by
    obtain ⟨_,_,_,_,rfl⟩ := same
    rfl
  rw [cancelled]
  dsimp only
  have written := updateHash_written cd1 sha cache
  cases hashed : cd1.updateHash sha cache with
  | mk cd2 cache2 =>
    rw [hashed] at written
    have hashedPieces : cd1.pieces = cd2.pieces := congrArg (fun s : ChunkDownload σ H × Cache => s.1.pieces) hashed
    dsimp only
    split
    · exact ⟨rfl,hashedPieces.symm.trans pieces,written⟩
    · have sent : (cd2.sendRequests peers1 now).1.pieces = cd2.pieces := by
        obtain ⟨_,_,_,_,same⟩ := sendRequests_store cd2 peers1 now
        rw [same]
      exact ⟨rfl,sent.trans (hashedPieces.symm.trans pieces),written⟩

theorem piece_inside (sha : Sha1 σ H) (index : Nat) {size k : Nat} (inChunk : k < numPieces size) :
    k * maxPieceLen + (new sha index size).pieceLen k ≤ size := by
  show k * maxPieceLen + (if k = numPieces size - 1 then (if size % maxPieceLen ≠ 0 then size % maxPieceLen else maxPieceLen)
    else maxPieceLen) ≤ size
  unfold numPieces maxPieceLen at *
  by_cases whole : size % 16384 = 0
  · simp only [whole,ne_eq,not_true_eq_false,if_false] at inChunk ⊢
    split <;> omega
  · simp only [whole,ne_eq,not_false_eq_true,if_true] at inChunk ⊢
    split <;> omega

end ChunkDownload

namespace Downloader
open ChunkDownload

variable {sha : Sha1 σ H} {d : Downloader σ H}

theorem erase_valid (valid : d.Valid sha) (i : Nat) : (d.erase i).Valid sha := by
  intro j cd found
  have there : (d.downloadingChunks.erase i).find j = some cd := found
  rw [PtrMap.find_erase] at there
  split at there
  · cases there
  · exact valid j cd there

theorem valid_preserved [DecidableEq H] (valid : d.Valid sha) (event : Event) : (d.perform sha event).Valid sha := by
  have empty : ∀ i (cd : ChunkDownload σ H), (PtrMap.empty : PtrMap (ChunkDownload σ H)).find i ≠ some cd := fun i cd found => by
    cases found
  cases kind : event.deletes with
  | false =>
    have moves : Moves (fun _ => True) sha d (d.perform sha event) := perform_moves sha d event kind fun _ _ => trivial
    exact moves.valid valid
  | true =>
    cases event with
    | addPieceDownloader pd peer => exact valid
    | removePieceDownloader pd =>
      have released : Moves (fun _ => True) sha d (d.visitAll fun cd peers => cd.release peers pd) := releaseLoop_moves pd d
      exact released.valid valid
    | stopAndReassign now pd i => exact stopAndReassign_valid valid now pd i
    | chunkReady i ok =>
      cases ok with
      | false => exact valid
      | true => exact erase_valid ((chunkReady_moves sha d i).valid valid) i
    | pause => exact fun i cd found => absurd found (empty i cd)
    | clearDownloads => exact fun i cd found => absurd found (empty i cd)
    | update | piece | rejected | excluded | dataChecked | peer | completed => cases kind

theorem reached_valid [DecidableEq H] {allowed : Downloader σ H → Event → Prop} (reached : Reached sha allowed d) : d.Valid sha := by
  induction reached with
  | new new => exact new.valid
  | step _ event _ ih => exact valid_preserved ih event

-- The PIECE message reaches a ChunkDownload that takes it.
def Accepted (d : Downloader σ H) (paused : Bool) (pd : Nat) (packet : List UInt8) : Prop :=
  paused = false ∧ 9 ≤ packet.length ∧ d.completed = false ∧
    ∃ cd, d.downloadingChunks.find (readUint32 packet 1) = some cd ∧ cd.accepts (pieceOf pd packet) = true

-- What the ChunkDownload of the chunk makes of the message.
def delivered (sha : Sha1 σ H) (d : Downloader σ H) (now pd : Nat) (packet : List UInt8) (cd : ChunkDownload σ H) : Received σ H :=
  cd.pieceReceived sha (d.peers.modify pd (·.piece (pieceOf pd packet))) now d.cache (pieceOf pd packet)

section
variable [DecidableEq H] {packet : List UInt8} {now pd : Nat} {saved paused : Bool}

-- What handlePiece does, case by case.

theorem handlePiece_ignored (ignored : ¬ (paused = false ∧ 9 ≤ packet.length)) : d.handlePiece sha now saved paused pd packet = d := by
  unfold handlePiece
  split
  · rfl
  · rename_i running
    rw [if_pos]
    by_contra long
    exact ignored ⟨by simpa using running,by omega⟩

theorem handlePiece_threw (running : paused = false) (long : 9 ≤ packet.length) (throws : d.mapThrows (pieceOf pd packet) = true) :
    d.handlePiece sha now saved paused pd packet =
      {d with peers := d.peers.modify pd (·.piece (pieceOf pd packet))}.visit (readUint32 packet 1) fun cd peers =>
        ({cd with dstatus := cd.statusRemoved (pieceOf pd packet)},peers) := by
  unfold handlePiece
  rw [running,if_neg Bool.false_ne_true,if_neg (by omega)]
  exact if_pos throws

theorem handlePiece_received (running : paused = false) (long : 9 ≤ packet.length) (safe : d.mapThrows (pieceOf pd packet) = false) :
    d.handlePiece sha now saved paused pd packet =
      let d := {d with peers := d.peers.modify pd (·.piece (pieceOf pd packet))}.pieceReceived sha now saved (pieceOf pd packet)
      {d with peers := d.peers.modify pd (·.update now)} := by
  unfold handlePiece
  rw [running,if_neg Bool.false_ne_true,if_neg (by omega)]
  exact if_neg (Bool.not_eq_true _ ▸ safe)

theorem handlePiece_delivered {cd : ChunkDownload σ H} (running : paused = false) (long : 9 ≤ packet.length) (incomplete : d.completed = false)
    (found : d.downloadingChunks.find (readUint32 packet 1) = some cd) (safe : d.mapThrows (pieceOf pd packet) = false) :
    d.handlePiece sha now saved paused pd packet =
      let r := delivered sha d now pd packet cd
      let d' := {d with
        downloadingChunks := d.downloadingChunks.modify (readUint32 packet 1) fun _ => r.cd
        peers := r.peers.modify pd (·.update now)
        cache := r.cache}
      if r.complete then (d'.counted r.cd (pieceOf pd packet) r.isNeeded (d.finished r.cd saved)).erase (readUint32 packet 1)
      else d'.counted r.cd (pieceOf pd packet) r.isNeeded true := by
  rw [handlePiece_received running long safe]
  unfold Downloader.pieceReceived delivered
  dsimp only
  rw [incomplete,if_neg Bool.false_ne_true,show d.downloadingChunks.find (pieceOf pd packet).index = some cd from found]
  dsimp only
  split <;> rfl

-- What reaches no ChunkDownload is counted as unnecessary at most.
theorem handlePiece_by {P : Downloader σ H → Prop} (same : P d)
    (threw : paused = false → 9 ≤ packet.length → d.mapThrows (pieceOf pd packet) = true → P (d.handlePiece sha now saved paused pd packet))
    (elsewhere : ∀ peers total finished,
      P {d with peers := peers,totalUnnecessaryData := total,unnecessaryDataChunkFinished := finished})
    (reaches : paused = false → 9 ≤ packet.length → d.completed = false → d.mapThrows (pieceOf pd packet) = false →
      ∀ cd, d.downloadingChunks.find (readUint32 packet 1) = some cd → P (d.handlePiece sha now saved paused pd packet)) :
    P (d.handlePiece sha now saved paused pd packet) := by
  by_cases arrives : paused = false ∧ 9 ≤ packet.length
  · obtain ⟨running,long⟩ := arrives
    cases throws : d.mapThrows (pieceOf pd packet) with
    | true => exact threw running long throws
    | false =>
      by_cases completed : d.completed = true
      · rw [handlePiece_received running long throws]
        unfold Downloader.pieceReceived
        dsimp only
        rw [if_pos completed]
        exact elsewhere _ _ _
      · cases found : d.downloadingChunks.find (readUint32 packet 1) with
        | none =>
          rw [handlePiece_received running long throws]
          unfold Downloader.pieceReceived
          dsimp only
          rw [if_neg completed,show d.downloadingChunks.find (pieceOf pd packet).index = none from found]
          exact elsewhere _ _ _
        | some cd => exact reaches running long ((Bool.not_eq_true _).mp completed) throws cd found
  · rw [handlePiece_ignored arrives]
    exact same

end

theorem visit_frame (d : Downloader σ H) (i : Nat) (f : ChunkDownload σ H → Peers → ChunkDownload σ H × Peers) :
    (d.visit i f).bytesDownloaded = d.bytesDownloaded ∧ (d.visit i f).chunkSize = d.chunkSize ∧
      (d.visit i f).cache = d.cache := by
  unfold visit
  split <;> exact ⟨rfl,rfl,rfl⟩

-- Nothing is written, or the payload is written over the piece that is marked.
def WritesInside [DecidableEq H] (sha : Sha1 σ H) (d : Downloader σ H) (now : Nat) (saved paused : Bool) (pd : Nat) (packet : List UInt8) : Prop :=
  (d.handlePiece sha now saved paused pd packet).cache.written = d.cache.written ∨
    ∃ cd k, d.downloadingChunks.find (readUint32 packet 1) = some cd ∧ k < cd.totalPiecesNumber ∧
      (delivered sha d now pd packet cd).cd.pieces = cd.pieces.set k true ∧
      (d.handlePiece sha now saved paused pd packet).cache.written =
        d.cache.written ++ [(readUint32 packet 1,k * maxPieceLen,packet.drop 9)] ∧
      (packet.drop 9).length = cd.pieceLen k ∧ k * maxPieceLen + (packet.drop 9).length ≤ cd.size

theorem handlePiece_refused [DecidableEq H] {packet : List UInt8}
    (refused : Accepted d paused pd packet → d.mapThrows (pieceOf pd packet) = true) (now : Nat) (saved : Bool) :
    (d.handlePiece sha now saved paused pd packet).cache.written = d.cache.written := by
  refine handlePiece_by (P := fun d' => d'.cache.written = d.cache.written) rfl (fun running long throws => ?_) (fun _ _ _ => rfl)
    fun running long incomplete safe cd found => ?_
  · rw [handlePiece_threw running long throws]
    exact congrArg Cache.written (visit_frame _ _ _).2.2
  · have rejected : cd.accepts (pieceOf pd packet) = false := by
      by_contra accepted
      rw [Bool.not_eq_false] at accepted
      rw [refused ⟨running,long,incomplete,cd,found,accepted⟩] at safe
      cases safe
    rw [handlePiece_delivered running long incomplete found safe,delivered,pieceReceived_rejected rejected]
    rfl

theorem handlePiece_accepted [DecidableEq H] {packet : List UInt8} (running : paused = false) (long : 9 ≤ packet.length)
    (incomplete : d.completed = false) (found : d.downloadingChunks.find (readUint32 packet 1) = some cd)
    (safe : d.mapThrows (pieceOf pd packet) = false) (now : Nat) (saved : Bool) :
    (d.handlePiece sha now saved paused pd packet).cache = (delivered sha d now pd packet cd).cache := by
  rw [handlePiece_delivered running long incomplete found safe]
  dsimp only
  split <;> rfl

-- A message that is taken: its piece is marked, and the payload is written where the
-- message says.
theorem written_of_accepted [DecidableEq H] {packet : List UInt8} (sha : Sha1 σ H) (reached : Reached sha (fun _ _ => True) d) (now : Nat)
    (saved : Bool) (accepted : Accepted d paused pd packet) (safe : d.mapThrows (pieceOf pd packet) = false) :
    ∃ cd, (d.downloadingChunks.find (readUint32 packet 1) = some cd ∧ cd.accepts (pieceOf pd packet) = true ∧
        (delivered sha d now pd packet cd).cd.pieces = cd.pieces.set (readUint32 packet 5 / maxPieceLen) true) ∧
      (d.handlePiece sha now saved paused pd packet).cache.written =
        d.cache.written ++ [(readUint32 packet 1,readUint32 packet 5,packet.drop 9)] := by
  obtain ⟨running,long,incomplete,cd,found,accepts⟩ := accepted
  have whole := reached_valid reached _ cd found
  obtain ⟨q,cache',piece,_,_,_,_,_,result⟩ := pieceReceived_accepted sha
    (d.peers.modify pd (·.piece (pieceOf pd packet))) now d.cache accepts
  obtain ⟨_,pieces,log⟩ := stored_keeps (cd.markDownloaded (pieceOf pd packet) q) sha
    (d.peers.modify pd (·.piece (pieceOf pd packet))) now
    {cache'.fill q piece (pieceOf pd packet).data with
      written := d.cache.written ++ [(cd.index,(pieceOf pd packet).off,(pieceOf pd packet).data)]} (pieceOf pd packet)
  rw [← result] at pieces log
  refine ⟨cd,⟨found,accepts,pieces⟩,?_⟩
  rw [handlePiece_accepted running long incomplete found safe now saved,show readUint32 packet 1 = cd.index from whole.index]
  exact log

-- What is taken and written inside its piece begins where a piece begins.
theorem WritesInside.aligned [DecidableEq H] (inside : WritesInside sha d now saved paused pd packet)
    (reached : Reached sha (fun _ _ => True) d) (accepted : Accepted d paused pd packet)
    (safe : d.mapThrows (pieceOf pd packet) = false) : readUint32 packet 5 % maxPieceLen = 0 := by
  obtain ⟨_,_,written⟩ := written_of_accepted sha reached now saved accepted safe
  rcases inside with same | ⟨_,k,_,_,_,there,_,_⟩
  · rw [written] at same
    have longer := congrArg List.length same
    rw [List.length_append,List.length_singleton] at longer
    omega
  · rw [written] at there
    have entry := List.append_cancel_left there
    simp only [List.cons.injEq,Prod.mk.injEq] at entry
    rw [entry.1.2.1]
    exact Nat.mul_mod_left k maxPieceLen

-- A message is written inside its piece exactly when it is not taken, its offset is
-- the start of a piece, or the file ends before the piece.
theorem written_inside_iff [DecidableEq H] (sha : Sha1 σ H) (d : Downloader σ H) (reached : Reached sha (fun _ _ => True) d)
    (now : Nat) (saved paused : Bool) (pd : Nat) (packet : List UInt8) :
    WritesInside sha d now saved paused pd packet ↔
      (Accepted d paused pd packet → readUint32 packet 5 % maxPieceLen = 0 ∨ d.mapThrows (pieceOf pd packet) = true) := by
  by_cases taken : Accepted d paused pd packet ∧ d.mapThrows (pieceOf pd packet) = false
  · obtain ⟨accepted,safe⟩ := taken
    refine ⟨fun inside _ => .inl (inside.aligned reached accepted safe),fun condition => ?_⟩
    obtain ⟨cd,⟨found,accepts,pieces⟩,written⟩ := written_of_accepted sha reached now saved accepted safe
    have whole := reached_valid reached _ cd found
    have aligned : readUint32 packet 5 % maxPieceLen = 0 := (condition accepted).resolve_right (by rw [safe]; exact Bool.false_ne_true)
    have start : readUint32 packet 5 = readUint32 packet 5 / maxPieceLen * maxPieceLen :=
      (Nat.div_mul_cancel (Nat.dvd_of_mod_eq_zero aligned)).symm
    obtain ⟨inChunk,_,len⟩ := (accepts_iff _).mp accepts
    have sameLen : cd.pieceLen (readUint32 packet 5 / maxPieceLen) =
        (ChunkDownload.new sha (readUint32 packet 1) (d.chunkSize (readUint32 packet 1)).toNat).pieceLen
          (readUint32 packet 5 / maxPieceLen) := by
      unfold pieceLen
      rw [whole.total,whole.lastSize]
    refine .inr ⟨cd,readUint32 packet 5 / maxPieceLen,found,inChunk,pieces,?_,len,?_⟩
    · rw [← start]
      exact written
    · rw [show (packet.drop 9).length = _ from len]
      show _ + cd.pieceLen (readUint32 packet 5 / maxPieceLen) ≤ _
      rw [sameLen,← show (d.chunkSize (readUint32 packet 1)).toNat = cd.size from whole.size]
      refine piece_inside sha (readUint32 packet 1) ?_
      have total : numPieces (d.chunkSize (readUint32 packet 1)).toNat = cd.totalPiecesNumber := whole.total
      rw [total]
      exact inChunk
  · have refused : Accepted d paused pd packet → d.mapThrows (pieceOf pd packet) = true := fun accepted => by
      by_contra safe
      exact taken ⟨accepted,(Bool.not_eq_true _).mp safe⟩
    exact ⟨fun _ accepted => .inr (refused accepted),fun _ => .inl (handlePiece_refused refused now saved)⟩

-- One chunk of two pieces, that is a file of its own.
def twoPieces : Downloader Unit Unit :=
  ({noChunks with
    chunkSize := fun _ => 32768
    cache := {noChunks.cache with chunkSize := 32768,fileEnd := fun _ => 32768}}.perform anySha
      (.addPieceDownloader 7 connectedPeer)).perform anySha (.update 0 (fun _ => false) [some 0])

theorem twoPieces_reached : Reached anySha (fun _ _ => True) twoPieces :=
  .step (.step (.new ⟨(fun i cd found => by cases found),(fun i cd found => by cases found),rfl⟩)
    (.addPieceDownloader 7 connectedPeer) trivial) (.update 0 (fun _ => false) [some 0]) trivial

-- 16384 bytes for chunk 0 at this offset.
def pieceMessage (offset : UInt8) : List UInt8 := [7,0,0,0,0,0,0,0,offset] ++ List.replicate 16384 5

theorem pieceMessage_index (offset : UInt8) : readUint32 (pieceMessage offset) 1 = 0 := by
  show 0 * 16777216 + 0 * 65536 + 0 * 256 + 0 = 0
  rfl

theorem pieceMessage_offset (offset : UInt8) : readUint32 (pieceMessage offset) 5 = offset.toNat := by
  show 0 * 16777216 + 0 * 65536 + 0 * 256 + offset.toNat = offset.toNat
  omega

theorem pieceMessage_len (offset : UInt8) : (pieceOf 7 (pieceMessage offset)).len = 16384 := by
  have payload : (pieceMessage offset).drop 9 = List.replicate 16384 5 :=
    @List.drop_left' _ [7,0,0,0,0,0,0,0,offset] (List.replicate 16384 5) 9 rfl
  show ((pieceMessage offset).drop 9).length = 16384
  rw [payload,List.length_replicate]

theorem pieceMessage_taken (offset : UInt8) : ∃ cd, twoPieces.downloadingChunks.find 0 = some cd ∧
    cd.accepts (pieceOf 7 (pieceMessage offset)) = true := by
  have small : offset.toNat < 256 := offset.toNat_lt
  have first : (pieceOf 7 (pieceMessage offset)).off / maxPieceLen = 0 := by
    rw [show (pieceOf 7 (pieceMessage offset)).off = offset.toNat from pieceMessage_offset offset,maxPieceLen]
    omega
  refine ⟨_,rfl,(accepts_iff _).mpr ⟨?_,?_,?_⟩⟩
  · rw [first]
    decide
  · rw [first]
    rfl
  · rw [first,pieceMessage_len]
    rfl

theorem pieceMessage_accepted (offset : UInt8) : Accepted twoPieces false 7 (pieceMessage offset) := by
  obtain ⟨cd,found,accepts⟩ := pieceMessage_taken offset
  have long : 9 ≤ (pieceMessage offset).length := by
    unfold pieceMessage
    rw [List.length_append]
    exact Nat.le_add_right 9 _
  refine ⟨rfl,long,rfl,cd,?_,accepts⟩
  rw [pieceMessage_index]
  exact found

theorem written_inside_first : Accepted twoPieces false 7 (pieceMessage 0) ∧
    WritesInside anySha twoPieces 0 true false 7 (pieceMessage 0) :=
  ⟨pieceMessage_accepted 0,
    (written_inside_iff anySha twoPieces twoPieces_reached 0 true false 7 _).mpr fun _ => .inl (by rw [pieceMessage_offset]; rfl)⟩

-- With offset 1 it is still piece 0 of the chunk, and the first byte of piece 1 is
-- written.
theorem offset_one_outside : ¬ ∀ (d : Downloader Unit Unit), Reached anySha (fun _ _ => True) d →
    ∀ (now : Nat) (saved paused : Bool) (pd : Nat) (packet : List UInt8), WritesInside anySha d now saved paused pd packet := by
  intro claimed
  have inside := claimed twoPieces twoPieces_reached 0 true false 7 (pieceMessage 1)
  have safe : twoPieces.mapThrows (pieceOf 7 (pieceMessage 1)) = false := by
    obtain ⟨cd,found,accepts⟩ := pieceMessage_taken 1
    unfold Downloader.mapThrows
    rw [show twoPieces.downloadingChunks.find (pieceOf 7 (pieceMessage 1)).index = some cd from found]
    dsimp only
    rw [accepts,pieceMessage_len,show (pieceOf 7 (pieceMessage 1)).off = 1 from pieceMessage_offset 1]
    rfl
  have aligned := inside.aligned twoPieces_reached (pieceMessage_accepted 1) safe
  rw [pieceMessage_offset] at aligned
  cases aligned

end Downloader

end KtorrentStream.Download
