import KtorrentStream.Lib.MarkedSum
import KtorrentStream.Download.PieceBounds
set_option autoImplicit true

namespace KtorrentStream.Download.ChunkDownload
open KtorrentStream.Lib KtorrentStream.Util KtorrentStream.Diskio

variable {cd cd' : ChunkDownload σ H} {sha : Sha1 σ H} {peers : Peers} {now : Nat} {cache : Cache} {p : Piece} {index size : Nat}

theorem bytesDownloaded_sum (cd : ChunkDownload σ H) :
    cd.bytesDownloaded = markedSum cd.pieceLen cd.pieces.get cd.totalPiecesNumber := markedSum_filter

theorem SameStore.bytes (same : SameStore cd cd') : cd'.bytesDownloaded = cd.bytesDownloaded := by
  obtain ⟨_,_,_,_,rfl⟩ := same
  rfl

theorem new_bytes (sha : Sha1 σ H) (index size : Nat) : (new sha index size).bytesDownloaded = 0 := by
  rw [bytesDownloaded_sum]
  exact markedSum_none fun i _ => BitSet.new_get _ i

-- A ChunkDownload of its chunk, with a bit for each piece.
structure Whole (sha : Sha1 σ H) (index size : Nat) (cd : ChunkDownload σ H) : Prop where
  chunk : cd.SameChunk (new sha index size)
  bits : cd.pieces.numBits = cd.totalPiecesNumber

theorem new_whole (sha : Sha1 σ H) (index size : Nat) : Whole sha index size (new sha index size) := ⟨⟨rfl,rfl,rfl,rfl⟩,rfl⟩

theorem SameChunk.symm (same : SameChunk cd cd') : SameChunk cd' cd :=
  ⟨same.index.symm,same.size.symm,same.total.symm,same.lastSize.symm⟩

theorem Whole.sameStore (whole : Whole sha index size cd) (same : SameStore cd cd') : Whole sha index size cd' := by
  refine ⟨same.chunk.symm.trans whole.chunk,?_⟩
  obtain ⟨_,_,_,_,rfl⟩ := same
  exact whole.bits

theorem pieces_sum (size : Nat) : ∑ k ∈ Finset.range (numPieces size),
    (if k = numPieces size - 1 then if size % maxPieceLen ≠ 0 then size % maxPieceLen else maxPieceLen else maxPieceLen) = size := by
  cases count : numPieces size with
  | zero =>
    unfold numPieces maxPieceLen at count
    simp
    split at count <;> omega
  | succ n =>
    have before : ∑ k ∈ Finset.range n, (if k = n then if size % maxPieceLen ≠ 0 then size % maxPieceLen else maxPieceLen
        else maxPieceLen) = n * maxPieceLen := by
      rw [Finset.sum_const_nat fun k member => if_neg (Nat.ne_of_lt (Finset.mem_range.mp member)),Finset.card_range]
    rw [Finset.sum_range_succ,Nat.add_sub_cancel,before,if_pos rfl]
    unfold numPieces maxPieceLen at count
    unfold maxPieceLen
    split at count
    · rename_i rest
      rw [if_pos rest]
      omega
    · rename_i rest
      rw [if_neg rest]
      omega

theorem Whole.bytes_all (whole : Whole sha index size cd) (all : ∀ k < cd.totalPiecesNumber, cd.pieces.get k = true) :
    cd.bytesDownloaded = size := by
  have total : cd.totalPiecesNumber = numPieces size := whole.chunk.total.symm
  have last : cd.lastSize = if size % maxPieceLen ≠ 0 then size % maxPieceLen else maxPieceLen := whole.chunk.lastSize.symm
  rw [bytesDownloaded_sum,markedSum_all all]
  simp only [pieceLen,total,last]
  exact pieces_sum size

-- A piece is needed exactly when it is accepted, and then its bytes are counted.
theorem pieceReceived_bytes (whole : Whole sha index size cd) (accepted : cd.accepts p = true) :
    (cd.pieceReceived sha peers now cache p).isNeeded = true ∧
      (cd.pieceReceived sha peers now cache p).cd.bytesDownloaded = cd.bytesDownloaded + p.len ∧
      Whole sha index size (cd.pieceReceived sha peers now cache p).cd ∧
      ∀ k, (cd.pieceReceived sha peers now cache p).cd.pieces.get k =
        if p.off / maxPieceLen = k then true else cd.pieces.get k := by
  obtain ⟨q,cache',pd,_,_,_,_,_,result⟩ := pieceReceived_accepted sha peers now cache accepted
  obtain ⟨inChunk,missing,len⟩ := (accepts_iff p).mp accepted
  have chunk : cd.SameChunk (cd.pieceReceived sha peers now cache p).cd := pieceReceived_chunk cd
  obtain ⟨needed,pieces,_⟩ := stored_keeps (cd.markDownloaded p q) sha peers now
    {cache'.fill q pd p.data with written := cache.written ++ [(cd.index,p.off,p.data)]} p
  rw [← result] at needed pieces
  have marked : ∀ k, (cd.pieceReceived sha peers now cache p).cd.pieces.get k =
      if p.off / maxPieceLen = k then true else cd.pieces.get k := by
    intro k
    rw [pieces]
    show (cd.pieces.set _ true).get k = _
    rw [BitSet.set_get,whole.bits]
    simp [inChunk]
  refine ⟨needed,?_,⟨chunk.symm.trans whole.chunk,?_⟩,marked⟩
  · have same : (cd.pieceReceived sha peers now cache p).cd.pieceLen = cd.pieceLen := by
      funext k
      rw [pieceLen,pieceLen,chunk.total,chunk.lastSize]
    rw [bytesDownloaded_sum,bytesDownloaded_sum,chunk.total,same,len]
    refine markedSum_turnedOn inChunk missing ?_ ?_
    · rw [marked,if_pos rfl]
    · intro k other
      rw [marked,if_neg (Ne.symm other)]
  · rw [pieces,chunk.total]
    exact (BitSet.set_numBits _ _ _).trans whole.bits

-- The current_chunks file

theorem loadPieces_store {cd cd' : ChunkDownload σ H} {cache cache' : Cache} {file file' : File} (count : Nat)
    (loaded : loadPieces count cd cache file = some (cd',cache',file')) : cd'.pieces = cd.pieces ∧ cd.SameChunk cd' := by
  induction count generalizing cd cache file with
  | zero =>
    cases loaded
    exact ⟨rfl,rfl,rfl,rfl,rfl⟩
  | succ count ih =>
    unfold loadPieces at loaded
    split at loaded
    · cases loaded
    · rename_i cd₁ _ _ first
      have one : cd₁.pieces = cd.pieces ∧ cd.SameChunk cd₁ := by
        unfold loadPiece at first
        split at first
        · cases first
        · dsimp only at first
          split at first
          · cases first
          · split at first
            · obtain ⟨_,_,same⟩ := Option.map_eq_some_iff.mp first
              cases same
              exact ⟨rfl,rfl,rfl,rfl,rfl⟩
            · cases first
              exact ⟨rfl,rfl,rfl,rfl,rfl⟩
      obtain ⟨pieces,chunk⟩ := ih loaded
      exact ⟨pieces.trans one.1,one.2.trans chunk⟩

theorem loaded_store (sha : Sha1 σ H) (cd : ChunkDownload σ H) (cache : Cache) :
    (cd.loaded sha true cache).1.pieces = cd.pieces ∧ cd.SameChunk (cd.loaded sha true cache).1 := by
  unfold loaded
  have chunk := updateHash_chunk sha cache {cd with numPiecesInHash := 0}
  cases hashed : {cd with numPiecesInHash := 0}.updateHash sha cache with
  | mk cd₁ cache₁ =>
    have pieces : cd.pieces = cd₁.pieces := congrArg (fun s : ChunkDownload σ H × Cache => s.1.pieces) hashed
    rw [hashed] at chunk
    rw [if_pos rfl]
    dsimp only
    split <;> exact ⟨pieces.symm,chunk.index,chunk.size,chunk.total,chunk.lastSize⟩

theorem load_whole {numBits : Nat} {cd cd' : ChunkDownload σ H} {cache cache' : Cache} {file file' : File} (whole : Whole sha index size cd)
    (loaded : cd.load sha numBits true cache file = some (cd',cache',file')) : Whole sha index size cd' := by
  unfold load at loaded
  split at loaded
  · cases loaded
  · dsimp only at loaded
    split at loaded
    · cases loaded
    · split at loaded
      · cases loaded
      · split at loaded
        · cases loaded
        · rename_i cd₁ _ _ read
          obtain ⟨pieces,chunk⟩ := loadPieces_store _ read
          have same : cd.SameChunk cd₁ := ⟨chunk.index,chunk.size,chunk.total,chunk.lastSize⟩
          have before : Whole sha index size cd₁ := by
            refine ⟨same.symm.trans whole.chunk,?_⟩
            rw [pieces,same.total]
            rfl
          cases loaded
          obtain ⟨kept,after⟩ := loaded_store sha cd₁ _
          exact ⟨after.symm.trans before.chunk,by rw [kept,before.bits,after.total]⟩

end KtorrentStream.Download.ChunkDownload
