import KtorrentStream.Download.PieceHash
set_option autoImplicit true

namespace KtorrentStream.Download.ChunkDownload
open KtorrentStream.Util KtorrentStream.Diskio

-- What the work on one chunk of so many bytes leaves of the others: their
-- pieces, and the files outside the chunk.
structure Frame (chunk size : Nat) (cache cache' : Cache) : Prop where
  chunkSize : cache'.chunkSize = cache.chunkSize
  canMap : cache'.canMap = cache.canMap
  fresh : cache'.fresh = cache.fresh
  others : ∀ other, other ≠ chunk → ∀ (q : Nat) (pd : PieceData), Of other cache' q pd ↔ Of other cache q pd
  still : ∀ q ∈ cache.pieceCache, q ∈ cache'.pieceCache
  newer : ∀ other, other ≠ chunk → ∀ q ∈ cache'.pieceCache, ∀ pd : PieceData, Of other cache' q pd → q ∈ cache.pieceCache
  file : ∀ x, x < chunk * cache.chunkSize ∨ chunk * cache.chunkSize + size ≤ x → cache'.file x = cache.file x

variable {chunk size index : Nat}

theorem Frame.refl (chunk size : Nat) (cache : Cache) : Frame chunk size cache cache :=
  ⟨rfl,rfl,rfl,fun _ _ _ _ => Iff.rfl,fun _ member => member,fun _ _ _ member _ _ => member,fun _ _ => rfl⟩

theorem Frame.trans (ab : Frame chunk size a b) (bc : Frame chunk size b c) : Frame chunk size a c where
  chunkSize := bc.chunkSize.trans ab.chunkSize
  canMap := bc.canMap.trans ab.canMap
  fresh := bc.fresh.trans ab.fresh
  others other apart q pd := (bc.others other apart q pd).trans (ab.others other apart q pd)
  still q member := bc.still q (ab.still q member)
  newer other apart q member pd found :=
    ab.newer other apart q (bc.newer other apart q member pd found) pd ((bc.others other apart q pd).mp found)
  file x outside := (bc.file x (by rw [ab.chunkSize]; exact outside)).trans (ab.file x outside)

variable {cd : ChunkDownload σ H} {cache cache' : Cache} {sha : Sha1 σ H} {data : List UInt8}
  {stored : Nat → Option (List UInt8)}

theorem preparePiece_frame (cache : Cache) (chunk off len size : Nat) :
    Frame chunk size cache (cache.preparePiece chunk off len).2 := by
  unfold Cache.preparePiece
  split
  · exact .refl chunk size cache
  · refine ⟨rfl,rfl,rfl,?_,fun _ member => List.mem_cons_of_mem _ member,?_,fun _ _ => rfl⟩
    · intro other apart q pd
      constructor
      · intro found
        rcases of_insertPiece found with old | ⟨_,rfl⟩
        · exact old
        · exact absurd found.2.symm apart
      · intro found
        exact ⟨insertPiece_older found.1,found.2⟩
    · intro other apart q member pd found
      rcases List.mem_cons.mp member with rfl | old
      · have new := found.1
        rw [show (cache.createPiece chunk off len false).2.pieces[cache.pieces.length]? = _ from insertPiece_found _ _] at new
        cases new
        exact absurd found.2.symm apart
      · exact old

theorem poke_outside (outside : x < start ∨ start + data.length ≤ x) : poke file start data x = file x := if_neg (by omega)

theorem fill_frame {pd : PieceData} (found : Of chunk cache p pd) (fits : pd.off + data.length ≤ size) :
    Frame chunk size cache (cache.fill p pd data) := by
  have of : ∀ other, other ≠ chunk → ∀ (q : Nat) (pd' : PieceData),
      Of other (cache.fill p pd data) q pd' ↔ Of other cache q pd' := by
    intro other apart q pd'
    unfold Cache.fill
    split
    · exact Iff.rfl
    · unfold Of
      dsimp only
      rw [List.getElem?_set]
      by_cases same : p = q
      · rw [if_pos same,← same,found.1]
        have inside : p < cache.pieces.length := (List.getElem?_eq_some_iff.mp found.1).1
        rw [if_pos inside]
        constructor
        · rintro ⟨now,own⟩
          cases now
          exact absurd (own.symm.trans found.2) apart
        · rintro ⟨now,own⟩
          cases now
          exact absurd (own.symm.trans found.2) apart
      · rw [if_neg same]
  have cached : (cache.fill p pd data).pieceCache = cache.pieceCache := (fill_pieceCache cache p pd data).1
  refine ⟨(fill_pieceCache cache p pd data).2.2,(fill_pieceCache cache p pd data).2.1,?_,of,?_,?_,?_⟩
  · unfold Cache.fill
    split <;> rfl
  · rw [cached]
    exact fun _ member => member
  · rw [cached]
    exact fun _ _ _ member _ _ => member
  · intro x outside
    unfold Cache.fill
    split
    · apply poke_outside
      unfold Cache.pieceOff
      rw [found.2]
      omega
    · rfl

theorem savePiece_frame {pd : PieceData} (found : Of chunk cache p pd) (fits : pd.off + pd.buf.length ≤ size) :
    Frame chunk size cache (cache.savePiece p) := by
  unfold Cache.savePiece
  rw [found.1]
  dsimp only
  split
  · exact .refl chunk size cache
  · refine ⟨rfl,rfl,rfl,fun _ _ _ _ => Iff.rfl,fun _ member => member,fun _ _ _ member _ _ => member,?_⟩
    intro x outside
    apply poke_outside
    unfold Cache.pieceOff
    rw [found.2]
    omega

-- The pieces of a chunk lie in the chunk.
def Fits (cd : ChunkDownload σ H) : Prop := ∀ i < cd.totalPiecesNumber, i * maxPieceLen + cd.pieceLen i ≤ cd.size

theorem fits_of_chunk (chunk : SameChunk cd (new sha index size)) : cd.Fits := by
  intro i inChunk
  have total : numPieces size = cd.totalPiecesNumber := chunk.total
  have last : (if size % maxPieceLen ≠ 0 then size % maxPieceLen else maxPieceLen) = cd.lastSize := chunk.lastSize
  have whole : size = cd.size := chunk.size
  rw [← total] at inChunk
  unfold pieceLen
  rw [← total,← last,← whole]
  unfold numPieces maxPieceLen at *
  split_ifs at * <;> omega

theorem Tidy.fits {pd : PieceData} (tidy : Tidy cd cache) (fits : cd.Fits) (found : Of cd.index cache p pd) :
    pd.off + pd.len ≤ cd.size := by
  obtain ⟨i,inChunk,off,len⟩ := tidy.aligned p pd found
  rw [off,len]
  exact fits i inChunk

theorem Frame.bytes {pd : PieceData} (frame : Frame chunk size cache cache') (apart : cd.index ≠ chunk)
    (small : size ≤ cache.chunkSize) (whole : cd.size ≤ cache.chunkSize) (tidy : Tidy cd cache) (fits : cd.Fits)
    (found : Of cd.index cache q pd) : cache'.bytes pd = cache.bytes pd := by
  have inside := tidy.fits fits found
  unfold Cache.bytes
  split
  · unfold Cache.pieceOff
    rw [frame.chunkSize,found.2]
    refine Cache.window_congr fun i less => frame.file _ ?_
    rcases Nat.lt_or_gt_of_ne apart with before | after
    · have step : (cd.index + 1) * cache.chunkSize ≤ chunk * cache.chunkSize := Nat.mul_le_mul_right _ before
      rw [Nat.add_mul] at step
      omega
    · have step : (chunk + 1) * cache.chunkSize ≤ cd.index * cache.chunkSize := Nat.mul_le_mul_right _ after
      rw [Nat.add_mul] at step
      omega
  · rfl

theorem Frame.tidy (frame : Frame chunk size cache cache') (apart : cd.index ≠ chunk)
    (inside : ∀ p ∈ cache'.pieceCache, p < cache'.pieces.length) (tidy : Tidy cd cache) : Tidy cd cache' := by
  have of (q : Nat) (pd : PieceData) := frame.others cd.index apart q pd
  exact ⟨fun q pd found => tidy.writeable q pd ((of q pd).mp found),fun q pd found => tidy.sized q pd ((of q pd).mp found),
    fun q pd found => tidy.aligned q pd ((of q pd).mp found),inside,
    fun q member r member' pd pd' found found' => tidy.once q (frame.newer _ apart q member pd found)
      r (frame.newer _ apart r member' pd' found') pd pd' ((of q pd).mp found) ((of r pd').mp found')⟩

theorem Frame.sound (frame : Frame chunk size cache cache') (apart : cd.index ≠ chunk)
    (inside : ∀ p ∈ cache'.pieceCache, p < cache'.pieces.length) (small : size ≤ cache.chunkSize)
    (whole : cd.size ≤ cache.chunkSize) (fits : cd.Fits) (sound : Sound sha cd cache stored) : Sound sha cd cache' stored := by
  have of (q : Nat) (pd : PieceData) := frame.others cd.index apart q pd
  refine ⟨sound.lastSize,sound.bits,sound.counted,sound.clean,sound.downloaded,sound.places,sound.missing,?_,?_,
    frame.tidy apart inside sound.tidy,sound.begun,sound.hashed⟩
  · intro i on
    obtain ⟨data,p,got,place,pd,found,off,bytes⟩ := sound.held i on
    exact ⟨data,p,got,place,pd,(of p pd).mpr found,off,
      (frame.bytes apart small whole sound.tidy fits found).trans bytes⟩
  · intro i on q member pd found off
    exact sound.kept i on q (frame.newer _ apart q member pd found) pd ((of q pd).mp found) off

-- Hashing, and a piece that is received

theorem hashPieces_frame (short : cd.lastSize ≤ maxPieceLen) (fits : cd.Fits) (l : List Nat)
    (downloaded : ∀ i ∈ l, cd.pieces.get i = true) (held : Held cd cache stored) (tidy : Tidy cd cache) (sha : Sha1 σ H)
    (state : σ) : Frame cd.index cd.size cache (l.foldl (cd.hashPiece sha) (state,cache)).2 := by
  induction l generalizing state cache with
  | nil => exact .refl _ _ cache
  | cons i rest ih =>
    have on := downloaded i List.mem_cons_self
    obtain ⟨p,pd,found,here,place,step⟩ := hashPiece_held held on sha state
    obtain ⟨pieces,pieceCache⟩ := savePiece_pieces cache p
    have inside : pd.off + pd.buf.length ≤ cd.size := by
      rw [tidy.sized p pd found]
      exact tidy.fits fits found
    rw [List.foldl_cons,step]
    exact (savePiece_frame found inside).trans (ih (fun j member => downloaded j (List.mem_cons_of_mem _ member))
      (held.savePiece tidy short found here place) (tidy.of_pieces pieces pieceCache) _)

theorem updateHash_frame (sound : Sound sha cd cache stored) (fits : cd.Fits) :
    Frame cd.index cd.size cache (cd.updateHash sha cache).2 := by
  obtain ⟨low,high,all,_⟩ := prefixEnd_spec cd.pieces
    (show cd.totalPiecesNumber ≤ cd.numPiecesInHash + (cd.totalPiecesNumber - cd.numPiecesInHash) by omega) sound.begun.1
  unfold updateHash
  generalize prefixEnd cd.pieces cd.totalPiecesNumber (cd.totalPiecesNumber - cd.numPiecesInHash) cd.numPiecesInHash = nn
    at low high all
  refine hashPieces_frame sound.lastSize fits _ (fun i member => ?_) sound.held sound.tidy sha cd.hashState
  rw [List.mem_range'_1] at member
  exact all i member.1 (by omega)

theorem SameStore.fits (same : SameStore cd cd') (fits : cd.Fits) : cd'.Fits := by
  obtain ⟨_,_,_,_,rfl⟩ := same
  exact fits

theorem stored_frame (sound : Sound sha cd cache stored) (fits : cd.Fits) (peers : Peers) (now : Nat) (p : Piece) :
    Frame cd.index cd.size cache (cd.stored sha peers now cache p).cache := by
  unfold ChunkDownload.stored
  have first : ∃ cd1 peers1, (if cd.pdown.length > 1 then cd.endgameCancel peers p else (cd,peers)) = (cd1,peers1) ∧
      SameStore cd cd1 := by
    split
    · exact ⟨_,_,rfl,endgameCancel_store cd⟩
    · exact ⟨_,_,rfl,.refl cd⟩
  obtain ⟨cd1,peers1,cancelled,same⟩ := first
  have hashed := updateHash_frame (sound.sameStore same) (same.fits fits)
  rw [same.chunk.index,same.chunk.size] at hashed
  rw [cancelled]
  dsimp only
  split
  · exact hashed
  · exact hashed

-- The piece is written inside the chunk, whatever becomes of it.
theorem pieceReceived_frame (sound : Sound sha cd cache stored) (fits : cd.Fits) {p : Piece}
    (aligned : p.off % maxPieceLen = 0) (peers : Peers) (now : Nat) :
    Frame cd.index cd.size cache (cd.pieceReceived sha peers now cache p).cache := by
  cases accepted : cd.accepts p with
  | false =>
    rw [pieceReceived_rejected accepted]
    exact .refl _ _ cache
  | true =>
    obtain ⟨inChunk,_,len⟩ := (accepts_iff p).mp accepted
    have off : p.off = p.off / maxPieceLen * maxPieceLen := by
      unfold maxPieceLen at *
      omega
    obtain ⟨q,cache1,pd,preparing,_,found,here,length,result⟩ := pieceReceived_accepted sha peers now cache accepted
    have first := preparePiece_frame cache cd.index p.off p.len cd.size
    rw [preparing] at first
    rw [len] at preparing
    nth_rewrite 1 [off] at preparing
    have prepared := preparePiece_spec sound.tidy inChunk preparing
    have inside : pd.off + p.data.length ≤ cd.size := by
      rw [show p.data.length = pd.len from length.symm]
      exact prepared.tidy.fits fits found
    have second := fill_frame found inside
    have marked := markDownloaded_sound sound p accepted prepared found (here.trans off)
      (show p.len = pd.len from length.symm) (cache.written ++ [(cd.index,p.off,p.data)])
    have third := stored_frame marked fits peers now p
    rw [result]
    exact (first.trans second).trans
      ⟨third.chunkSize,third.canMap,third.fresh,third.others,third.still,third.newer,third.file⟩

end KtorrentStream.Download.ChunkDownload
