import KtorrentStream.Download.PieceDownloader
import KtorrentStream.Torrent.Metadata
set_option autoImplicit true

namespace KtorrentStream.Download
open KtorrentStream.Util KtorrentStream.Bcodec KtorrentStream.Torrent

-- The chunk size goes to the constructor as a Uint32.
def piecesInChunk (chunkSize : Nat) : Nat := uint32 chunkSize / maxPieceLen

namespace PieceDownloader

def maxChunkDownloads32 (piecesInChunk rate : Nat) : Option Nat :=
  let numExtra := rate / 1024 / 25
  if piecesInChunk ≥ 16 then some (uint32 (1 + uint32 (16 * numExtra) / piecesInChunk))
  else if piecesInChunk = 0 then none
  else some (uint32 (1 + uint32 (16 / piecesInChunk * numExtra)))

def toInt (n : Nat) : Int := if n < 2147483648 then n else (n : Int) - 4294967296

def canDownloadChunk32 (pd : PieceDownloader) : Option Bool :=
  if !pd.peer then some false
  else (maxChunkDownloads32 pd.piecesInChunk pd.downloadRate).map fun most =>
    (decide ((pd.grabbed : Int) < toInt most) || pd.isNearlyDone) && pd.canAddRequest

end PieceDownloader
open PieceDownloader

-- The limits of the peers of a torrent with this chunk size. The Uint32 value is that of
-- getMaxChunkDownloads over all numbers, so nothing overflows.
structure LimitsSafe (chunkSize : Nat) : Prop where
  divides : ∀ rate < 4294967296, (maxChunkDownloads32 (piecesInChunk chunkSize) rate).isSome
  noOverflow : ∀ pd : PieceDownloader, pd.piecesInChunk = piecesInChunk chunkSize → pd.downloadRate < 4294967296 →
    maxChunkDownloads32 pd.piecesInChunk pd.downloadRate = pd.getMaxChunkDownloads
  positive : ∀ rate < 4294967296, ∀ most, maxChunkDownloads32 (piecesInChunk chunkSize) rate = some most → 1 ≤ most
  given : ∀ pd : PieceDownloader, pd.piecesInChunk = piecesInChunk chunkSize → pd.downloadRate < 4294967296 → pd.peer = true →
    pd.grabbed = 0 → pd.canAddRequest = true → pd.canDownloadChunk32 = some true

theorem piecesInChunk_pos (chunkSize : Nat) : 0 < piecesInChunk chunkSize ↔ maxPieceLen ≤ uint32 chunkSize := by
  unfold piecesInChunk
  rw [Nat.div_pos_iff]
  constructor
  · intro both
    exact both.2
  · intro enough
    exact ⟨by decide,enough⟩

theorem maxChunkDownloads_eq (pd : PieceDownloader) (some_ : 0 < pd.piecesInChunk) (small : pd.downloadRate < 4294967296) :
    ∃ most, maxChunkDownloads32 pd.piecesInChunk pd.downloadRate = some most ∧ pd.getMaxChunkDownloads = some most ∧
      1 ≤ most ∧ most < 2147483648 := by
  have extra : pd.downloadRate / 1024 / 25 < 167773 := by omega
  unfold maxChunkDownloads32 getMaxChunkDownloads
  dsimp only
  generalize pd.downloadRate / 1024 / 25 = numExtra at extra ⊢
  by_cases many : pd.piecesInChunk ≥ 16
  · have less : 16 * numExtra / pd.piecesInChunk ≤ 16 * numExtra := Nat.div_le_self _ _
    rw [if_pos many,if_pos many,uint32_of_lt (show 16 * numExtra < 4294967296 by omega)]
    generalize 16 * numExtra / pd.piecesInChunk = quotient at less ⊢
    rw [uint32_of_lt (by omega)]
    exact ⟨_,rfl,rfl,by omega,by omega⟩
  · have times : 16 / pd.piecesInChunk ≤ 16 := Nat.div_le_self _ _
    have less : 16 / pd.piecesInChunk * numExtra ≤ 16 * numExtra := Nat.mul_le_mul_right _ times
    rw [if_neg many,if_neg many,if_neg (by omega),if_neg (by omega),uint32_of_lt (show 16 / pd.piecesInChunk * numExtra < 4294967296 by omega),
      uint32_of_lt (by omega)]
    exact ⟨_,rfl,rfl,by omega,by omega⟩

theorem canDownloadChunk_given (pd : PieceDownloader) (some_ : 0 < pd.piecesInChunk) (small : pd.downloadRate < 4294967296)
    (peer : pd.peer = true) (free : pd.grabbed = 0) (room : pd.canAddRequest = true) : pd.canDownloadChunk32 = some true := by
  obtain ⟨most,same,_,positive,fits⟩ := maxChunkDownloads_eq pd some_ small
  have more : (pd.grabbed : Int) < toInt most := by
    unfold toInt
    rw [if_pos fits]
    omega
  unfold canDownloadChunk32
  rw [peer,same,room]
  simp [more]

def idle (piecesInChunk rate : Nat) : PieceDownloader := ⟨0,false,true,false,.new 0,rate,0,piecesInChunk,[],[],25⟩

-- The limits are safe for a torrent if and only if its chunk size, as a Uint32, is that of
-- a whole piece at least.
theorem limits_safe_iff (tor : Torrent) : LimitsSafe tor.chunkSize ↔ maxPieceLen ≤ uint32 tor.chunkSize := by
  rw [← piecesInChunk_pos]
  constructor
  · intro safe
    by_contra none_
    have zero : piecesInChunk tor.chunkSize = 0 := by omega
    have divides := safe.divides 0 (by decide)
    rw [zero] at divides
    cases divides
  · intro some_
    refine ⟨fun rate small => ?_,fun pd pieces small => ?_,fun rate small most result => ?_,fun pd pieces small peer free room => ?_⟩
    · obtain ⟨most,same,_⟩ := maxChunkDownloads_eq (idle (piecesInChunk tor.chunkSize) rate) some_ small
      exact Option.isSome_iff_exists.mpr ⟨most,same⟩
    · obtain ⟨most,same,value,_⟩ := maxChunkDownloads_eq pd (pieces ▸ some_) small
      rw [same,value]
    · obtain ⟨found,same,_,positive,_⟩ := maxChunkDownloads_eq (idle (piecesInChunk tor.chunkSize) rate) some_ small
      cases same.symm.trans result
      exact positive
    · exact canDownloadChunk_given pd (pieces ▸ some_) small peer free room

def smallChunks : QByteArray where
  bytes := ascii "d4:infod6:lengthi4e4:name1:a12:piece lengthi4e6:pieces20:aaaaaaaaaaaaaaaaaaaaee"
  size_lt := by decide +kernel

def loadedChunkSize (result : Except LoadFailure Torrent) : Option Nat :=
  match result with
  | .ok tor => some tor.chunkSize
  | .error _ => none

-- It is loaded, and the request limit of its peers divides by zero.
theorem small_chunks_divide : ∃ tor, load .plain latin1 smallChunks = .ok tor ∧ ¬ LimitsSafe tor.chunkSize := by
  have size : loadedChunkSize (load .plain latin1 smallChunks) = some 4 := by decide +kernel
  cases result : load .plain latin1 smallChunks with
  | error e =>
      rw [result] at size
      cases size
  | ok tor =>
      rw [result] at size
      have four : tor.chunkSize = 4 := Option.some.inj size
      refine ⟨tor,rfl,fun safe => ?_⟩
      have divides := safe.divides 0 (by decide)
      rw [four] at divides
      revert divides
      decide

end KtorrentStream.Download
