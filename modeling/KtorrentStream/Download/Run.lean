import KtorrentStream.Download.Downloader
import KtorrentStream.Download.PieceHash
set_option autoImplicit true

namespace KtorrentStream.Download
open KtorrentStream.Lib KtorrentStream.Util KtorrentStream.Diskio

namespace ChunkDownload

theorem cancelAll_store (cd : ChunkDownload σ H) : SameStore cd (cd.cancelAll peers).1 := by
  unfold cancelAll
  apply foldl_related (R := fun s s' : ChunkDownload σ H × Peers => SameStore s.1 s'.1) (fun s => .refl s.1) SameStore.trans
  intro s pd _
  exact sendCancels_store s.1

theorem releaseAllPDs_store (cd : ChunkDownload σ H) : SameStore cd (cd.releaseAllPDs peers).1 := ⟨[],.empty,_,_,rfl⟩

theorem updateHash_chunk (sha : Sha1 σ H) (cache : Cache) (cd : ChunkDownload σ H) : SameChunk cd (cd.updateHash sha cache).1 := ⟨rfl,rfl,rfl,rfl⟩

theorem stored_chunk (cd : ChunkDownload σ H) : SameChunk cd (cd.stored sha peers now cache p).cd := by
  unfold stored
  have first : SameChunk cd (if cd.pdown.length > 1 then cd.endgameCancel peers p else (cd,peers)).1 := by
    split
    · exact (endgameCancel_store cd).chunk
    · exact ⟨rfl,rfl,rfl,rfl⟩
  cases cancelled : (if cd.pdown.length > 1 then cd.endgameCancel peers p else (cd,peers)) with
  | mk cd1 peers1 =>
  rw [cancelled] at first
  have second := first.trans (updateHash_chunk sha cache cd1)
  dsimp only
  split
  · exact second.trans ⟨rfl,rfl,rfl,rfl⟩
  · exact second.trans (sendRequests_store _ _ _).chunk

theorem markDownloaded_chunk (cd : ChunkDownload σ H) (p : Piece) (q : Nat) : SameChunk cd (cd.markDownloaded p q) :=
  ⟨rfl,rfl,rfl,rfl⟩

theorem pieceReceived_chunk (cd : ChunkDownload σ H) : SameChunk cd (cd.pieceReceived sha peers now cache p).cd := by
  cases accepted : cd.accepts p with
  | false =>
    rw [pieceReceived_rejected accepted]
    exact ⟨rfl,rfl,rfl,rfl⟩
  | true =>
    obtain ⟨q,_,_,_,_,_,_,_,result⟩ := pieceReceived_accepted sha peers now cache accepted
    rw [result]
    exact (markDownloaded_chunk cd p q).trans (stored_chunk _)

end ChunkDownload

namespace Downloader

inductive Event where
  | update (now : Nat) (needsUpdate : Nat → Bool) (answers : List (Option Nat))
  | piece (now : Nat) (saved paused : Bool) (pd : Nat) (packet : List UInt8)
  | rejected (now pd : Nat) (r : Request)
  -- A peer connects; its PeerDownloader is a new object.
  | addPieceDownloader (pd : Nat) (peer : PieceDownloader)
  | removePieceDownloader (pd : Nat)
  | stopAndReassign (now pd i : Nat)
  | excluded (lower upper : Nat)
  | dataChecked (okChunks : BitSet) (lower upper : Nat)
  | chunkReady (i : Nat) (ok : Bool)
  | pause
  | clearDownloads
  -- What the other side does to a peer: chokes, rates, requests that are lost.
  | peer (pd : Nat) (state : PieceDownloader)
  | completed (done : Bool)

def perform [DecidableEq H] (sha : Sha1 σ H) (d : Downloader σ H) : Event → Downloader σ H
  | .update now needsUpdate answers => d.update sha now needsUpdate answers
  | .piece now saved paused pd packet => d.handlePiece sha now saved paused pd packet
  | .rejected now pd r => d.rejected now pd r
  | .addPieceDownloader pd peer =>
    {d with peers := d.peers.modify pd fun _ => {peer with grabbed := 0,nearlyDone := false}}.addPieceDownloader pd
  | .removePieceDownloader pd => d.removePieceDownloader pd
  | .stopAndReassign now pd i => d.stopAndReassignPieceDownloader sha now pd i
  | .excluded lower upper => d.onExcluded lower upper
  | .dataChecked okChunks lower upper => d.dataChecked okChunks lower upper
  | .chunkReady i ok => d.onChunkReady i ok
  | .pause => d.pause
  | .clearDownloads => d.clearDownloads
  | .peer pd state => {d with peers := d.peers.modify pd fun p => {state with grabbed := p.grabbed,nearlyDone := p.nearlyDone}}
  | .completed done => {d with completed := done}

-- What is in downloading_chunks are ChunkDownloads of their chunks.
def Valid (sha : Sha1 σ H) (d : Downloader σ H) : Prop :=
  ∀ i cd, d.downloadingChunks.find i = some cd → cd.SameChunk (.new sha i (d.chunkSize i).toNat)

-- Nobody is connected yet. The ChunkDownloads, if there are any, were loaded.
structure New (sha : Sha1 σ H) (d : Downloader σ H) : Prop where
  valid : d.Valid sha
  idle : ∀ i cd, d.downloadingChunks.find i = some cd → cd.pdown = []
  peers : d.pieceDownloaders = []

inductive Reached [DecidableEq H] (sha : Sha1 σ H) (allowed : Downloader σ H → Event → Prop) : Downloader σ H → Prop
  | new (new : New sha d) : Reached sha allowed d
  | step (before : Reached sha allowed d) (event : Event) (allows : allowed d event) : Reached sha allowed (d.perform sha event)

end Downloader

end KtorrentStream.Download
