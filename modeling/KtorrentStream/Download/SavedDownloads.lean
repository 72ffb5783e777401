import KtorrentStream.Download.Session
import KtorrentStream.Download.Steady
set_option autoImplicit true

namespace KtorrentStream.Download
open KtorrentStream.Lib KtorrentStream.Util KtorrentStream.Diskio

namespace ChunkDownload

def pieceBytes (cd : ChunkDownload σ H) (cache : Cache) (k : Nat) : Option (List UInt8) := (cd.pieceAt cache k).map cache.bytes

-- What is left of a ChunkDownload after a restart: everything but its peers.
structure Resumes (cd : ChunkDownload σ H) (cache : Cache) (cd' : ChunkDownload σ H) (cache' : Cache) : Prop where
  chunk : SameChunk cd cd'
  pieces : cd'.pieces = cd.pieces
  downloaded : cd'.downloadedPiecesNumber = cd.downloadedPiecesNumber
  data : cd'.pieceBytes cache' = cd.pieceBytes cache
  inHash : cd'.numPiecesInHash = cd.numPiecesInHash
  state : cd'.hashState = cd.hashState
  idle : cd'.pdown = []

-- A ChunkDownload of chunk i, whose pieces are in the cache.
def Fine (sha : Sha1 σ H) (cache : Cache) (i size : Nat) (cd : ChunkDownload σ H) : Prop :=
  ∃ stored, Sound sha cd cache stored ∧ Maximal cd ∧ SameChunk cd (new sha i size)

variable {sha : Sha1 σ H} {cd cd' : ChunkDownload σ H} {cache cache' : Cache} {stored : Nat → Option (List UInt8)} {i chunk size bound : Nat}

theorem Sound.stored_eq (sound : Sound sha cd cache stored) : stored = cd.pieceBytes cache := by
  funext k
  cases on : cd.pieces.get k with
  | true =>
      obtain ⟨_,_,_,_,at_,_,_,got⟩ := sound.pieceAt on
      rw [got,pieceBytes,at_]
      rfl
  | false =>
      obtain ⟨absent,nowhere⟩ := sound.missing k on
      unfold pieceBytes ChunkDownload.pieceAt
      rw [absent,nowhere]
      rfl

theorem Fine.sameStore (fine : Fine sha cache i size cd) (same : SameStore cd cd') : Fine sha cache i size cd' := by
  obtain ⟨stored,sound,maximal,chunk⟩ := fine
  refine ⟨stored,sound.sameStore same,?_,same.chunk.symm.trans chunk⟩
  obtain ⟨_,_,_,_,rfl⟩ := same
  exact maximal

theorem begins_fine (tidy : Tidy (new sha i size) cache) : Fine sha cache i size (new sha i size) :=
  ⟨_,new_sound tidy,fun _ => BitSet.new_get _ _,⟨rfl,rfl,rfl,rfl⟩⟩

theorem Fine.tidy (fine : Fine sha cache i size cd) : Tidy (new sha i size) cache := by
  obtain ⟨_,sound,_,chunk⟩ := fine
  exact sound.tidy.sameChunk chunk

theorem Fine.begins (fine : Fine sha cache i size cd) : Fine sha cache i size (new sha i size) := begins_fine fine.tidy

theorem Fine.forget (fine : Fine sha cache i size cd) (keep : Nat → Bool) (canMap : Nat → Nat → Bool) (fresh : Nat → Nat → UInt8) :
    Fine sha {cache with pieceCache := cache.pieceCache.filter keep,canMap := canMap,fresh := fresh} i size cd := by
  obtain ⟨stored,sound,maximal,chunk⟩ := fine
  exact ⟨stored,sound.forget keep canMap fresh,maximal,chunk⟩

theorem Fine.index (fine : Fine sha cache i size cd) : cd.index = i ∧ cd.size = size := by
  obtain ⟨_,_,_,chunk⟩ := fine
  exact ⟨chunk.index.symm,chunk.size.symm⟩

theorem Fine.frame (fine : Fine sha cache i size cd) (frame : Frame chunk bound cache cache') (apart : i ≠ chunk)
    (inside : ∀ p ∈ cache'.pieceCache, p < cache'.pieces.length) (small : bound ≤ cache.chunkSize) (whole : size ≤ cache.chunkSize) :
    Fine sha cache' i size cd ∧ cd.pieceBytes cache' = cd.pieceBytes cache := by
  obtain ⟨index,same⟩ := fine.index
  obtain ⟨stored,sound,maximal,chunk⟩ := fine
  have fits : cd.Fits := fits_of_chunk chunk
  have after := frame.sound (index ▸ apart) inside small (same ▸ whole) fits sound
  exact ⟨⟨stored,after,maximal,chunk⟩,after.stored_eq.symm.trans sound.stored_eq⟩

-- Two ChunkDownloads with the same pieces have the same hash so far.
theorem Sound.resumes (sound : Sound sha cd cache stored) (maximal : Maximal cd) (sound' : Sound sha cd' cache' stored)
    (maximal' : Maximal cd') (chunk : SameChunk cd cd') (pieces : cd'.pieces = cd.pieces) (idle : cd'.pdown = []) :
    Resumes cd cache cd' cache' := by
  have inHash : cd'.numPiecesInHash = cd.numPiecesInHash := by
    have total := chunk.total
    have most := sound.begun.1
    have most' := sound'.begun.1
    rcases Nat.lt_trichotomy cd'.numPiecesInHash cd.numPiecesInHash with less | same | more
    · have on := sound.begun.2 _ less
      rw [← pieces,maximal' (by omega)] at on
      cases on
    · exact same
    · have on := sound'.begun.2 _ more
      rw [pieces,maximal (by omega)] at on
      cases on
  refine ⟨chunk,pieces,?_,?_,inHash,?_,idle⟩
  · rw [sound.downloaded,sound'.downloaded,pieces]
  · rw [← sound.stored_eq,← sound'.stored_eq]
  · rw [sound.hashed,sound'.hashed,inHash]

theorem Resumes.bytes (resumes : Resumes cd cache cd' cache') : cd'.bytesDownloaded = cd.bytesDownloaded := by
  unfold bytesDownloaded pieceLen
  rw [resumes.pieces,resumes.chunk.total,resumes.chunk.lastSize]

end ChunkDownload

namespace Downloader
open ChunkDownload

def major : Nat := 1
def minor : Nat := 3

def saveDownloads (d : Downloader σ H) : File :=
  uint32Bytes currentChunkMagic ++ uint32Bytes major ++ uint32Bytes minor ++ uint32Bytes d.downloadingChunks.count ++
    d.downloadingChunks.entries.flatMap fun e => e.2.save d.cache

-- The Downloader and the Cache of a torrent that is opened again: the files are there,
-- and no piece is in memory.
def reopened (d : Downloader σ H) (canMap : Nat → Nat → Bool) (fresh : Nat → Nat → UInt8) : Downloader σ H where
  completed := d.completed
  chunkSize := d.chunkSize
  hash := d.hash
  downloadingChunks := .empty
  pieceDownloaders := []
  peers := d.peers
  cache := {d.cache with pieces := [],pieceCache := [],canMap := canMap,fresh := fresh}
  bytesDownloaded := 0
  totalUnnecessaryData := 0
  unnecessaryDataChunkFinished := 0

-- One session after the other over the same torrent.
inductive SessionEvent where
  | work (event : Event)
  -- Cache::clearPieces, and pieces that nobody uses any more.
  | forget (keep : Nat → Bool)
  | mapping (canMap : Nat → Nat → Bool) (fresh : Nat → Nat → UInt8)
  -- The program ends and starts again; unwanted says which chunks are on disk or excluded
  -- then, downloaded what the ChunkManager has.
  | restart (canMap : Nat → Nat → Bool) (fresh : Nat → Nat → UInt8) (downloaded : Nat) (unwanted : Nat → Bool)
    (memory : Nat → List UInt8)

def session [DecidableEq H] (sha : Sha1 σ H) (numChunks : Nat) (d : Downloader σ H) : SessionEvent → Downloader σ H
  | .work event => d.perform sha event
  | .forget keep => {d with cache := {d.cache with pieceCache := d.cache.pieceCache.filter keep}}
  | .mapping canMap fresh => {d with cache := {d.cache with canMap := canMap,fresh := fresh}}
  | .restart canMap fresh downloaded unwanted memory =>
    if d.completed then d.reopened canMap fresh
    else (d.reopened canMap fresh).loadDownloads sha numChunks downloaded unwanted memory d.saveDownloads

def Remaps (d : Downloader σ H) (canMap : Nat → Nat → Bool) : Prop :=
  ∀ i cd k, d.downloadingChunks.find i = some cd → cd.mappedAt d.cache k = true → canMap i (k * maxPieceLen) = true

-- The chunk selector gives chunks of the torrent, and peers send the pieces they are
-- asked for: these begin where a piece begins. There are no webseeds, which write into
-- the chunks on their own.
def Regular (numChunks : Nat) (d : Downloader σ H) : SessionEvent → Prop
  | .work (.update _ _ answers) => ∀ i, some i ∈ answers → i < numChunks
  | .work (.stopAndReassign _ _ i) => i < numChunks
  | .work (.piece _ _ _ _ packet) => readUint32 packet 5 % maxPieceLen = 0
  | .work (.chunkReady _ _) => False
  | .restart canMap _ _ _ _ => d.Remaps canMap
  | _ => True

-- Nothing is downloaded yet, and the cache of the torrent is empty.
structure Starts (numChunks : Nat) (d : Downloader σ H) : Prop where
  chunks : d.downloadingChunks = .empty
  pieces : d.cache.pieces = []
  pieceCache : d.cache.pieceCache = []
  sizes : ∀ i, (d.chunkSize i).toNat ≤ d.cache.chunkSize
  few : numChunks < 4294967296

variable {sha : Sha1 σ H} {d d' d'' : Downloader σ H} {numChunks : Nat}

-- Every ChunkDownload has its pieces in the cache, and a download that begins finds
-- the cache in order.
structure AllFine (sha : Sha1 σ H) (numChunks : Nat) (d : Downloader σ H) : Prop where
  fine : ∀ i, Fine sha d.cache i (d.chunkSize i).toNat (d.download sha i)
  keys : ∀ i, (d.downloadingChunks.find i).isSome → i < numChunks
  sizes : ∀ i, (d.chunkSize i).toNat ≤ d.cache.chunkSize

-- Nothing happens to the pieces; downloads of other chunks begin, and some are given up.
structure Forgets (sha : Sha1 σ H) (numChunks : Nat) (d d' : Downloader σ H) : Prop where
  sizes : d'.chunkSize = d.chunkSize
  cache : d'.cache = d.cache
  keys : ∀ i, (d'.downloadingChunks.find i).isSome → (d.downloadingChunks.find i).isSome ∨ i < numChunks
  same : ∀ i, SameStore (d.download sha i) (d'.download sha i) ∨ SameStore (.new sha i (d.chunkSize i).toNat) (d'.download sha i)

theorem Forgets.refl (sha : Sha1 σ H) (numChunks : Nat) (d : Downloader σ H) : Forgets sha numChunks d d :=
  ⟨rfl,rfl,fun _ there => .inl there,fun _ => .inl (.refl _)⟩

theorem Forgets.trans (first : Forgets sha numChunks d d') (second : Forgets sha numChunks d' d'') : Forgets sha numChunks d d'' where
  sizes := second.sizes.trans first.sizes
  cache := second.cache.trans first.cache
  keys i there := (second.keys i there).elim (first.keys i) .inr
  same i := by
    rcases second.same i with kept | anew
    · exact (first.same i).imp (·.trans kept) (·.trans kept)
    · rw [first.sizes] at anew
      exact .inr anew

theorem Stores.forgets (stores : Stores sha (· < numChunks) d d') : Forgets sha numChunks d d' :=
  ⟨stores.sizes,stores.cache,stores.keys,fun i => .inl (stores.same i)⟩

theorem Forgets.other (chunks : d'.downloadingChunks = d.downloadingChunks) (sizes : d'.chunkSize = d.chunkSize) (cache : d'.cache = d.cache) :
    Forgets sha numChunks d d' := by
  refine ⟨sizes,cache,fun i there => .inl (chunks ▸ there),fun i => .inl ?_⟩
  rw [download,download,chunks,sizes]
  exact .refl _

theorem drop_forgets (f : ChunkDownload σ H → Peers → ChunkDownload σ H × Peers) (d : Downloader σ H) (i : Nat) :
    Forgets sha numChunks d ((d.visit i f).erase i) := by
  obtain ⟨_,sizes,cache⟩ := visit_frame d i f
  refine ⟨sizes,cache,fun j there => .inl ?_,fun j => ?_⟩
  · have left : ((d.visit i f).downloadingChunks.erase i).find j = if j = i then none else d.downloadingChunks.find j := by
      rw [PtrMap.find_erase,visit_find]
      split <;> rfl
    rw [show ((d.visit i f).erase i).downloadingChunks.find j = _ from left] at there
    split at there
    · cases there
    · exact there
  · rw [drop_download]
    split
    · exact .inr (.refl _)
    · exact .inl (.refl _)

theorem cleared_forgets (pds : List Nat) (d : Downloader σ H) :
    Forgets sha numChunks d {d with downloadingChunks := .empty,pieceDownloaders := pds} :=
  ⟨rfl,rfl,fun _ there => (by cases there),fun _ => .inr (.refl _)⟩

theorem foldl_forgets {β : Type} (l : List β) (g : Downloader σ H → β → Downloader σ H) (each : ∀ d x, Forgets sha numChunks d (g d x))
    (d : Downloader σ H) : Forgets sha numChunks d (l.foldl g d) :=
  foldl_related (Forgets.refl sha numChunks) Forgets.trans l (fun d x _ => each d x) d

theorem Forgets.allFine (forgets : Forgets sha numChunks d d') (all : AllFine sha numChunks d) : AllFine sha numChunks d' where
  fine i := by
    rw [forgets.cache,forgets.sizes]
    rcases forgets.same i with kept | anew
    · exact (all.fine i).sameStore kept
    · exact (all.fine i).begins.sameStore anew
  keys i there := (forgets.keys i there).elim (all.keys i) id
  sizes i := by
    rw [forgets.cache,forgets.sizes]
    exact all.sizes i

theorem starts_allFine (starts : Starts numChunks d) : AllFine sha numChunks d where
  fine i := by
    rw [download_none (by rw [starts.chunks]; rfl)]
    exact begins_fine (bare_tidy _ starts.pieces starts.pieceCache)
  keys i there := by
    rw [starts.chunks] at there
    cases there
  sizes := starts.sizes

theorem work_forgets [DecidableEq H] (event : Event) (regular : Regular numChunks d (.work event))
    (other : ∀ now saved paused pd packet, event ≠ .piece now saved paused pd packet) : Forgets sha numChunks d (d.perform sha event) := by
  cases event with
  | update now needsUpdate answers => exact (update_stores now needsUpdate answers regular d).forgets
  | piece now saved paused pd packet => exact absurd rfl (other now saved paused pd packet)
  | rejected now pd r => exact (rejected_stores now pd r d).forgets
  | addPieceDownloader pd peer => exact .other rfl rfl rfl
  | removePieceDownloader pd => exact (removePieceDownloader_stores pd d).forgets
  | stopAndReassign now pd i => exact (stopAndReassign_stores now pd i regular d).forgets
  | excluded lower upper => exact foldl_forgets _ _ (fun d i => drop_forgets _ d i) d
  | dataChecked okChunks lower upper =>
      refine foldl_forgets _ _ (fun d i => ?_) d
      split
      · exact drop_forgets _ d i
      · exact .refl sha numChunks d
  | chunkReady i ok => cases regular
  | pause => exact cleared_forgets d.pieceDownloaders d
  | clearDownloads => exact cleared_forgets [] d
  | peer pd state => exact .other rfl rfl rfl
  | completed done => exact .other rfl rfl rfl

-- A piece that is taken

theorem handlePiece_cases [DecidableEq H] (sha : Sha1 σ H) (numChunks : Nat) (d : Downloader σ H) (now : Nat) (saved paused : Bool) (pd : Nat)
    (packet : List UInt8) : Forgets sha numChunks d (d.handlePiece sha now saved paused pd packet) ∨
      paused = false ∧ 9 ≤ packet.length ∧ d.completed = false ∧ d.mapThrows (pieceOf pd packet) = false ∧
        ∃ cd, d.downloadingChunks.find (readUint32 packet 1) = some cd := by
  by_cases reaches : paused = false ∧ 9 ≤ packet.length ∧ d.completed = false ∧ d.mapThrows (pieceOf pd packet) = false ∧
      ∃ cd, d.downloadingChunks.find (readUint32 packet 1) = some cd
  · exact .inr reaches
  · refine .inl (handlePiece_by (.refl sha numChunks d) (fun running long throws => (handlePiece_threw_stores running long throws).forgets)
      (fun _ _ _ => .other rfl rfl rfl) fun running long incomplete safe cd found => ?_)
    exact absurd ⟨running,long,incomplete,safe,cd,found⟩ reaches

theorem handlePiece_cache [DecidableEq H] (sha : Sha1 σ H) {cd : ChunkDownload σ H} (long : 9 ≤ packet.length) (incomplete : d.completed = false)
    (found : d.downloadingChunks.find (readUint32 packet 1) = some cd) (now pd : Nat) (saved : Bool)
    (safe : d.mapThrows (pieceOf pd packet) = false) :
    (d.handlePiece sha now saved false pd packet).cache = (delivered sha d now pd packet cd).cache ∧
      ∀ j, ((d.handlePiece sha now saved false pd packet).downloadingChunks.find j).isSome → (d.downloadingChunks.find j).isSome := by
  have place (j : Nat) : ((d.downloadingChunks.modify (readUint32 packet 1) fun _ => (delivered sha d now pd packet cd).cd).find j).isSome =
      (d.downloadingChunks.find j).isSome := by
    rw [PtrMap.find_modify]
    split
    · rw [Option.isSome_map]
    · rfl
  rw [handlePiece_delivered rfl long incomplete found safe]
  dsimp only
  split
  · refine ⟨rfl,fun j there => ?_⟩
    have left : (((d.downloadingChunks.modify (readUint32 packet 1) fun _ => (delivered sha d now pd packet cd).cd).erase
        (readUint32 packet 1)).find j).isSome = true := there
    rw [PtrMap.find_erase] at left
    split at left
    · cases left
    · rw [← place j]
      exact left
  · refine ⟨rfl,fun j there => ?_⟩
    rw [← place j]
    exact there

theorem delivered_fine {cd : ChunkDownload σ H} {i bound : Nat} (fine : Fine sha d.cache i bound cd)
    (aligned : readUint32 packet 5 % maxPieceLen = 0) (now pd : Nat) :
    Fine sha (delivered sha d now pd packet cd).cache i bound (delivered sha d now pd packet cd).cd ∧
      ChunkDownload.Frame i bound d.cache (delivered sha d now pd packet cd).cache := by
  obtain ⟨index,whole⟩ := fine.index
  obtain ⟨stored,sound,maximal,chunk⟩ := fine
  have frame := pieceReceived_frame sound (fits_of_chunk chunk) (p := pieceOf pd packet) aligned (d.peers.modify pd (·.piece (pieceOf pd packet))) now
  rw [index,whole] at frame
  refine ⟨?_,frame⟩
  cases accepted : cd.accepts (pieceOf pd packet) with
  | false =>
      unfold delivered
      rw [pieceReceived_rejected accepted]
      exact ⟨stored,sound,maximal,chunk⟩
  | true =>
      obtain ⟨_,after,maximal',chunk',_,_⟩ := Session.stores_of_accepted sound aligned accepted (d.peers.modify pd (·.piece (pieceOf pd packet))) now
      exact ⟨_,after,maximal',chunk'.symm.trans chunk⟩

theorem handlePiece_allFine [DecidableEq H] (all : AllFine sha numChunks d) (aligned : readUint32 packet 5 % maxPieceLen = 0) (now : Nat)
    (saved paused : Bool) (pd : Nat) : AllFine sha numChunks (d.handlePiece sha now saved paused pd packet) := by
  rcases handlePiece_cases sha numChunks d now saved paused pd packet with forgets | ⟨rfl,long,incomplete,safe,cd,found⟩
  · exact forgets.allFine all
  · have taken : Taken sha d _ (delivered sha d now pd packet cd) _ _ (d.handlePiece sha now saved false pd packet) :=
      handlePiece_taken long incomplete found safe
    obtain ⟨cache,keys⟩ := handlePiece_cache sha long incomplete found now pd saved safe
    have here := all.fine (readUint32 packet 1)
    rw [download_found found] at here
    obtain ⟨after,frame⟩ := delivered_fine here aligned now pd
    refine ⟨fun j => ?_,fun j there => all.keys j (keys j there),fun j => ?_⟩
    · rw [cache,taken.sizes]
      by_cases same : j = readUint32 packet 1
      · subst same
        rw [taken.here]
        split
        · exact after.begins
        · exact after
      · rw [taken.others j same]
        exact ((all.fine j).frame frame same after.tidy.inside (all.sizes _) (all.sizes j)).1
    · rw [cache,frame.chunkSize,taken.sizes]
      exact all.sizes j

-- The current_chunks file

theorem readWords_bytes (words : Nat) (memory : List UInt8) {bytes : List UInt8} (exact : bytes.length = 4 * words) (rest : File) :
    readWords words memory (bytes ++ rest) = (bytes ++ memory.drop bytes.length,rest) := by
  unfold readWords
  rw [← exact,File.read_append]

theorem word_first (small : n < 4294967296) (rest : List UInt8) : word (uint32Bytes n ++ rest) 0 = n := by
  simp only [word,uint32Bytes,Nat.mul_zero,Nat.zero_add,List.cons_append,List.nil_append,List.getD_cons_zero,List.getD_cons_succ,UInt8.toNat_ofNat']
  omega

theorem word_next (n : Nat) (rest : List UInt8) (k : Nat) : word (uint32Bytes n ++ rest) (k + 1) = word rest k := by
  have later (j : Nat) : (uint32Bytes n ++ rest).getD (4 * (k + 1) + j) 0 = rest.getD (4 * k + j) 0 := by
    rw [show 4 * (k + 1) + j = (uint32Bytes n).length + (4 * k + j) by rw [uint32Bytes_length]; omega,
      List.getD_append_right _ _ _ _ (Nat.le_add_right _ _),Nat.add_sub_cancel_left]
  unfold word
  rw [later 1,later 2,later 3,← Nat.add_zero (4 * (k + 1)),later 0]
  rfl

def wantedBytes (unwanted : Nat → Bool) (l : List (Nat × ChunkDownload σ H)) : Nat :=
  ((l.filter fun x => !unwanted x.1).map fun x => x.2.bytesDownloaded).sum

theorem wantedBytes_concat (unwanted : Nat → Bool) (l : List (Nat × ChunkDownload σ H)) (i : Nat) (cd : ChunkDownload σ H) :
    wantedBytes unwanted (l ++ [(i,cd)]) = wantedBytes unwanted l + if unwanted i then 0 else cd.bytesDownloaded := by
  unfold wantedBytes
  rw [List.filter_append,List.map_append,List.sum_append]
  cases dropped : unwanted i <;> simp [dropped]

-- In the middle of loadDownloads: the records in `done` are read, and the others find
-- their chunks as they were left.
structure Restoring (sha : Sha1 σ H) (numChunks : Nat) (d : Downloader σ H) (canMap : Nat → Nat → Bool) (unwanted : Nat → Bool) (downloaded : Nat)
    (done : List (Nat × ChunkDownload σ H)) (e : Downloader σ H) : Prop where
  all : AllFine sha numChunks e
  sizes : e.chunkSize = d.chunkSize
  chunkSize : e.cache.chunkSize = d.cache.chunkSize
  canMap : e.cache.canMap = canMap
  back : ∀ x ∈ done, unwanted x.1 = false → ∃ cd', e.downloadingChunks.find x.1 = some cd' ∧ Resumes x.2 d.cache cd' e.cache
  only : ∀ i, (e.downloadingChunks.find i).isSome → unwanted i = false ∧ ∃ x ∈ done, x.1 = i
  bare : ∀ j, (∀ x ∈ done, x.1 ≠ j) → ∀ q pd, ¬ Of j e.cache q pd
  file : ∀ j, (∀ x ∈ done, x.1 ≠ j) → ∀ y, j * d.cache.chunkSize ≤ y → y < j * d.cache.chunkSize + (d.chunkSize j).toNat →
    e.cache.file y = d.cache.file y
  bytes : e.bytesDownloaded = downloaded + wantedBytes unwanted done

variable {canMap : Nat → Nat → Bool} {unwanted : Nat → Bool} {downloaded : Nat} {done : List (Nat × ChunkDownload σ H)}
  {e e' : Downloader σ H} {cd cd' : ChunkDownload σ H} {cache : Cache} {i : Nat}

theorem reopened_restoring (all : AllFine sha numChunks d) (fresh : Nat → Nat → UInt8) :
    Restoring sha numChunks d canMap unwanted downloaded [] {d.reopened canMap fresh with bytesDownloaded := downloaded} where
  all := ⟨fun _ => begins_fine (bare_tidy _ rfl rfl),fun _ there => (by cases there),all.sizes⟩
  sizes := rfl
  chunkSize := rfl
  canMap := rfl
  back _ member := by cases member
  only _ there := by cases there
  bare _ _ _ _ found := by cases found.1
  file _ _ _ _ _ := rfl
  bytes := rfl

-- A ChunkDownload is put in for a chunk that had none, if it is wanted, and the bytes of
-- that chunk are the only ones that move.
theorem AllFine.put (all : AllFine sha numChunks e) (small : i < numChunks) (absent : e.downloadingChunks.find i = none)
    (fine : Fine sha cache i (e.chunkSize i).toNat cd') (frame : ChunkDownload.Frame i (e.chunkSize i).toNat e.cache cache)
    (read : e'.cache = cache) (sizes : e'.chunkSize = e.chunkSize)
    (find : ∀ j, e'.downloadingChunks.find j = if j = i ∧ unwanted i = false then some cd' else e.downloadingChunks.find j) :
    AllFine sha numChunks e' := by
  have elsewhere {j : Nat} (other : j ≠ i) : e'.downloadingChunks.find j = e.downloadingChunks.find j := by
    rw [find,if_neg fun both => other both.1]
  refine ⟨fun j => ?_,fun j there => ?_,fun j => ?_⟩
  · rw [read,sizes]
    by_cases here : j = i
    · subst here
      cases wanted : unwanted j with
      | false =>
          rw [download_found ((find j).trans (if_pos ⟨rfl,wanted⟩))]
          exact fine
      | true =>
          have gone : e'.downloadingChunks.find j = none := by
            rw [find,if_neg fun both => (by cases wanted.symm.trans both.2)]
            exact absent
          rw [download_none gone,sizes]
          exact fine.begins
    · rw [show e'.download sha j = e.download sha j by rw [download,download,elsewhere here,sizes]]
      exact ((all.fine j).frame frame here fine.tidy.inside (all.sizes i) (all.sizes j)).1
  · by_cases here : j = i
    · exact here ▸ small
    · rw [elsewhere here] at there
      exact all.keys j there
  · rw [read,frame.chunkSize,sizes]
    exact all.sizes j

theorem Restoring.absent (restoring : Restoring sha numChunks d canMap unwanted downloaded done e) (waits : ∀ x ∈ done, x.1 ≠ i) :
    e.downloadingChunks.find i = none := by
  rw [← Option.not_isSome_iff_eq_none]
  intro there
  obtain ⟨_,x,member,same⟩ := restoring.only i there
  exact waits x member same

theorem apart_chunk {size i j m n y : Nat} (other : j ≠ i) (here : m ≤ size) (there : n ≤ size) (lower : j * size ≤ y) (upper : y < j * size + n) :
    y < i * size ∨ i * size + m ≤ y := by
  rcases Nat.lt_or_gt_of_ne other with less | more
  · have step : (j + 1) * size ≤ i * size := Nat.mul_le_mul_right _ less
    rw [Nat.add_mul] at step
    omega
  · have step : (i + 1) * size ≤ j * size := Nat.mul_le_mul_right _ more
    rw [Nat.add_mul] at step
    omega

-- A record is read: its ChunkDownload is kept if it is wanted.
theorem Restoring.next (restoring : Restoring sha numChunks d canMap unwanted downloaded done e) (small : i < numChunks)
    (waits : ∀ x ∈ done, x.1 ≠ i) (fine : Fine sha cache i (d.chunkSize i).toNat cd') (resumes : Resumes cd d.cache cd' cache)
    (frame : ChunkDownload.Frame i (d.chunkSize i).toNat e.cache cache) (read : e'.cache = cache) (sizes : e'.chunkSize = e.chunkSize)
    (find : ∀ j, e'.downloadingChunks.find j = if j = i ∧ unwanted i = false then some cd' else e.downloadingChunks.find j)
    (bytes : e'.bytesDownloaded = e.bytesDownloaded + if unwanted i then 0 else cd'.bytesDownloaded) :
    Restoring sha numChunks d canMap unwanted downloaded (done ++ [(i,cd)]) e' := by
  have all := restoring.all
  have absent := restoring.absent waits
  have bound (j : Nat) : (d.chunkSize j).toNat ≤ e.cache.chunkSize := by
    rw [← restoring.sizes]
    exact all.sizes j
  have elsewhere {j : Nat} (other : j ≠ i) : e'.downloadingChunks.find j = e.downloadingChunks.find j := by
    rw [find,if_neg fun both => other both.1]
  have neither {j : Nat} (outside : ∀ x ∈ done ++ [(i,cd)], x.1 ≠ j) : (∀ x ∈ done, x.1 ≠ j) ∧ j ≠ i :=
    ⟨fun x member => outside x (List.mem_append_left _ member),fun here => outside (i,cd) (List.mem_append_right _ List.mem_cons_self) here.symm⟩
  refine ⟨?_,sizes.trans restoring.sizes,?_,?_,?_,?_,?_,?_,?_⟩
  · rw [← restoring.sizes] at fine frame
    exact all.put small absent fine frame read sizes find
  · rw [read,frame.chunkSize]
    exact restoring.chunkSize
  · rw [read,frame.canMap]
    exact restoring.canMap
  · intro x member wanted
    rw [read]
    rcases List.mem_append.mp member with before | last
    · obtain ⟨cd₁,found,resumed⟩ := restoring.back x before wanted
      have other := waits x before
      have was := all.fine x.1
      rw [download_found found,restoring.sizes] at was
      have bytes := (was.frame frame other fine.tidy.inside (bound i) (bound x.1)).2
      refine ⟨cd₁,(elsewhere other).trans found,?_⟩
      exact ⟨resumed.chunk,resumed.pieces,resumed.downloaded,bytes.trans resumed.data,resumed.inHash,resumed.state,resumed.idle⟩
    · cases List.mem_singleton.mp last
      exact ⟨cd',(find i).trans (if_pos ⟨rfl,wanted⟩),resumes⟩
  · intro j there
    by_cases here : j = i
    · subst here
      have wanted : unwanted j = false := by
        rw [← Bool.not_eq_true]
        intro dropped
        rw [find,if_neg fun both => (by cases dropped.symm.trans both.2),absent] at there
        cases there
      exact ⟨wanted,(j,cd),List.mem_append_right _ List.mem_cons_self,rfl⟩
    · rw [elsewhere here] at there
      obtain ⟨wanted,x,member,same⟩ := restoring.only j there
      exact ⟨wanted,x,List.mem_append_left _ member,same⟩
  · intro j outside q pd found
    obtain ⟨before,other⟩ := neither outside
    rw [read] at found
    exact restoring.bare j before q pd ((frame.others j other q pd).mp found)
  · intro j outside y lower upper
    obtain ⟨before,other⟩ := neither outside
    rw [read,← restoring.file j before y lower upper]
    rw [← restoring.chunkSize] at lower upper
    exact frame.file y (apart_chunk other (bound i) (bound j) lower upper)
  · rw [bytes,restoring.bytes,resumes.bytes,wantedBytes_concat,Nat.add_assoc]

-- One turn of the loop: the header, and behind it the pieces.
theorem loadChunks_next (small : cd.index < numChunks) (few : numChunks < 4294967296) (numBits : cd.pieces.numBits < 4294967296)
    (absent : e.downloadingChunks.find cd.index = none) {body rest : File}
    (read : (new sha cd.index (e.chunkSize cd.index).toNat).load sha cd.pieces.numBits true e.cache (body ++ rest) = some (cd',cache,rest))
    (saved : cd.save d.cache = uint32Bytes cd.index ++ uint32Bytes cd.pieces.numBits ++ uint32Bytes 1 ++ body)
    (memory : Nat → List UInt8) (k : Nat) :
    loadChunks sha numChunks unwanted memory (k + 1) e (cd.save d.cache ++ rest) =
      if unwanted cd.index then loadChunks sha numChunks unwanted memory k {e with cache := cache} rest
      else loadChunks sha numChunks unwanted memory k (e.resumed cd.index cd' cache) rest := by
  have header : readWords 3 (memory (k + 1)) (cd.save d.cache ++ rest) =
      (uint32Bytes cd.index ++ (uint32Bytes cd.pieces.numBits ++ (uint32Bytes 1 ++ (memory (k + 1)).drop 12)),body ++ rest) := by
    rw [saved,List.append_assoc (uint32Bytes cd.index ++ _ ++ _),readWords_bytes 3 _ rfl,List.append_assoc,List.append_assoc]
    rfl
  have new_ : e.downloadingChunks.contains cd.index = false := by
    unfold PtrMap.contains
    rw [absent]
    rfl
  conv_lhs => unfold loadChunks
  dsimp only
  rw [header]
  dsimp only
  rw [word_next,word_first numBits,word_first (Nat.lt_trans small few),if_neg (by omega),new_,if_neg Bool.false_ne_true,read]
  rfl

-- The record of a ChunkDownload, in front of what follows it in the file.
theorem loadChunks_record (all : AllFine sha numChunks d) (few : numChunks < 4294967296) (remaps : d.Remaps canMap)
    (restoring : Restoring sha numChunks d canMap unwanted downloaded done e) (given : d.downloadingChunks.find i = some cd)
    (waits : ∀ x ∈ done, x.1 ≠ i) (memory : Nat → List UInt8) (k : Nat) (rest : File) :
    ∃ e', loadChunks sha numChunks unwanted memory (k + 1) e (cd.save d.cache ++ rest) = loadChunks sha numChunks unwanted memory k e' rest ∧
      Restoring sha numChunks d canMap unwanted downloaded (done ++ [(i,cd)]) e' := by
  have here := all.fine i
  rw [download_found given] at here
  obtain ⟨rfl,whole⟩ := here.index
  obtain ⟨stored,sound,maximal,chunk⟩ := here
  have small := all.keys cd.index (given ▸ rfl)
  have short : cd.size < 4294967296 := by
    rw [whole]
    exact (d.chunkSize cd.index).toNat_lt
  have numBits : cd.pieces.numBits < 4294967296 := by
    rw [sound.bits,← show numPieces (d.chunkSize cd.index).toNat = cd.totalPiecesNumber from chunk.total]
    exact numPieces_lt (d.chunkSize cd.index).toNat_lt
  -- The chunk is as it was left, and nothing of it is in memory.
  have tidy := restoring.all.fine cd.index |>.tidy
  rw [restoring.sizes] at tidy
  obtain ⟨cd',cache,target,read,loaded⟩ := load_spec sound (by rw [whole]; exact chunk) short restoring.chunkSize
    (by rw [whole]; exact restoring.file cd.index waits) (fun _ q pd _ at_ => absurd at_.2.1 (restoring.bare cd.index waits q pd))
    (tidy.sameChunk chunk.symm) rest
  have same : target = stored := by
    funext j
    refine loaded.right j fun lost => ?_
    have can := remaps cd.index cd j given lost.1
    have cannot := lost.2.2
    rw [restoring.canMap,can] at cannot
    cases cannot
  rw [same] at loaded
  have resumes := sound.resumes maximal loaded.sound loaded.maximal loaded.chunk loaded.pieces loaded.idle
  have fine : Fine sha cache cd.index (d.chunkSize cd.index).toNat cd' := ⟨stored,loaded.sound,loaded.maximal,loaded.chunk.symm.trans chunk⟩
  have frame := loaded.frame
  rw [whole] at frame read
  rw [← restoring.sizes] at read
  have step : loadChunks sha numChunks unwanted memory (k + 1) e (cd.save d.cache ++ rest) = _ :=
    loadChunks_next small few numBits (restoring.absent waits) read rfl memory k
  cases dropped : unwanted cd.index with
  | true =>
      rw [dropped,if_pos rfl] at step
      refine ⟨{e with cache := cache},step,restoring.next small waits fine resumes frame rfl rfl (fun j => ?_) ?_⟩
      · rw [if_neg fun both => (by cases dropped.symm.trans both.2)]
      · rw [dropped]
        rfl
  | false =>
      rw [dropped,if_neg Bool.false_ne_true] at step
      refine ⟨e.resumed cd.index cd' cache,step,restoring.next small waits fine resumes frame rfl rfl (fun j => ?_) ?_⟩
      · exact (PtrMap.find_insert _).trans (if_congr (and_iff_left dropped).symm rfl rfl)
      · rw [dropped]
        rfl

theorem loadChunks_records (all : AllFine sha numChunks d) (few : numChunks < 4294967296) (remaps : d.Remaps canMap)
    (memory : Nat → List UInt8) (l : List (Nat × ChunkDownload σ H)) (given : ∀ x ∈ l, d.downloadingChunks.find x.1 = some x.2)
    (once : (l.map Prod.fst).Nodup) (waits : ∀ x ∈ l, ∀ y ∈ done, y.1 ≠ x.1)
    (restoring : Restoring sha numChunks d canMap unwanted downloaded done e) :
    Restoring sha numChunks d canMap unwanted downloaded (done ++ l)
      (loadChunks sha numChunks unwanted memory l.length e (l.flatMap fun x => x.2.save d.cache)) := by
  induction l generalizing done e with
  | nil =>
      rw [List.append_nil]
      exact restoring
  | cons x rest ih =>
      obtain ⟨e',read,next⟩ := loadChunks_record all few remaps restoring (given x List.mem_cons_self) (waits x List.mem_cons_self) memory
        rest.length (rest.flatMap fun x => x.2.save d.cache)
      rw [List.map_cons,List.nodup_cons] at once
      rw [List.length_cons,List.flatMap_cons,read,List.append_cons]
      refine ih (fun y member => given y (List.mem_cons_of_mem _ member)) once.2 (fun y member z done => ?_) next
      rcases List.mem_append.mp done with before | last
      · exact waits y (List.mem_cons_of_mem _ member) z before
      · rw [List.mem_singleton.mp last]
        intro same
        exact once.1 (List.mem_map.mpr ⟨y,member,same.symm⟩)

theorem loadDownloads_restoring (all : AllFine sha numChunks d) (few : numChunks < 4294967296) (remaps : d.Remaps canMap)
    (fresh : Nat → Nat → UInt8) (memory : Nat → List UInt8) :
    Restoring sha numChunks d canMap unwanted downloaded d.downloadingChunks.entries
      ((d.reopened canMap fresh).loadDownloads sha numChunks downloaded unwanted memory d.saveDownloads) := by
  have once : (d.downloadingChunks.entries.map Prod.fst).Nodup :=
    List.pairwise_map.mpr (d.downloadingChunks.sorted.imp fun less => Nat.ne_of_lt less)
  have given : ∀ x ∈ d.downloadingChunks.entries, d.downloadingChunks.find x.1 = some x.2 := fun x member =>
    (PtrMap.find_eq_some_iff _).mpr member
  have count : d.downloadingChunks.count < 4294967296 := by
    have inside : d.downloadingChunks.entries.map Prod.fst ⊆ List.range numChunks := by
      intro i member
      obtain ⟨x,there,rfl⟩ := List.mem_map.mp member
      exact List.mem_range.mpr (all.keys x.1 (given x there ▸ rfl))
    have most := (List.subperm_of_subset once inside).length_le
    rw [List.length_map,List.length_range] at most
    exact Nat.lt_of_le_of_lt most few
  have header : readWords 4 (memory 0) d.saveDownloads =
      (uint32Bytes currentChunkMagic ++ (uint32Bytes major ++ (uint32Bytes minor ++ (uint32Bytes d.downloadingChunks.count ++ (memory 0).drop 16))),
        d.downloadingChunks.entries.flatMap fun x => x.2.save d.cache) := by
    unfold saveDownloads
    rw [readWords_bytes 4 _ rfl,List.append_assoc,List.append_assoc,List.append_assoc]
    rfl
  unfold loadDownloads
  dsimp only
  rw [header]
  dsimp only
  rw [word_first (by decide),if_neg (fun differs => differs rfl),word_next,word_next,word_next,word_first count]
  exact loadChunks_records all few remaps memory _ given once (fun _ _ _ member => by cases member) (reopened_restoring all fresh)

theorem session_allFine [DecidableEq H] (few : numChunks < 4294967296) (all : AllFine sha numChunks d) {event : SessionEvent}
    (regular : Regular numChunks d event) : AllFine sha numChunks (d.session sha numChunks event) := by
  cases event with
  | work event =>
      by_cases piece : ∃ now saved paused pd packet, event = .piece now saved paused pd packet
      · obtain ⟨now,saved,paused,pd,packet,rfl⟩ := piece
        exact handlePiece_allFine all regular now saved paused pd
      · refine (work_forgets event regular fun now saved paused pd packet same => ?_).allFine all
        exact piece ⟨now,saved,paused,pd,packet,same⟩
  | forget keep => exact ⟨fun i => (all.fine i).forget keep d.cache.canMap d.cache.fresh,all.keys,all.sizes⟩
  | mapping canMap fresh =>
      refine ⟨fun i => ?_,all.keys,all.sizes⟩
      have fine := (all.fine i).forget (fun _ => true) canMap fresh
      rw [List.filter_true] at fine
      exact fine
  | restart canMap fresh downloaded unwanted memory =>
      unfold session
      dsimp only
      split
      · exact ⟨fun _ => begins_fine (bare_tidy _ rfl rfl),fun _ there => (by cases there),all.sizes⟩
      · exact (loadDownloads_restoring all few regular fresh memory).all

-- What a restart makes of the downloads: the wanted ones go on.
structure Restarted (unwanted : Nat → Bool) (downloaded : Nat) (d d' : Downloader σ H) : Prop where
  resumed : ∀ i cd, d.downloadingChunks.find i = some cd → unwanted i = false →
    ∃ cd', d'.downloadingChunks.find i = some cd' ∧ Resumes cd d.cache cd' d'.cache
  others : ∀ i, (d'.downloadingChunks.find i).isSome → unwanted i = false ∧ (d.downloadingChunks.find i).isSome
  bytes : d'.bytesDownloaded = downloaded + wantedBytes unwanted d.downloadingChunks.entries

theorem Restoring.restarted (restoring : Restoring sha numChunks d canMap unwanted downloaded d.downloadingChunks.entries e) :
    Restarted unwanted downloaded d e where
  resumed i cd found wanted := restoring.back (i,cd) ((PtrMap.find_eq_some_iff _).mp found) wanted
  others i there := by
    obtain ⟨wanted,x,member,rfl⟩ := restoring.only i there
    exact ⟨wanted,(PtrMap.find_eq_some_iff _).mpr member ▸ rfl⟩
  bytes := restoring.bytes

-- The hash of a chunk that a piece completes is the one of the bytes that are there.
theorem Fine.hash {cache : Cache} {cd : ChunkDownload σ H} {i bound : Nat} (fine : Fine sha cache i bound cd) {p : Piece} (aligned : p.off % maxPieceLen = 0)
    (peers : Peers) (now : Nat) (complete : (cd.pieceReceived sha peers now cache p).complete = true) :
    (cd.pieceReceived sha peers now cache p).cd.getHash =
      some (sha.generate (Session.content ((cd.pieceReceived sha peers now cache p).cd.pieceBytes (cd.pieceReceived sha peers now cache p).cache)
        cd.totalPiecesNumber)) := by
  obtain ⟨stored,sound,_,_⟩ := fine
  cases accepted : cd.accepts p with
  | false =>
      rw [pieceReceived_rejected accepted] at complete
      cases complete
  | true =>
      have stores := Session.stores_of_accepted sound aligned accepted peers now
      have more := Nat.zero_lt_of_lt ((accepts_iff p).mp accepted).1
      rw [stores.hash complete,Session.hashOf_content sha _ more,stores.sound.stored_eq]
      rfl

-- What holds of the downloads that are not finished.
structure Survives [DecidableEq H] (sha : Sha1 σ H) (numChunks : Nat) (d : Downloader σ H) : Prop where
  hash : ∀ cd packet now pd, d.downloadingChunks.find (readUint32 packet 1) = some cd → readUint32 packet 5 % maxPieceLen = 0 →
    (delivered sha d now pd packet cd).complete = true → (delivered sha d now pd packet cd).cd.getHash =
      some (sha.generate (Session.content ((delivered sha d now pd packet cd).cd.pieceBytes (delivered sha d now pd packet cd).cache) cd.totalPiecesNumber))
  restart : ∀ canMap fresh downloaded unwanted memory, d.completed = false → d.Remaps canMap →
    Restarted unwanted downloaded d (d.session sha numChunks (.restart canMap fresh downloaded unwanted memory))

-- They survive restarts: in every session a chunk goes on with the pieces it had, and its
-- hash is the one of its content when it is complete.
theorem downloads_resumed [DecidableEq H] (starts : Starts numChunks d) (events : List SessionEvent)
    (regular : Along (session sha numChunks) (Regular numChunks) d events) : Survives sha numChunks (events.foldl (session sha numChunks) d) := by
  have all : AllFine sha numChunks (events.foldl (session sha numChunks) d) := by
    refine regular.kept (starts_allFine starts) fun d event all regular => ?_
    exact session_allFine starts.few all regular
  generalize events.foldl (session sha numChunks) d = s at all
  refine ⟨fun cd packet now pd found aligned complete => ?_,fun canMap fresh downloaded unwanted memory incomplete remaps => ?_⟩
  · have fine := all.fine (readUint32 packet 1)
    rw [download_found found] at fine
    exact Fine.hash fine aligned _ now complete
  · unfold session
    dsimp only
    rw [incomplete,if_neg Bool.false_ne_true]
    exact (loadDownloads_restoring all starts.few remaps fresh memory).restarted

-- One byte of a chunk of two pieces is there when the program ends.
def oneByte : List SessionEvent := [.work (.stopAndReassign 0 0 0),.work (.piece 0 true false 0 [7,0,0,0,0,0,0,64,0,5])]

def oneChunk : Downloader (List UInt8) (List UInt8) :=
  ⟨false,fun _ => 16385,fun _ => [],.empty,[],fun _ => Session.idle,Session.emptyCache 9,0,0,0⟩

theorem one_byte_resumed : Restarted (fun _ => false) 0 (oneByte.foldl (session Session.plain 1) oneChunk)
    ((oneByte.foldl (session Session.plain 1) oneChunk).session Session.plain 1
      (.restart (fun _ _ => true) (fun _ _ => 7) 0 (fun _ => false) fun _ => [])) := by
  have starts : Starts 1 oneChunk := ⟨rfl,rfl,rfl,fun _ => Nat.le_refl _,by decide⟩
  have aligned : readUint32 [7,0,0,0,0,0,0,64,0,5] 5 % maxPieceLen = 0 := by decide
  have along : Along (session Session.plain 1) (Regular 1) oneChunk oneByte := ⟨Nat.one_pos,aligned,trivial⟩
  exact (downloads_resumed starts oneByte along).restart _ _ _ _ _ rfl fun _ _ _ _ _ => rfl

end Downloader

end KtorrentStream.Download
