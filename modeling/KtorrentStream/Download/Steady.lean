import KtorrentStream.Util.PtrMapTotal
import KtorrentStream.Download.PieceBytes
import KtorrentStream.Download.CurrentChunks
set_option autoImplicit true

namespace KtorrentStream.Download.Downloader
open KtorrentStream.Lib KtorrentStream.Util KtorrentStream.Diskio ChunkDownload

-- The sum of bytesDownloaded() over the ChunkDownloads in downloading_chunks.
def unfinishedBytes (d : Downloader σ H) : Nat := d.downloadingChunks.total ChunkDownload.bytesDownloaded

-- A chunk that is not being downloaded is like one whose download begins.
def download (sha : Sha1 σ H) (d : Downloader σ H) (i : Nat) : ChunkDownload σ H :=
  (d.downloadingChunks.find i).getD (.new sha i (d.chunkSize i).toNat)

def AllWhole (sha : Sha1 σ H) (d : Downloader σ H) : Prop := ∀ i, Whole sha i (d.chunkSize i).toNat (d.download sha i)

variable {sha : Sha1 σ H} {d d' d'' : Downloader σ H}

theorem download_found (found : d.downloadingChunks.find i = some cd) : d.download sha i = cd := by
  rw [download,found]
  rfl

theorem download_none (absent : d.downloadingChunks.find i = none) : d.download sha i = .new sha i (d.chunkSize i).toNat := by
  rw [download,absent]
  rfl

theorem part_bytes (sha : Sha1 σ H) (d : Downloader σ H) (i : Nat) :
    d.downloadingChunks.part ChunkDownload.bytesDownloaded i = (d.download sha i).bytesDownloaded := by
  unfold PtrMap.part
  cases found : d.downloadingChunks.find i with
  | none =>
    rw [download_none found,new_bytes]
    rfl
  | some cd =>
    rw [download_found found]
    rfl

-- Only the download of chunk i is different.
theorem unfinished_change (i : Nat)
    (others : ∀ j, j ≠ i → (d'.download sha j).bytesDownloaded = (d.download sha j).bytesDownloaded) :
    d'.unfinishedBytes + (d.download sha i).bytesDownloaded = d.unfinishedBytes + (d'.download sha i).bytesDownloaded := by
  rw [← part_bytes,← part_bytes]
  apply PtrMap.total_change
  intro j other
  rw [part_bytes sha,part_bytes sha,others j other]

theorem none_unfinished (none : ∀ i cd, d.downloadingChunks.find i = some cd → cd.bytesDownloaded = 0) : d.unfinishedBytes = 0 := by
  unfold unfinishedBytes
  refine PtrMap.total_eq_zero.mpr fun i => ?_
  unfold PtrMap.part
  cases found : d.downloadingChunks.find i with
  | none => rfl
  | some cd => exact none i cd found

-- What moves no bytes: requests, downloads that begin, and those that end with
-- nothing downloaded.
structure Steady (sha : Sha1 σ H) (d d' : Downloader σ H) : Prop where
  bytes : d'.bytesDownloaded = d.bytesDownloaded
  sizes : d'.chunkSize = d.chunkSize
  same : ∀ i, (d'.download sha i).bytesDownloaded = (d.download sha i).bytesDownloaded
  whole : d.AllWhole sha → d'.AllWhole sha

theorem Steady.refl (sha : Sha1 σ H) (d : Downloader σ H) : Steady sha d d := ⟨rfl,rfl,fun _ => rfl,id⟩

theorem Steady.trans (first : Steady sha d d') (second : Steady sha d' d'') : Steady sha d d'' where
  bytes := second.bytes.trans first.bytes
  sizes := second.sizes.trans first.sizes
  same i := (second.same i).trans (first.same i)
  whole whole := second.whole (first.whole whole)

theorem Steady.unfinished (steady : Steady sha d d') : d'.unfinishedBytes = d.unfinishedBytes := by
  unfold unfinishedBytes
  apply PtrMap.total_congr
  intro i
  rw [part_bytes sha,part_bytes sha,steady.same]

theorem Steady.other (chunks : d'.downloadingChunks = d.downloadingChunks) (bytes : d'.bytesDownloaded = d.bytesDownloaded)
    (sizes : d'.chunkSize = d.chunkSize) : Steady sha d d' := by
  have same : ∀ i, d'.download sha i = d.download sha i := fun i => by rw [download,download,chunks,sizes]
  refine ⟨bytes,sizes,fun i => by rw [same],?_⟩
  intro whole i
  rw [same,sizes]
  exact whole i

-- Requests, and downloads that begin, of chunks in A only: nothing that is
-- stored changes.
structure Stores (sha : Sha1 σ H) (A : Nat → Prop) (d d' : Downloader σ H) : Prop where
  bytes : d'.bytesDownloaded = d.bytesDownloaded
  sizes : d'.chunkSize = d.chunkSize
  cache : d'.cache = d.cache
  keys : ∀ i, (d'.downloadingChunks.find i).isSome → (d.downloadingChunks.find i).isSome ∨ A i
  same : ∀ i, SameStore (d.download sha i) (d'.download sha i)

variable {A : Nat → Prop}

theorem Stores.refl (sha : Sha1 σ H) (A : Nat → Prop) (d : Downloader σ H) : Stores sha A d d :=
  ⟨rfl,rfl,rfl,fun _ there => .inl there,fun _ => .refl _⟩

theorem Stores.trans (first : Stores sha A d d') (second : Stores sha A d' d'') : Stores sha A d d'' where
  bytes := second.bytes.trans first.bytes
  sizes := second.sizes.trans first.sizes
  cache := second.cache.trans first.cache
  keys i there := (second.keys i there).elim (first.keys i) .inr
  same i := (first.same i).trans (second.same i)

theorem Stores.steady (stores : Stores sha A d d') : Steady sha d d' := by
  refine ⟨stores.bytes,stores.sizes,fun i => (stores.same i).bytes,?_⟩
  intro whole i
  rw [stores.sizes]
  exact (whole i).sameStore (stores.same i)

theorem Stores.other (chunks : d'.downloadingChunks = d.downloadingChunks) (bytes : d'.bytesDownloaded = d.bytesDownloaded)
    (sizes : d'.chunkSize = d.chunkSize) (cache : d'.cache = d.cache) : Stores sha A d d' := by
  refine ⟨bytes,sizes,cache,fun i there => .inl ?_,fun i => ?_⟩
  · rw [← chunks]
    exact there
  · rw [download,download,chunks,sizes]
    exact .refl _

theorem peers_stores (sha : Sha1 σ H) (A : Nat → Prop) (d : Downloader σ H) (peers : Peers) :
    Stores sha A d {d with peers := peers} := .other rfl rfl rfl rfl

theorem foldl_stores {β : Type} (l : List β) (g : Downloader σ H → β → Downloader σ H) (each : ∀ d x, Stores sha A d (g d x))
    (d : Downloader σ H) : Stores sha A d (l.foldl g d) :=
  foldl_related (Stores.refl sha A) Stores.trans l (fun d x _ => each d x) d

theorem visit_stores {f : ChunkDownload σ H → Peers → ChunkDownload σ H × Peers}
    (store : ∀ (cd : ChunkDownload σ H) (peers : Peers), SameStore cd (f cd peers).1) (d : Downloader σ H) (i : Nat) :
    Stores sha A d (d.visit i f) := by
  obtain ⟨bytes,sizes,cache⟩ := visit_frame d i f
  refine ⟨bytes,sizes,cache,fun j there => .inl ?_,fun j => ?_⟩
  · rw [visit_find] at there
    by_cases here : j = i
    · rw [if_pos here,Option.isSome_map] at there
      exact there
    · rw [if_neg here] at there
      exact there
  · rw [download,download,visit_find,sizes]
    by_cases here : j = i
    · rw [if_pos here]
      cases d.downloadingChunks.find j with
      | none => exact .refl _
      | some cd => exact store cd d.peers
    · rw [if_neg here]
      exact .refl _

theorem begin_stores (absent : d.downloadingChunks.find i = none) (wanted : A i) :
    Stores sha A d {d with downloadingChunks := d.downloadingChunks.insert i (.new sha i (d.chunkSize i).toNat)} := by
  refine ⟨rfl,rfl,rfl,fun j there => ?_,fun j => ?_⟩
  · dsimp only at there
    rw [PtrMap.find_insert] at there
    by_cases here : j = i
    · exact .inr (here ▸ wanted)
    · rw [if_neg here] at there
      exact .inl there
  · unfold download
    rw [PtrMap.find_insert]
    by_cases here : j = i
    · rw [if_pos here,here,absent]
      exact .refl _
    · rw [if_neg here]
      exact .refl _

theorem drop_download (f : ChunkDownload σ H → Peers → ChunkDownload σ H × Peers) (d : Downloader σ H) (i j : Nat) :
    ((d.visit i f).erase i).download sha j = if j = i then .new sha j (d.chunkSize j).toNat else d.download sha j := by
  obtain ⟨_,sizes,_⟩ := visit_frame d i f
  show ((((d.visit i f).downloadingChunks.erase i).find j).getD (.new sha j ((d.visit i f).chunkSize j).toNat)) = _
  rw [PtrMap.find_erase,sizes,visit_find]
  by_cases here : j = i
  · rw [if_pos here,if_pos here]
    rfl
  · rw [if_neg here,if_neg here,if_neg here]
    rfl

theorem drop_steady {f : ChunkDownload σ H → Peers → ChunkDownload σ H × Peers} (none : (d.download sha i).bytesDownloaded = 0) :
    Steady sha d ((d.visit i f).erase i) := by
  obtain ⟨bytes,sizes,_⟩ := visit_frame d i f
  refine ⟨bytes,sizes,?_,?_⟩
  · intro j
    rw [drop_download]
    by_cases here : j = i
    · rw [if_pos here,new_bytes,here,none]
    · rw [if_neg here]
  · intro whole j
    rw [drop_download,show ((d.visit i f).erase i).chunkSize = d.chunkSize from sizes]
    by_cases here : j = i
    · rw [if_pos here]
      exact new_whole sha j _
    · rw [if_neg here]
      exact whole j

theorem assign_stores (now pd i : Nat) (wanted : A i) (d : Downloader σ H) :
    Stores sha A d (d.assignPieceDownloaderToChunk sha now pd i).2 := by
  unfold assignPieceDownloaderToChunk
  split
  · exact visit_stores (fun cd _ => assign_store cd) d i
  · rename_i absent
    exact (begin_stores absent wanted).trans (visit_stores (fun cd _ => assign_store cd) _ i)

theorem downloadFrom_stores (now pd : Nat) (answer : Option Nat) (wanted : ∀ i ∈ answer, A i) (d : Downloader σ H) :
    Stores sha A d (d.downloadFrom sha now pd answer).2 := by
  unfold downloadFrom
  split
  · exact assign_stores now pd _ (wanted _ rfl) d
  · split
    · split
      · exact visit_stores (fun cd _ => assign_store cd) d _
      · exact .refl sha A d
    · exact .refl sha A d

-- The answers of the chunk selector that are left are some of those it gave.
theorem downloadLoop_stores (now pd fuel : Nat) (answers : List (Option Nat)) (wanted : ∀ i, some i ∈ answers → A i)
    (d : Downloader σ H) : Stores sha A d (downloadLoop sha now pd fuel answers d).2 ∧
      ∀ i, some i ∈ (downloadLoop sha now pd fuel answers d).1 → A i := by
  induction fuel generalizing answers d with
  | zero => exact ⟨.refl sha A d,wanted⟩
  | succ fuel ih =>
    have later : ∀ i, some i ∈ answers.tail → A i := fun i member => wanted i (List.mem_of_mem_tail member)
    have head : ∀ i ∈ answers.head?.join, A i := by
      intro i answered
      cases answers with
      | nil => cases answered
      | cons answer rest => exact wanted i (List.mem_cons.mpr (.inl answered.symm))
    have first : Stores sha A d (d.downloadFrom sha now pd answers.head?.join).2 := downloadFrom_stores now pd _ head d
    unfold downloadLoop
    split
    · split
      · rename_i result
        rw [result] at first
        exact ⟨first,later⟩
      · rename_i d' result
        rw [result] at first
        have again := peers_stores sha A d' (d'.peers.modify pd (·.setNearlyDone false))
        obtain ⟨rest,left⟩ := ih answers.tail later {d' with peers := d'.peers.modify pd (·.setNearlyDone false)}
        exact ⟨(first.trans again).trans rest,left⟩
    · exact ⟨.refl sha A d,wanted⟩

theorem assignPeers_stores (now : Nat) (answers : List (Option Nat)) (wanted : ∀ i, some i ∈ answers → A i)
    (d : Downloader σ H) : Stores sha A d (d.assignPeers sha now answers) := by
  unfold assignPeers
  generalize d.pieceDownloaders = pds
  have all : ∀ (s : List (Option Nat) × Downloader σ H), (∀ i, some i ∈ s.1 → A i) → Stores sha A s.2
      (pds.foldl (fun s pd =>
        if (s.2.peers pd).isChoked then s
        else downloadLoop sha now pd ((s.2.peers pd).getMaxChunkDownloads.getD 0 + 2) s.1 s.2) s).2 := by
    induction pds with
    | nil => exact fun s _ => .refl sha A s.2
    | cons pd rest ih =>
      intro s wanted
      rw [List.foldl_cons]
      split
      · exact ih s wanted
      · obtain ⟨first,left⟩ := downloadLoop_stores now pd ((s.2.peers pd).getMaxChunkDownloads.getD 0 + 2) s.1 wanted s.2
        exact first.trans (ih _ left)
  exact all (answers,d) wanted

theorem timedout_stores (now pd : Nat) (r : Request) (d : Downloader σ H) : Stores sha A d (d.timedout now pd r) := by
  refine visit_stores (fun cd peers => ?_) d r.index
  split
  · exact onTimeout_store cd
  · exact .refl cd

theorem rejected_stores (now pd : Nat) (r : Request) (d : Downloader σ H) : Stores sha A d (d.rejected now pd r) := by
  refine visit_stores (fun cd peers => ?_) d r.index
  split
  · exact onRejected_store cd
  · exact .refl cd

theorem checkTimeouts_stores (now pd fuel : Nat) (d : Downloader σ H) : Stores sha A d (checkTimeouts now pd fuel d) := by
  induction fuel generalizing d with
  | zero => exact .refl sha A d
  | succ fuel ih =>
    unfold checkTimeouts
    split
    · exact .refl sha A d
    · rename_i first rest _
      split
      · have taken := peers_stores sha A d (d.peers.modify pd fun p => {p with reqs := rest})
        exact (taken.trans (timedout_stores now pd first.1 _)).trans (ih _)
      · exact .refl sha A d

theorem update_stores (now : Nat) (needsUpdate : Nat → Bool) (answers : List (Option Nat))
    (wanted : ∀ i, some i ∈ answers → A i) (d : Downloader σ H) : Stores sha A d (d.update sha now needsUpdate answers) := by
  unfold update
  split
  · exact .refl sha A d
  · unfold normalUpdate
    refine ((foldl_stores _ _ (fun d i => visit_stores (fun cd peers => ?_) d i) d).trans
      (assignPeers_stores now answers wanted _)).trans (foldl_stores _ _ (fun d pd => checkTimeouts_stores now pd _ d) _)
    split
    · exact .refl cd
    · split
      · exact releaseAllPDs_store cd
      · split
        · exact sendRequests_store cd peers now
        · exact .refl cd

theorem removePieceDownloader_stores (pd : Nat) (d : Downloader σ H) : Stores sha A d (d.removePieceDownloader pd) :=
  (foldl_stores _ _ (fun d i => visit_stores (fun cd _ => release_store cd) d i) d).trans (.other rfl rfl rfl rfl)

theorem stopAndReassign_stores (now pd i : Nat) (wanted : A i) (d : Downloader σ H) :
    Stores sha A d (d.stopAndReassignPieceDownloader sha now pd i) :=
  ((removePieceDownloader_stores pd d).trans (assign_stores now pd i wanted _)).trans (.other rfl rfl rfl rfl)

-- A piece for a ChunkDownload that is there.

theorem counted_bytes (d : Downloader σ H) (cd : ChunkDownload σ H) (p : Piece) (ok done : Bool) :
    (d.counted cd p ok done).bytesDownloaded =
      (if ok then d.bytesDownloaded + p.len else d.bytesDownloaded) - if done then 0 else cd.size := by
  unfold counted
  generalize (if ok then d.bytesDownloaded + p.len else d.bytesDownloaded) = got
  cases done with
  | true => rfl
  | false =>
    show (if cd.size > got then 0 else got - cd.size) = got - cd.size
    split
    · omega
    · rfl

section
variable [DecidableEq H] {cd : ChunkDownload σ H} {packet : List UInt8} {now pd : Nat} {saved : Bool}

theorem handlePiece_threw_stores (running : paused = false) (long : 9 ≤ packet.length) (throws : d.mapThrows (pieceOf pd packet) = true) :
    Stores sha A d (d.handlePiece sha now saved paused pd packet) := by
  rw [handlePiece_threw running long throws]
  exact (peers_stores sha A d _).trans (visit_stores (fun cd _ => ⟨_,_,_,_,rfl⟩) _ _)

theorem handlePiece_idle (idle : paused = true ∨ packet.length < 9 ∨ d.completed = true ∨
    d.downloadingChunks.find (readUint32 packet 1) = none) : Steady sha d (d.handlePiece sha now saved paused pd packet) := by
  refine handlePiece_by (.refl sha d) (fun running long throws => (handlePiece_threw_stores (A := fun _ => True) running long throws).steady)
    (fun _ _ _ => .other rfl rfl rfl) fun running long incomplete _ cd found => ?_
  rcases idle with on | short | done | absent
  · rw [running] at on
    cases on
  · omega
  · rw [incomplete] at done
    cases done
  · rw [found] at absent
    cases absent

structure Taken (sha : Sha1 σ H) (d : Downloader σ H) (i : Nat) (r : Received σ H) (len : Nat) (good : Bool) (d' : Downloader σ H) :
    Prop where
  sizes : d'.chunkSize = d.chunkSize
  others : ∀ j, j ≠ i → d'.download sha j = d.download sha j
  here : d'.download sha i = if r.complete then .new sha i (d.chunkSize i).toNat else r.cd
  bytes : d'.bytesDownloaded = (if r.isNeeded then d.bytesDownloaded + len else d.bytesDownloaded) -
    if r.complete && !good then r.cd.size else 0

theorem handlePiece_taken (long : 9 ≤ packet.length) (incomplete : d.completed = false)
    (found : d.downloadingChunks.find (readUint32 packet 1) = some cd) (safe : d.mapThrows (pieceOf pd packet) = false) :
    Taken sha d (readUint32 packet 1) (delivered sha d now pd packet cd) (packet.drop 9).length
      (d.finished (delivered sha d now pd packet cd).cd saved) (d.handlePiece sha now saved false pd packet) := by
  have place : ∀ j, j ≠ readUint32 packet 1 →
      (d.downloadingChunks.modify (readUint32 packet 1) fun _ => (delivered sha d now pd packet cd).cd).find j =
        d.downloadingChunks.find j := fun j other => by rw [PtrMap.find_modify,if_neg other]
  rw [handlePiece_delivered rfl long incomplete found safe]
  dsimp only
  split
  · rename_i complete
    refine ⟨rfl,?_,?_,?_⟩
    · intro j other
      show (((d.downloadingChunks.modify (readUint32 packet 1) fun _ => (delivered sha d now pd packet cd).cd).erase
        (readUint32 packet 1)).find j).getD _ = _
      rw [PtrMap.find_erase,if_neg other,place j other]
      rfl
    · show ((PtrMap.erase _ (readUint32 packet 1)).find (readUint32 packet 1)).getD _ = _
      rw [PtrMap.find_erase,if_pos rfl,complete]
      rfl
    · refine (counted_bytes _ _ _ _ _).trans ?_
      rw [complete,Bool.true_and]
      show _ - (if d.finished (delivered sha d now pd packet cd).cd saved then 0 else _) = _ - (if !d.finished _ saved then _ else 0)
      cases d.finished (delivered sha d now pd packet cd).cd saved <;> rfl
  · rename_i unfinished
    rw [Bool.not_eq_true] at unfinished
    refine ⟨rfl,?_,?_,?_⟩
    · intro j other
      show ((d.downloadingChunks.modify (readUint32 packet 1) fun _ => (delivered sha d now pd packet cd).cd).find j).getD _ = _
      rw [place j other]
      rfl
    · show ((d.downloadingChunks.modify (readUint32 packet 1) fun _ => (delivered sha d now pd packet cd).cd).find
        (readUint32 packet 1)).getD _ = _
      rw [PtrMap.find_modify,if_pos rfl,found,unfinished]
      rfl
    · rw [unfinished]
      rfl

end

theorem Taken.whole {r : Received σ H} (taken : Taken sha d i r len good d') (whole : d.AllWhole sha)
    (here : Whole sha i (d.chunkSize i).toNat r.cd) : d'.AllWhole sha := by
  intro j
  rw [taken.sizes]
  by_cases same : j = i
  · rw [same,taken.here]
    split
    · exact new_whole sha i _
    · exact here
  · rw [taken.others j same]
    exact whole j

theorem Taken.unfinished {r : Received σ H} (taken : Taken sha d i r len good d') :
    d'.unfinishedBytes + (d.download sha i).bytesDownloaded =
      d.unfinishedBytes + if r.complete then 0 else r.cd.bytesDownloaded := by
  have change := @unfinished_change σ H sha d d' i fun j other => by rw [taken.others j other]
  rw [change,taken.here]
  split
  · rw [new_bytes]
  · rfl

-- bytes_downloaded are those of the chunks that are there and of the ChunkDownloads.
structure Counted (sha : Sha1 σ H) (downloaded : Nat) (d : Downloader σ H) : Prop where
  whole : d.AllWhole sha
  bytes : d.bytesDownloaded = downloaded + d.unfinishedBytes

theorem Steady.counted (steady : Steady sha d d') (counted : Counted sha downloaded d) : Counted sha downloaded d' where
  whole := steady.whole counted.whole
  bytes := by rw [steady.bytes,steady.unfinished,counted.bytes]

def resumed (d : Downloader σ H) (i : Nat) (cd : ChunkDownload σ H) (cache : Cache) : Downloader σ H :=
  {d with
    cache := cache
    downloadingChunks := d.downloadingChunks.insert i cd
    bytesDownloaded := d.bytesDownloaded + cd.bytesDownloaded}

theorem resumed_counted (counted : Counted sha downloaded d) (absent : d.downloadingChunks.find i = none)
    (whole : Whole sha i (d.chunkSize i).toNat cd) (cache : Cache) : Counted sha downloaded (d.resumed i cd cache) := by
  have there : ∀ j, (d.resumed i cd cache).download sha j = if j = i then cd else d.download sha j := by
    intro j
    unfold download resumed
    dsimp only
    rw [PtrMap.find_insert]
    by_cases here : j = i
    · rw [if_pos here,if_pos here]
      rfl
    · rw [if_neg here,if_neg here]
  constructor
  · intro j
    rw [there]
    by_cases here : j = i
    · rw [if_pos here,here]
      exact whole
    · rw [if_neg here]
      exact counted.whole j
  · have change := @unfinished_change σ H sha d (d.resumed i cd cache) i fun j other => by rw [there,if_neg other]
    rw [there,if_pos rfl,download_none absent,new_bytes] at change
    have before := counted.bytes
    show d.bytesDownloaded + cd.bytesDownloaded = _
    omega

theorem loadChunks_counted (numChunks : Nat) (unwanted : Nat → Bool) (memory : Nat → List UInt8) (k : Nat) (file : File)
    (counted : Counted sha downloaded d) :
    Counted sha downloaded (loadChunks sha numChunks unwanted memory k d file) ∧
      (loadChunks sha numChunks unwanted memory k d file).chunkSize = d.chunkSize := by
  induction k generalizing d file with
  | zero => exact ⟨counted,rfl⟩
  | succ k ih =>
    have kept : ∀ cache : Cache, Counted sha downloaded {d with cache := cache} := by
      intro cache
      have steady : Steady sha d {d with cache := cache} := .other rfl rfl rfl
      exact steady.counted counted
    unfold loadChunks
    dsimp only
    split
    · exact ⟨counted,rfl⟩
    · split
      · exact ⟨counted,rfl⟩
      · rename_i absent
        split
        · exact ih _ (kept _)
        · rename_i cd cache rest loaded
          split
          · exact ih _ (kept _)
          · have whole := load_whole (new_whole sha _ _) loaded
            refine ih _ (resumed_counted counted ?_ whole cache)
            simpa [PtrMap.contains] using absent

end KtorrentStream.Download.Downloader
