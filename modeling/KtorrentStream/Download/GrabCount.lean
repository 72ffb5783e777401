import KtorrentStream.Download.Grabbing
set_option autoImplicit true

namespace KtorrentStream.Download.Downloader
open KtorrentStream.Lib KtorrentStream.Util KtorrentStream.Diskio

-- What the Downloader does is made of these: a call to a ChunkDownload, a new
-- one, the end of one that has no downloaders, and what concerns neither.
structure Frame (d d' : Downloader σ H) : Prop where
  chunkSize : d'.chunkSize = d.chunkSize
  pieceDownloaders : d'.pieceDownloaders = d.pieceDownloaders

inductive Move (may : Nat → Prop) (sha : Sha1 σ H) (d d' : Downloader σ H) : Prop
  | call (found : d.downloadingChunks.find i = some cd) (balanced : cd.Balanced may d.peers cd' d'.peers)
    (chunk : cd.SameChunk cd') (chunks : d'.downloadingChunks = d.downloadingChunks.modify i fun _ => cd') (frame : Frame d d')
  | create (absent : d.downloadingChunks.find i = none)
    (chunks : d'.downloadingChunks = d.downloadingChunks.insert i (.new sha i (d.chunkSize i).toNat))
    (peers : d'.peers = d.peers) (frame : Frame d d')
  | drop (idle : ∀ cd, d.downloadingChunks.find i = some cd → cd.pdown = [])
    (chunks : d'.downloadingChunks = d.downloadingChunks.erase i) (peers : d'.peers = d.peers) (frame : Frame d d')
  | other (chunks : d'.downloadingChunks = d.downloadingChunks) (grabs : SameGrabs d.peers d'.peers) (frame : Frame d d')

abbrev Moves (may : Nat → Prop) (sha : Sha1 σ H) : Downloader σ H → Downloader σ H → Prop := Relation.ReflTransGen (Move may sha)

section
open ChunkDownload
variable {may : Nat → Prop} {sha : Sha1 σ H} {d d' : Downloader σ H} {i pd : Nat}

theorem Move.frame (move : Move may sha d d') : Frame d d' := by
  cases move with
  | call _ _ _ _ frame => exact frame
  | create _ _ _ frame => exact frame
  | drop _ _ _ frame => exact frame
  | other _ _ frame => exact frame

theorem Moves.frame (moves : Moves may sha d d') : Frame d d' := by
  induction moves with
  | refl => exact ⟨rfl,rfl⟩
  | tail _ move ih => exact ⟨move.frame.chunkSize.trans ih.chunkSize,move.frame.pieceDownloaders.trans ih.pieceDownloaders⟩

theorem foldl_moves {β : Type} (l : List β) (g : Downloader σ H → β → Downloader σ H) (each : ∀ d, ∀ x ∈ l, Moves may sha d (g d x))
    (d : Downloader σ H) : Moves may sha d (l.foldl g d) :=
  foldl_related (fun _ => .refl) .trans l each d

theorem visit_moves {f : ChunkDownload σ H → Peers → ChunkDownload σ H × Peers}
    (balanced : ∀ (cd : ChunkDownload σ H) (peers : Peers), cd.Balanced may peers (f cd peers).1 (f cd peers).2)
    (chunk : ∀ (cd : ChunkDownload σ H) (peers : Peers), cd.SameChunk (f cd peers).1) (d : Downloader σ H) (i : Nat) : Moves may sha d (d.visit i f) := by
  unfold visit
  split
  · exact .refl
  · rename_i cd found
    exact .single (.call found (balanced cd d.peers) (chunk cd d.peers) rfl ⟨rfl,rfl⟩)

theorem visitAll_moves {f : ChunkDownload σ H → Peers → ChunkDownload σ H × Peers}
    (balanced : ∀ (cd : ChunkDownload σ H) (peers : Peers), cd.Balanced may peers (f cd peers).1 (f cd peers).2)
    (chunk : ∀ (cd : ChunkDownload σ H) (peers : Peers), cd.SameChunk (f cd peers).1) (d : Downloader σ H) : Moves may sha d (d.visitAll f) :=
  foldl_moves _ _ (fun d i _ => visit_moves balanced chunk d i) d

theorem visit_assign_moves (allowed : may pd) (now : Nat) (d : Downloader σ H) (i : Nat) :
    Moves may sha d (d.visit i fun cd peers => (cd.assign peers now pd).2) :=
  visit_moves (fun cd peers => assign_balanced cd peers now allowed) (fun cd _ => (assign_store cd).chunk) d i

theorem assign_moves (allowed : may pd) (now i : Nat) (d : Downloader σ H) :
    Moves may sha d (d.assignPieceDownloaderToChunk sha now pd i).2 := by
  unfold assignPieceDownloaderToChunk
  split
  · exact visit_assign_moves allowed now d i
  · rename_i absent
    have created : Move may sha d {d with downloadingChunks := d.downloadingChunks.insert i (.new sha i (d.chunkSize i).toNat)} :=
      .create absent rfl rfl ⟨rfl,rfl⟩
    exact .head created (visit_assign_moves allowed now _ i)

theorem downloadFrom_moves (allowed : may pd) (now : Nat) (answer : Option Nat) (d : Downloader σ H) :
    Moves may sha d (d.downloadFrom sha now pd answer).2 := by
  unfold downloadFrom
  split
  · exact assign_moves allowed now _ d
  · split
    · split
      · exact visit_assign_moves allowed now d _
      · exact .refl
    · exact .refl

theorem modify_move (f : PieceDownloader → PieceDownloader) (keeps : ∀ p, (f p).grabbed = p.grabbed) (d : Downloader σ H)
    (pd : Nat) : Move may sha d {d with peers := d.peers.modify pd f} := .other rfl (modify_grabs keeps d.peers) ⟨rfl,rfl⟩

theorem downloadLoop_moves (allowed : may pd) (now fuel : Nat) (answers : List (Option Nat)) (d : Downloader σ H) :
    Moves may sha d (downloadLoop sha now pd fuel answers d).2 := by
  induction fuel generalizing answers d with
  | zero => exact .refl
  | succ fuel ih =>
    have first := @downloadFrom_moves σ H may sha pd allowed now answers.head?.join d
    unfold downloadLoop
    split
    · split
      · rename_i result
        rw [result] at first
        exact first
      · rename_i d' result
        rw [result] at first
        have again := @modify_move σ H may sha (·.setNearlyDone false) (fun _ => rfl) d' pd
        exact (first.tail again).trans (ih answers.tail _)
    · exact .refl

theorem assignPeers_moves (now : Nat) (answers : List (Option Nat)) (d : Downloader σ H) (allowed : ∀ pd ∈ d.pieceDownloaders, may pd) :
    Moves may sha d (d.assignPeers sha now answers) := by
  unfold assignPeers
  refine foldl_related (R := fun s s' : List (Option Nat) × Downloader σ H => Moves may sha s.2 s'.2) (fun _ => .refl) .trans
    d.pieceDownloaders (fun s pd member => ?_) (answers,d)
  split
  · exact .refl
  · exact downloadLoop_moves (allowed pd member) now _ s.1 s.2

theorem timedout_moves (now pd : Nat) (r : Request) (d : Downloader σ H) : Moves may sha d (d.timedout now pd r) := by
  apply visit_moves
  · intro cd peers
    split
    · unfold onTimeout
      split
      · exact notDownloaded_balanced cd peers now r false
      · exact (Quiet.refl cd peers).balanced
    · exact (Quiet.refl cd peers).balanced
  · intro cd peers
    split
    · exact (onTimeout_store cd).chunk
    · exact ⟨rfl,rfl,rfl,rfl⟩

theorem rejected_moves (now pd : Nat) (r : Request) (d : Downloader σ H) : Moves may sha d (d.rejected now pd r) := by
  apply visit_moves
  · intro cd peers
    split
    · unfold onRejected
      split
      · exact notDownloaded_balanced cd peers now r true
      · exact (Quiet.refl cd peers).balanced
    · exact (Quiet.refl cd peers).balanced
  · intro cd peers
    split
    · exact (onRejected_store cd).chunk
    · exact ⟨rfl,rfl,rfl,rfl⟩

theorem checkTimeouts_moves (now pd fuel : Nat) (d : Downloader σ H) : Moves may sha d (checkTimeouts now pd fuel d) := by
  induction fuel generalizing d with
  | zero => exact .refl
  | succ fuel ih =>
    unfold checkTimeouts
    split
    · exact .refl
    · rename_i first rest _
      split
      · have taken := @modify_move σ H may sha (fun p => {p with reqs := rest}) (fun _ => rfl) d pd
        exact .head taken ((timedout_moves now pd first.1 _).trans (ih _))
      · exact .refl

theorem normalUpdate_moves (now : Nat) (needsUpdate : Nat → Bool) (answers : List (Option Nat)) (d : Downloader σ H)
    (allowed : ∀ pd ∈ d.pieceDownloaders, may pd) : Moves may sha d (d.normalUpdate sha now needsUpdate answers) := by
  unfold normalUpdate
  have first := @visitAll_moves σ H may sha
    (fun cd peers =>
      if cd.pdown.isEmpty then (cd,peers)
      else if cd.isChoked peers then cd.releaseAllPDs peers
      else if needsUpdate cd.index then cd.sendRequests peers now
      else (cd,peers))
    (fun cd peers => by
      split
      · exact (Quiet.refl cd peers).balanced
      · split
        · exact releaseAllPDs_balanced cd peers
        · split
          · exact (sendRequests_quiet cd peers now).balanced
          · exact (Quiet.refl cd peers).balanced)
    (fun cd peers => by
      split
      · exact ⟨rfl,rfl,rfl,rfl⟩
      · split
        · exact (releaseAllPDs_store cd).chunk
        · split
          · exact (sendRequests_store cd peers now).chunk
          · exact ⟨rfl,rfl,rfl,rfl⟩)
    d
  exact first.trans (assignPeers_moves now answers _ (first.frame.pieceDownloaders ▸ allowed))

theorem update_moves (now : Nat) (needsUpdate : Nat → Bool) (answers : List (Option Nat)) (d : Downloader σ H)
    (allowed : ∀ pd ∈ d.pieceDownloaders, may pd) : Moves may sha d (d.update sha now needsUpdate answers) := by
  unfold update
  split
  · exact .refl
  · exact (normalUpdate_moves now needsUpdate answers d allowed).trans
      (foldl_moves _ _ (fun d pd _ => checkTimeouts_moves now pd _ d) _)

theorem erase_move (idle : ∀ cd, d.downloadingChunks.find i = some cd → cd.pdown = []) : Move may sha d (d.erase i) :=
  .drop idle rfl rfl ⟨rfl,rfl⟩

theorem pieceReceived_moves [DecidableEq H] (now : Nat) (saved : Bool) (p : Piece) (d : Downloader σ H) :
    Moves may sha d (d.pieceReceived sha now saved p) := by
  unfold Downloader.pieceReceived
  split
  · exact .refl
  · split
    · exact .single (.other rfl (.refl _) ⟨rfl,rfl⟩)
    · rename_i cd found
      obtain ⟨balanced,idle⟩ := @pieceReceived_balanced σ H may cd sha d.peers now d.cache p
      have called : ∀ d' : Downloader σ H,
          d'.downloadingChunks = d.downloadingChunks.modify p.index (fun _ => (cd.pieceReceived sha d.peers now d.cache p).cd) →
          d'.peers = (cd.pieceReceived sha d.peers now d.cache p).peers → Frame d d' → Move may sha d d' := by
        intro d' chunks peers frame
        exact .call found (peers ▸ balanced) (pieceReceived_chunk cd) chunks frame
      dsimp only
      split
      · rename_i complete
        refine .trans ?_ (.single (erase_move ?_))
        · exact .single (called _ rfl rfl ⟨rfl,rfl⟩)
        · intro cd' there
          have here : (d.downloadingChunks.modify p.index fun _ => (cd.pieceReceived sha d.peers now d.cache p).cd).find p.index =
              some (cd.pieceReceived sha d.peers now d.cache p).cd := by
            rw [PtrMap.find_modify,if_pos rfl,found]
            rfl
          rw [show (d.downloadingChunks.modify p.index fun _ => _).find p.index = some cd' from there] at here
          rw [Option.some.inj here]
          exact idle complete
      · exact .single (called _ rfl rfl ⟨rfl,rfl⟩)

theorem handlePiece_moves [DecidableEq H] (now : Nat) (saved paused : Bool) (pd : Nat) (packet : List UInt8) (d : Downloader σ H) :
    Moves may sha d (d.handlePiece sha now saved paused pd packet) := by
  unfold handlePiece
  split
  · exact .refl
  · split
    · exact .refl
    · have first := @modify_move σ H may sha (·.piece (pieceOf pd packet)) (fun p => p.piece_grabbed _) d pd
      have last := fun d => @modify_move σ H may sha (·.update now) (fun _ => rfl) d pd
      dsimp only
      split
      · refine .head first (visit_moves ?_ (fun _ _ => ⟨rfl,rfl,rfl,rfl⟩) _ _)
        intro cd peers
        have quiet : Quiet cd peers {cd with dstatus := cd.statusRemoved (pieceOf pd packet)} peers := ⟨rfl,.refl peers⟩
        exact quiet.balanced
      · exact .head first ((pieceReceived_moves now saved (pieceOf pd packet) _).tail (last _))

theorem releaseLoop_moves (pd : Nat) (d : Downloader σ H) : Moves may sha d (d.visitAll fun cd peers => cd.release peers pd) :=
  visitAll_moves (fun cd peers => release_balanced cd peers pd) (fun cd _ => (release_store cd).chunk) d

-- A ChunkDownload that released its downloaders before it is deleted.
theorem drop_moves {f : ChunkDownload σ H → Peers → ChunkDownload σ H × Peers}
    (balanced : ∀ (cd : ChunkDownload σ H) (peers : Peers), cd.Balanced may peers (f cd peers).1 (f cd peers).2)
    (chunk : ∀ (cd : ChunkDownload σ H) (peers : Peers), cd.SameChunk (f cd peers).1)
    (idle : ∀ cd, d.downloadingChunks.find i = some cd → (f cd d.peers).1.pdown = []) :
    Moves may sha d ((d.visit i f).erase i) := by
  refine .tail (visit_moves balanced chunk d i) (erase_move ?_)
  intro cd found
  unfold visit at found
  split at found
  · rename_i absent
    rw [absent] at found
    cases found
  · rename_i old there
    rw [PtrMap.find_modify,if_pos rfl,there] at found
    rw [← Option.some.inj found]
    exact idle old there

theorem exclude_moves (d : Downloader σ H) (i : Nat) : Moves may sha d (d.exclude i) := by
  unfold exclude
  refine drop_moves ?_ ?_ fun _ _ => rfl
  · intro cd peers
    exact (cancelAll_quiet cd peers).balanced.trans (releaseAllPDs_balanced _ _)
  · intro cd peers
    exact ((cancelAll_store cd).trans (releaseAllPDs_store _)).chunk

theorem dataChecked_moves (okChunks : BitSet) (lower upper : Nat) (d : Downloader σ H) :
    Moves may sha d (d.dataChecked okChunks lower upper) := by
  refine foldl_moves _ _ (fun d i _ => ?_) d
  split
  · exact drop_moves (fun cd peers => releaseAllPDs_balanced cd peers) (fun cd _ => (releaseAllPDs_store cd).chunk) fun _ _ => rfl
  · exact .refl

-- The invariant. `connected` are the peers whose counts are meant.
structure Counting (connected : Nat → Prop) (d : Downloader σ H) : Prop where
  nodup : ∀ i (cd : ChunkDownload σ H), d.downloadingChunks.find i = some cd → cd.pdown.Nodup
  members : ∀ i (cd : ChunkDownload σ H), d.downloadingChunks.find i = some cd → ∀ pd ∈ cd.pdown, connected pd
  grabs : ∀ pd, connected pd → (d.peers pd).grabbed = d.downloadingChunks.countValues fun cd => cd.pdown.contains pd

theorem Move.counting (move : Move may sha d d') (counting : Counting may d) : Counting may d' := by
  cases move with
  | @call i cd cd' found balanced chunk chunks frame =>
    have nodup := counting.nodup i cd found
    have positive : ∀ pd ∈ cd.pdown, 0 < (d.peers pd).grabbed := fun pd member => by
      rw [counting.grabs pd (counting.members i cd found pd member)]
      exact PtrMap.countValues_pos _ _ found (List.contains_iff_mem.mpr member)
    have there : ∀ j (cd2 : ChunkDownload σ H), d'.downloadingChunks.find j = some cd2 →
        cd2 = cd' ∨ d.downloadingChunks.find j = some cd2 := by
      intro j cd2 now
      rw [chunks,PtrMap.find_modify] at now
      split at now
      · rename_i here
        rw [here,found] at now
        exact .inl (Option.some.inj now).symm
      · exact .inr now
    refine ⟨fun j cd2 now => ?_,fun j cd2 now pd member => ?_,fun pd connected => ?_⟩
    · rcases there j cd2 now with rfl | before
      · exact balanced.nodup nodup
      · exact counting.nodup j cd2 before
    · rcases there j cd2 now with rfl | before
      · rcases balanced.members pd member with old | allowed
        · exact counting.members i cd found pd old
        · exact allowed
      · exact counting.members j cd2 before pd member
    · have peers := balanced.grabs nodup positive pd
      have count := PtrMap.countValues_modify d.downloadingChunks (fun cd => cd.pdown.contains pd) cd' found
      rw [← chunks] at count
      have before := counting.grabs pd connected
      omega
  | @create i absent chunks peers frame =>
    have there : ∀ j (cd2 : ChunkDownload σ H), d'.downloadingChunks.find j = some cd2 →
        cd2.pdown = [] ∨ d.downloadingChunks.find j = some cd2 := by
      intro j cd2 now
      rw [chunks,PtrMap.find_insert] at now
      split at now
      · cases now
        exact .inl rfl
      · exact .inr now
    refine ⟨fun j cd2 now => ?_,fun j cd2 now pd member => ?_,fun pd connected => ?_⟩
    · rcases there j cd2 now with empty | before
      · rw [empty]
        exact List.nodup_nil
      · exact counting.nodup j cd2 before
    · rcases there j cd2 now with empty | before
      · rw [empty] at member
        cases member
      · exact counting.members j cd2 before pd member
    · rw [peers,chunks,PtrMap.countValues_insert _ _ _ absent]
      exact counting.grabs pd connected
  | @drop i idle chunks peers frame =>
    have there : ∀ j (cd2 : ChunkDownload σ H), d'.downloadingChunks.find j = some cd2 → d.downloadingChunks.find j = some cd2 := by
      intro j cd2 now
      rw [chunks,PtrMap.find_erase] at now
      split at now
      · cases now
      · exact now
    refine ⟨fun j cd2 now => counting.nodup j cd2 (there j cd2 now),fun j cd2 now => counting.members j cd2 (there j cd2 now),
      fun pd connected => ?_⟩
    rw [peers,chunks,PtrMap.countValues_erase]
    · exact counting.grabs pd connected
    · intro cd found
      rw [idle cd found]
      rfl
  | other chunks grabs frame =>
    refine ⟨?_,?_,fun pd connected => ?_⟩
    · rw [chunks]
      exact counting.nodup
    · rw [chunks]
      exact counting.members
    · rw [chunks,grabs pd]
      exact counting.grabs pd connected

theorem Moves.counting (moves : Moves may sha d d') (counting : Counting may d) : Counting may d' := by
  induction moves with
  | refl => exact counting
  | tail _ move ih => exact move.counting ih

theorem Move.valid (move : Move may sha d d') (valid : d.Valid sha) : d'.Valid sha := by
  intro j cd2 now
  rw [move.frame.chunkSize]
  cases move with
  | @call i cd cd' found balanced chunk chunks frame =>
    rw [chunks,PtrMap.find_modify] at now
    split at now
    · rename_i here
      rw [here,found] at now
      cases now
      obtain ⟨index,size,total,lastSize⟩ := valid i cd found
      rw [here]
      exact ⟨index.trans chunk.index.symm,size.trans chunk.size.symm,total.trans chunk.total.symm,
        lastSize.trans chunk.lastSize.symm⟩
    · exact valid j cd2 now
  | @create i absent chunks peers frame =>
    rw [chunks,PtrMap.find_insert] at now
    split at now
    · rename_i here
      cases now
      rw [here]
      exact ⟨rfl,rfl,rfl,rfl⟩
    · exact valid j cd2 now
  | @drop i idle chunks peers frame =>
    rw [chunks,PtrMap.find_erase] at now
    split at now
    · cases now
    · exact valid j cd2 now
  | other chunks grabs frame =>
    rw [chunks] at now
    exact valid j cd2 now

theorem Moves.valid (moves : Moves may sha d d') (valid : d.Valid sha) : d'.Valid sha := by
  induction moves with
  | refl => exact valid
  | tail _ move ih => exact move.valid ih

-- Whether an event adds or removes peers, or deletes ChunkDownloads that may have some.
def Event.deletes : Event → Bool
  | .addPieceDownloader _ _ => true
  | .removePieceDownloader _ => true
  | .stopAndReassign _ _ _ => true
  | .chunkReady _ _ => true
  | .pause => true
  | .clearDownloads => true
  | _ => false

theorem perform_moves [DecidableEq H] (sha : Sha1 σ H) (d : Downloader σ H) (event : Event) (kind : event.deletes = false)
    (allowed : ∀ pd ∈ d.pieceDownloaders, may pd) : Moves may sha d (d.perform sha event) := by
  cases event with
  | update now needsUpdate answers => exact update_moves now needsUpdate answers d allowed
  | piece now saved paused pd packet => exact handlePiece_moves now saved paused pd packet d
  | rejected now pd r => exact rejected_moves now pd r d
  | excluded lower upper => exact foldl_moves (List.range' lower (upper + 1 - lower)) exclude (fun d i _ => exclude_moves d i) d
  | dataChecked okChunks lower upper => exact dataChecked_moves okChunks lower upper d
  | peer pd state => exact .single (modify_move (fun p => {state with grabbed := p.grabbed,nearlyDone := p.nearlyDone}) (fun _ => rfl) d pd)
  | completed done => exact .single (.other rfl (.refl d.peers) ⟨rfl,rfl⟩)
  | addPieceDownloader | removePieceDownloader | stopAndReassign | chunkReady | pause | clearDownloads => cases kind

theorem stopAndReassign_valid (valid : d.Valid sha) (now pd j : Nat) : (d.stopAndReassignPieceDownloader sha now pd j).Valid sha := by
  have released : Moves (fun _ => True) sha d (d.visitAll fun cd peers => cd.release peers pd) := releaseLoop_moves pd d
  have removed : (d.removePieceDownloader pd).Valid sha := released.valid valid
  have assigned : Moves (fun _ => True) sha (d.removePieceDownloader pd)
      ((d.removePieceDownloader pd).assignPieceDownloaderToChunk sha now pd j).2 := assign_moves trivial now j _
  exact assigned.valid removed

theorem chunkReady_moves (sha : Sha1 σ H) (d : Downloader σ H) (i : Nat) :
    Moves (fun _ => True) sha d (d.visit i fun cd peers => cd.cancelAll peers) :=
  visit_moves (fun cd peers => (cancelAll_quiet cd peers).balanced) (fun cd _ => (cancelAll_store cd).chunk) d i

theorem release_absent (cd : ChunkDownload σ H) (peers : Peers) (pd : Nat) : pd ∉ (cd.release peers pd).1.pdown := by
  unfold release
  split
  · rename_i absent
    rw [Bool.not_eq_true',Bool.eq_false_iff] at absent
    exact fun member => absent (List.contains_iff_mem.mpr member)
  · intro member
    have kept := (List.mem_filter.mp member).2
    simp at kept

theorem visit_find (f : ChunkDownload σ H → Peers → ChunkDownload σ H × Peers) (d : Downloader σ H) (i j : Nat) :
    (d.visit j f).downloadingChunks.find i =
      if i = j then (d.downloadingChunks.find i).map fun cd => (f cd d.peers).1 else d.downloadingChunks.find i := by
  unfold visit
  split
  · rename_i absent
    by_cases here : i = j
    · rw [if_pos here,here,absent]
      rfl
    · rw [if_neg here]
  · rename_i cd found
    rw [PtrMap.find_modify]
    by_cases here : i = j
    · rw [if_pos here,if_pos here,here,found]
      rfl
    · rw [if_neg here,if_neg here]

theorem releaseLoop_absent (pd : Nat) (l : List Nat) (d : Downloader σ H) (i : Nat) (cd : ChunkDownload σ H)
    (found : (l.foldl (fun d i => d.visit i fun cd peers => cd.release peers pd) d).downloadingChunks.find i = some cd)
    (member : pd ∈ cd.pdown) : i ∉ l ∧ ∃ old, d.downloadingChunks.find i = some old ∧ pd ∈ old.pdown := by
  induction l generalizing d with
  | nil => exact ⟨List.not_mem_nil,cd,found,member⟩
  | cons j rest ih =>
    rw [List.foldl_cons] at found
    obtain ⟨later,old,there,still⟩ := ih _ found
    rw [visit_find] at there
    split at there
    · obtain ⟨before,_,rfl⟩ := Option.map_eq_some_iff.mp there
      exact absurd still (release_absent before d.peers pd)
    · rename_i elsewhere
      exact ⟨fun inside => (List.mem_cons.mp inside).elim elsewhere later,old,there,still⟩

theorem mem_keys (found : d.downloadingChunks.find i = some cd) : i ∈ d.keys :=
  List.mem_map.mpr ⟨(i,cd),(PtrMap.find_eq_some_iff _).mp found,rfl⟩

theorem Counting.weaken {fewer : Nat → Prop} (counting : Counting may d) (less : ∀ pd, fewer pd → may pd)
    (members : ∀ i (cd : ChunkDownload σ H), d.downloadingChunks.find i = some cd → ∀ pd ∈ cd.pdown, fewer pd) : Counting fewer d :=
  ⟨counting.nodup,members,fun pd connected => counting.grabs pd (less pd connected)⟩

theorem Counting.relist (counting : Counting may d) (peers : List Nat) : Counting may {d with pieceDownloaders := peers} :=
  ⟨counting.nodup,counting.members,counting.grabs⟩

theorem Counting.removed (sha : Sha1 σ H) (counting : Counting (· ∈ d.pieceDownloaders) d) (pd : Nat) :
    Counting (· ∈ d.pieceDownloaders.filter (· != pd)) (d.visitAll fun cd peers => cd.release peers pd) := by
  have after := (@releaseLoop_moves σ H (· ∈ d.pieceDownloaders) sha pd d).counting counting
  refine after.weaken (fun q kept => List.mem_of_mem_filter kept) fun i cd found q member => ?_
  refine List.mem_filter.mpr ⟨after.members i cd found q member,?_⟩
  rw [bne_iff_ne]
  rintro rfl
  obtain ⟨unvisited,old,there,_⟩ := releaseLoop_absent q d.keys d i cd found member
  exact unvisited (mem_keys there)

-- Peers are connected once, and only connected ones are reassigned.
def Proper (d : Downloader σ H) : Event → Prop
  | .addPieceDownloader pd _ => pd ∉ d.pieceDownloaders
  | .stopAndReassign _ pd _ => pd ∈ d.pieceDownloaders
  | _ => True

-- And a webseed delivers no chunk that peers are downloading, and there is no
-- pause while they do.
def ProperAndReleased (d : Downloader σ H) (event : Event) : Prop :=
  Proper d event ∧ match event with
    | .chunkReady i ok => ok = true → ∀ cd, d.downloadingChunks.find i = some cd → cd.pdown = []
    | .pause => ∀ i cd, d.downloadingChunks.find i = some cd → cd.pdown = []
    | _ => True

theorem Moves.connected (moves : Moves (· ∈ d.pieceDownloaders) sha d d') (counting : Counting (· ∈ d.pieceDownloaders) d) :
    Counting (· ∈ d'.pieceDownloaders) d' := by
  rw [moves.frame.pieceDownloaders]
  exact moves.counting counting

theorem counting_preserved [DecidableEq H] {event : Event} (counting : Counting (· ∈ d.pieceDownloaders) d)
    (allowed : ProperAndReleased d event) : Counting (· ∈ (d.perform sha event).pieceDownloaders) (d.perform sha event) := by
  obtain ⟨proper,released⟩ := allowed
  cases kind : event.deletes with
  | false => exact (perform_moves sha d event kind fun _ member => member).connected counting
  | true =>
    cases event with
    | addPieceDownloader pd peer =>
      have absent : pd ∉ d.pieceDownloaders := proper
      have unassigned : ∀ i (cd : ChunkDownload σ H), d.downloadingChunks.find i = some cd → pd ∉ cd.pdown := fun i cd found member =>
        absent (counting.members i cd found pd member)
      refine ⟨counting.nodup,fun i cd found q member => List.mem_append.mpr (.inl (counting.members i cd found q member)),?_⟩
      intro q connected
      show ((d.peers.modify pd fun _ => {peer with grabbed := 0,nearlyDone := false}) q).grabbed =
        d.downloadingChunks.countValues fun cd => cd.pdown.contains q
      unfold Peers.modify
      split
      · rename_i here
        refine (List.countP_eq_zero.mpr fun e member => ?_).symm
        rw [List.contains_iff_mem,here]
        exact unassigned e.1 e.2 ((PtrMap.find_eq_some_iff _).mpr member)
      · rename_i other
        rcases List.mem_append.mp connected with before | last
        · exact counting.grabs q before
        · exact absurd (List.mem_singleton.mp last) other
    | removePieceDownloader pd =>
      have frame := (@releaseLoop_moves σ H (fun _ => True) sha pd d).frame
      have after := (counting.removed sha pd).relist
        ((d.visitAll fun cd peers => cd.release peers pd).pieceDownloaders.filter (· != pd))
      rw [← frame.pieceDownloaders] at after
      exact after
    | stopAndReassign now pd i =>
      have connected : pd ∈ d.pieceDownloaders := proper
      have stopped := (@releaseLoop_moves σ H (· ∈ d.pieceDownloaders) sha pd d)
      have after := (stopped.counting counting).relist
        ((d.visitAll fun cd peers => cd.release peers pd).pieceDownloaders.filter (· != pd))
      have assigned := @assign_moves σ H (· ∈ d.pieceDownloaders) sha pd connected now i (d.removePieceDownloader pd)
      have last := (assigned.counting after).relist
        ((((d.removePieceDownloader pd).assignPieceDownloaderToChunk sha now pd i).2).pieceDownloaders ++ [pd])
      -- pd is back in the list, so the connected peers are the ones before.
      have same : ∀ q, q ∈ (((d.removePieceDownloader pd).assignPieceDownloaderToChunk sha now pd i).2).pieceDownloaders ++ [pd] ↔
          q ∈ d.pieceDownloaders := by
        intro q
        rw [assigned.frame.pieceDownloaders]
        show q ∈ (d.visitAll fun cd peers => cd.release peers pd).pieceDownloaders.filter (· != pd) ++ [pd] ↔ _
        rw [stopped.frame.pieceDownloaders,List.mem_append,List.mem_filter,List.mem_singleton,bne_iff_ne]
        by_cases here : q = pd
        · simp [here,connected]
        · simp [here]
      exact last.weaken (fun q member => (same q).mp member) fun j cd found q member => (same q).mpr (last.members j cd found q member)
    | chunkReady i ok =>
      cases ok with
      | false => exact counting
      | true =>
        have idle : ∀ cd, d.downloadingChunks.find i = some cd → (cd.cancelAll d.peers).1.pdown = [] := fun cd found => by
          rw [(cancelAll_quiet cd d.peers).pdown]
          exact released rfl cd found
        have moves : Moves (· ∈ d.pieceDownloaders) sha d (d.onChunkReady i true) :=
          drop_moves (fun cd peers => (cancelAll_quiet cd peers).balanced) (fun cd _ => (cancelAll_store cd).chunk) idle
        exact moves.connected counting
    | pause =>
      refine ⟨(fun i cd found => by cases found),(fun i cd found => by cases found),fun pd connected => ?_⟩
      show (d.peers pd).grabbed = 0
      rw [counting.grabs pd connected]
      refine List.countP_eq_zero.mpr fun e member => ?_
      have idle : e.2.pdown = [] := released e.1 e.2 ((PtrMap.find_eq_some_iff _).mpr member)
      simp [idle]
    | clearDownloads =>
      exact ⟨(fun i cd found => by cases found),(fun i cd found => by cases found),(fun pd connected => by cases connected)⟩
    | update | piece | rejected | excluded | dataChecked | peer | completed => cases kind

theorem reached_counting [DecidableEq H] (reached : Reached sha ProperAndReleased d) : Counting (· ∈ d.pieceDownloaders) d := by
  induction reached with
  | new new =>
    refine ⟨fun i cd found => ?_,fun i cd found pd member => ?_,fun pd connected => ?_⟩
    · rw [new.idle i cd found]
      exact List.nodup_nil
    · rw [new.idle i cd found] at member
      cases member
    · rw [new.peers] at connected
      cases connected
  | step _ event allows ih => exact counting_preserved ih allows

end

-- getNumGrabbed of each connected peer is the number of ChunkDownloads that
-- have it, and none has it twice.
def GrabsCounted (d : Downloader σ H) : Prop :=
  (∀ pd ∈ d.pieceDownloaders, (d.peers pd).grabbed = d.downloadingChunks.countValues fun cd => cd.pdown.contains pd) ∧
    ∀ i cd, d.downloadingChunks.find i = some cd → cd.pdown.Nodup

theorem grabs_counted [DecidableEq H] (sha : Sha1 σ H) (d : Downloader σ H) (reached : Reached sha ProperAndReleased d) :
    GrabsCounted d :=
  ⟨fun pd connected => (reached_counting reached).grabs pd connected,(reached_counting reached).nodup⟩

def anySha : Sha1 Unit Unit := ⟨(),fun _ _ => (),fun _ => (),fun _ _ _ => rfl⟩

def connectedPeer : PieceDownloader := ⟨0,false,true,false,(BitSet.new 1).setAll true,0,0,1,[],[],25⟩

def noChunks : Downloader Unit Unit :=
  ⟨false,fun _ => 1,fun _ => (),.empty,[],fun _ => connectedPeer,⟨1,fun _ => 0,[],[],fun _ _ => true,fun _ _ => 0,fun _ => 1,[]⟩,0,0,0⟩

theorem noChunks_new : New anySha noChunks := ⟨(fun i cd found => by cases found),(fun i cd found => by cases found),rfl⟩

-- One peer, that downloads chunk 0.
def oneDownload : Downloader Unit Unit :=
  (noChunks.perform anySha (.addPieceDownloader 7 connectedPeer)).perform anySha (.update 0 (fun _ => false) [some 0])

theorem grabs_counted_download : Reached anySha ProperAndReleased oneDownload ∧ GrabsCounted oneDownload ∧
    (oneDownload.peers 7).grabbed = 1 := by
  have reached : Reached anySha ProperAndReleased oneDownload :=
    .step (.step (.new noChunks_new) (.addPieceDownloader 7 connectedPeer) ⟨List.not_mem_nil,trivial⟩)
      (.update 0 (fun _ => false) [some 0]) ⟨trivial,trivial⟩
  exact ⟨reached,grabs_counted anySha oneDownload reached,rfl⟩

-- The webseed is faster: the ChunkDownload is deleted, and its peer stays
-- grabbed for good.
theorem webseed_leaks_grab : ¬ ∀ d : Downloader Unit Unit, Reached anySha Proper d → GrabsCounted d := by
  intro claimed
  have reached : Reached anySha Proper (oneDownload.perform anySha (.chunkReady 0 true)) :=
    .step (.step (.step (.new noChunks_new) (.addPieceDownloader 7 connectedPeer) List.not_mem_nil)
      (.update 0 (fun _ => false) [some 0]) trivial) (.chunkReady 0 true) trivial
  have count := (claimed _ reached).1 7 (by decide)
  have leaked : ((oneDownload.perform anySha (.chunkReady 0 true)).peers 7).grabbed = 1 := rfl
  have none : ((oneDownload.perform anySha (.chunkReady 0 true)).downloadingChunks.countValues fun cd => cd.pdown.contains 7) = 0 := rfl
  rw [leaked,none] at count
  cases count

end KtorrentStream.Download.Downloader
