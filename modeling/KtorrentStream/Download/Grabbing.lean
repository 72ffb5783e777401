import Mathlib.Logic.Relation
import KtorrentStream.Download.Run
set_option autoImplicit true

namespace KtorrentStream.Download
open KtorrentStream.Lib KtorrentStream.Util KtorrentStream.Diskio

-- What f reads of a peer stays when it is sent requests and cancels.
structure Kept (f : PieceDownloader → α) : Prop where
  cancel : ∀ p r, f (p.cancel r) = f p
  download : ∀ p r now, f (p.download r now) = f p
  nearlyDone : ∀ p nd, f (p.setNearlyDone nd) = f p

def Same (f : PieceDownloader → α) (peers peers' : Peers) : Prop := ∀ pd, f (peers' pd) = f (peers pd)

theorem Same.refl (f : PieceDownloader → α) (peers : Peers) : Same f peers peers := fun _ => rfl

theorem Same.trans {f : PieceDownloader → α} (ab : Same f a b) (bc : Same f b c) : Same f a c := fun pd => (bc pd).trans (ab pd)

theorem modify_same {f : PieceDownloader → α} {g : PieceDownloader → PieceDownloader} (keeps : ∀ p, f (g p) = f p) (peers : Peers) :
    Same f peers (peers.modify pd g) := by
  intro q
  unfold Peers.modify
  split
  · exact keeps _
  · rfl

def SameGrabs (peers peers' : Peers) : Prop := ∀ pd, (peers' pd).grabbed = (peers pd).grabbed

theorem SameGrabs.refl (peers : Peers) : SameGrabs peers peers := fun _ => rfl

theorem modify_grabs {f : PieceDownloader → PieceDownloader} (keeps : ∀ p, (f p).grabbed = p.grabbed) (peers : Peers) :
    SameGrabs peers (peers.modify pd f) := modify_same keeps peers

namespace PieceDownloader

theorem grabbed_kept : Kept grabbed := by
  constructor
  · intro p r
    unfold cancel
    split
    · rfl
    · split <;> rfl
  · intro p r now
    unfold download
    split <;> rfl
  · intro p nd
    rfl

theorem piece_grabbed (p : PieceDownloader) (piece : Piece) : (p.piece piece).grabbed = p.grabbed := by
  unfold PieceDownloader.piece
  split <;> rfl

end PieceDownloader

namespace ChunkDownload

-- The downloaders of the chunk stay, and what f reads of all peers.
structure Undisturbed (f : PieceDownloader → α) (cd : ChunkDownload σ H) (peers : Peers) (cd' : ChunkDownload σ H) (peers' : Peers) : Prop where
  pdown : cd'.pdown = cd.pdown
  same : Same f peers peers'

section
variable {f : PieceDownloader → α}

theorem Undisturbed.refl (cd : ChunkDownload σ H) (peers : Peers) : Undisturbed f cd peers cd peers := ⟨rfl,.refl f peers⟩

theorem Undisturbed.trans (ab : Undisturbed f a p b q) (bc : Undisturbed f b q c r) : Undisturbed f a p c r :=
  ⟨bc.pdown.trans ab.pdown,ab.same.trans bc.same⟩

theorem sendRequest_undisturbed (kept : Kept f) (sent : sendRequest cd peers now pd = some (cd',peers')) :
    Undisturbed f cd peers cd' peers' := by
  unfold sendRequest at sent
  split at sent
  · cases sent
  · split at sent
    · cases sent
    · cases sent
      refine ⟨rfl,modify_same (fun p => ?_) peers⟩
      dsimp only
      split
      · exact (kept.nearlyDone _ _).trans (kept.download p _ _)
      · exact kept.download p _ _

theorem sendPass_undisturbed (kept : Kept f) (tmp : List Nat) (cd : ChunkDownload σ H) (peers : Peers) :
    Undisturbed f cd peers (sendPass now tmp cd peers).2.1 (sendPass now tmp cd peers).2.2 := by
  induction tmp generalizing cd peers with
  | nil => exact .refl cd peers
  | cons pd rest ih =>
    unfold sendPass
    split
    · split
      · rename_i cd' peers' sent
        exact (sendRequest_undisturbed kept sent).trans (ih cd' peers')
      · exact ih cd peers
    · exact ih cd peers

theorem sendLoop_undisturbed (kept : Kept f) (fuel : Nat) (tmp : List Nat) (cd : ChunkDownload σ H) (peers : Peers) :
    Undisturbed f cd peers (sendLoop now fuel tmp cd peers).1 (sendLoop now fuel tmp cd peers).2 := by
  induction fuel generalizing tmp cd peers with
  | zero => exact .refl cd peers
  | succ fuel ih =>
    unfold sendLoop
    split
    · exact (sendPass_undisturbed kept tmp cd peers).trans (ih _ _ _)
    · exact .refl cd peers

theorem sendRequests_undisturbed (kept : Kept f) (cd : ChunkDownload σ H) (peers : Peers) (now : Nat) :
    Undisturbed f cd peers (cd.sendRequests peers now).1 (cd.sendRequests peers now).2 := sendLoop_undisturbed kept _ _ _ _

theorem sendCancels_undisturbed (kept : Kept f) (cd : ChunkDownload σ H) (peers : Peers) (pd : Nat) :
    Undisturbed f cd peers (cd.sendCancels peers pd).1 (cd.sendCancels peers pd).2 := by
  unfold sendCancels
  split
  · exact .refl cd peers
  · rename_i ds _
    have each : ∀ p, f (ds.status.foldl (fun p i => p.cancel (cd.request i none)) p) = f p :=
      foldl_fixed (fun p i => kept.cancel p (cd.request i none)) ds.status
    exact ⟨rfl,modify_same each peers⟩

theorem cancelAll_undisturbed (kept : Kept f) (cd : ChunkDownload σ H) (peers : Peers) :
    Undisturbed f cd peers (cd.cancelAll peers).1 (cd.cancelAll peers).2 := by
  unfold cancelAll
  exact foldl_related (R := fun s s' : ChunkDownload σ H × Peers => Undisturbed f s.1 s.2 s'.1 s'.2) (fun s => .refl s.1 s.2)
    Undisturbed.trans cd.pdown (fun s pd _ => sendCancels_undisturbed kept s.1 s.2 pd) (cd,peers)

theorem endgameCancel_undisturbed (kept : Kept f) (cd : ChunkDownload σ H) (peers : Peers) (p : Piece) :
    Undisturbed f cd peers (cd.endgameCancel peers p).1 (cd.endgameCancel peers p).2 := by
  unfold endgameCancel
  refine foldl_related (R := fun s s' : ChunkDownload σ H × Peers => Undisturbed f s.1 s.2 s'.1 s'.2) (fun s => .refl s.1 s.2)
    Undisturbed.trans cd.pdown (fun s pd _ => ?_) (cd,peers)
  split
  · exact ⟨rfl,modify_same (fun q => kept.cancel q p.request) s.2⟩
  · exact .refl s.1 s.2

end

-- The downloaders of the chunk and all grab counts stay.
structure Quiet (cd : ChunkDownload σ H) (peers : Peers) (cd' : ChunkDownload σ H) (peers' : Peers) : Prop where
  pdown : cd'.pdown = cd.pdown
  grabs : SameGrabs peers peers'

theorem Quiet.refl (cd : ChunkDownload σ H) (peers : Peers) : Quiet cd peers cd peers := ⟨rfl,.refl peers⟩

theorem Undisturbed.quiet (still : Undisturbed PieceDownloader.grabbed cd peers cd' peers') : Quiet cd peers cd' peers' :=
  ⟨still.pdown,still.same⟩

theorem sendRequests_quiet (cd : ChunkDownload σ H) (peers : Peers) (now : Nat) :
    Quiet cd peers (cd.sendRequests peers now).1 (cd.sendRequests peers now).2 :=
  (sendRequests_undisturbed PieceDownloader.grabbed_kept cd peers now).quiet

theorem sendCancels_quiet (cd : ChunkDownload σ H) (peers : Peers) (pd : Nat) :
    Quiet cd peers (cd.sendCancels peers pd).1 (cd.sendCancels peers pd).2 :=
  (sendCancels_undisturbed PieceDownloader.grabbed_kept cd peers pd).quiet

theorem cancelAll_quiet (cd : ChunkDownload σ H) (peers : Peers) :
    Quiet cd peers (cd.cancelAll peers).1 (cd.cancelAll peers).2 :=
  (cancelAll_undisturbed PieceDownloader.grabbed_kept cd peers).quiet

theorem endgameCancel_quiet (cd : ChunkDownload σ H) (peers : Peers) (p : Piece) :
    Quiet cd peers (cd.endgameCancel peers p).1 (cd.endgameCancel peers p).2 :=
  (endgameCancel_undisturbed PieceDownloader.grabbed_kept cd peers p).quiet

-- A downloader that joins grabs, one that leaves releases. `may` are the ones
-- that may join.
structure Balanced (may : Nat → Prop) (cd : ChunkDownload σ H) (peers : Peers) (cd' : ChunkDownload σ H) (peers' : Peers) : Prop where
  nodup : cd.pdown.Nodup → cd'.pdown.Nodup
  members : ∀ pd ∈ cd'.pdown, pd ∈ cd.pdown ∨ may pd
  grabs : cd.pdown.Nodup → (∀ pd ∈ cd.pdown, 0 < (peers pd).grabbed) → ∀ pd,
    (peers' pd).grabbed + (cd.pdown.contains pd).toNat = (peers pd).grabbed + (cd'.pdown.contains pd).toNat

section
variable {may : Nat → Prop} {cd cd' : ChunkDownload σ H} {peers peers' : Peers}

theorem toNat_contains (l : List Nat) (pd : Nat) : (l.contains pd).toNat = if pd ∈ l then 1 else 0 := by
  by_cases member : pd ∈ l
  · rw [if_pos member,List.contains_iff_mem.mpr member]
    rfl
  · rw [if_neg member,Bool.eq_false_iff.mpr fun on => member (List.contains_iff_mem.mp on)]
    rfl

theorem Quiet.balanced (quiet : Quiet cd peers cd' peers') : Balanced may cd peers cd' peers' := by
  refine ⟨fun nodup => quiet.pdown ▸ nodup,fun pd member => .inl (quiet.pdown ▸ member),fun _ _ pd => ?_⟩
  rw [quiet.pdown,quiet.grabs pd]

theorem Balanced.trans (ab : Balanced may a p b q) (bc : Balanced may b q c r) : Balanced may a p c r := by
  refine ⟨fun nodup => bc.nodup (ab.nodup nodup),fun pd member => ?_,fun nodup positive pd => ?_⟩
  · rcases bc.members pd member with before | allowed
    · exact ab.members pd before
    · exact .inr allowed
  · have first := ab.grabs nodup positive
    have held : ∀ pd ∈ b.pdown, 0 < (q pd).grabbed := by
      intro pd member
      have count := first pd
      rw [toNat_contains,toNat_contains,if_pos member] at count
      split at count
      · rename_i before
        have := positive pd before
        omega
      · omega
    have second := bc.grabs (ab.nodup nodup) held pd
    have := first pd
    omega

theorem assign_balanced (cd : ChunkDownload σ H) (peers : Peers) (now : Nat) (allowed : may pd) :
    Balanced may cd peers (cd.assign peers now pd).2.1 (cd.assign peers now pd).2.2 := by
  unfold assign
  split
  · exact (Quiet.refl cd peers).balanced
  · rename_i absent
    rw [List.contains_iff_mem] at absent
    refine Balanced.trans ?_ (sendRequests_quiet _ _ _).balanced
    refine ⟨fun nodup => ?_,fun q member => ?_,fun _ _ q => ?_⟩
    · refine List.nodup_append.mpr ⟨nodup,List.pairwise_singleton _ pd,?_⟩
      rintro q member _ last rfl
      exact absent (List.mem_singleton.mp last ▸ member)
    · rcases List.mem_append.mp member with before | last
      · exact .inl before
      · exact .inr (List.mem_singleton.mp last ▸ allowed)
    · rw [toNat_contains,toNat_contains]
      unfold Peers.modify
      by_cases same : q = pd
      · rw [if_pos same,if_neg (same ▸ absent),if_pos (List.mem_append.mpr (.inr (List.mem_singleton.mpr same)))]
        rfl
      · rw [if_neg same]
        simp only [List.mem_append,List.mem_singleton,same,or_false]

theorem release_balanced (cd : ChunkDownload σ H) (peers : Peers) (pd : Nat) :
    Balanced may cd peers (cd.release peers pd).1 (cd.release peers pd).2 := by
  unfold release
  split
  · exact (Quiet.refl cd peers).balanced
  · rename_i present
    rw [Bool.not_eq_true',Bool.not_eq_false,List.contains_iff_mem] at present
    have quiet := sendCancels_quiet cd (peers.modify pd (·.release)) pd
    refine ⟨fun nodup => ?_,fun q member => ?_,fun nodup positive q => ?_⟩
    · dsimp only
      rw [quiet.pdown]
      exact nodup.filter _
    · dsimp only at member
      rw [quiet.pdown] at member
      exact .inl (List.mem_of_mem_filter member)
    · dsimp only
      rw [quiet.grabs q,quiet.pdown,toNat_contains,toNat_contains]
      unfold Peers.modify
      by_cases same : q = pd
      · subst same
        have := positive q present
        simp only [List.mem_filter,present,bne_self_eq_false,Bool.false_eq_true,and_false,if_true,if_false,
          PieceDownloader.release]
        omega
      · rw [if_neg same]
        simp only [List.mem_filter,bne_iff_ne,ne_eq,same,not_false_eq_true,and_true]

theorem withStatus_balanced (cd : ChunkDownload σ H) (dstatus : PtrMap DownloadStatus) (grabs : SameGrabs peers peers') :
    Balanced may cd peers {cd with dstatus := dstatus} peers' := Quiet.balanced ⟨rfl,grabs⟩

theorem notDownloaded_balanced (cd : ChunkDownload σ H) (peers : Peers) (now : Nat) (r : Request) (reject : Bool) :
    Balanced may cd peers (cd.notDownloaded peers now r reject).1 (cd.notDownloaded peers now r reject).2 := by
  unfold notDownloaded
  split
  · exact (sendRequests_quiet cd peers now).balanced
  · rename_i pd _
    have cancelled : SameGrabs peers (peers.modify pd (·.cancel r)) := modify_grabs (fun p => PieceDownloader.grabbed_kept.cancel p r) peers
    split
    · exact (sendRequests_quiet cd peers now).balanced
    · dsimp only
      split
      · exact (withStatus_balanced cd _ (.refl peers)).trans
          ((release_balanced _ _ _).trans (sendRequests_quiet _ _ _).balanced)
      · split
        · exact (withStatus_balanced cd _ cancelled).trans
            ((release_balanced _ _ _).trans (sendRequests_quiet _ _ _).balanced)
        · exact (withStatus_balanced cd _ cancelled).trans (sendRequests_quiet _ _ _).balanced

theorem releaseLoop_grabs {pds : List Nat} (cd0 : ChunkDownload σ H) (nodup : pds.Nodup) (positive : ∀ pd ∈ pds, 0 < (peers pd).grabbed) (pd : Nat) :
    ((pds.foldl (fun s pd => s.1.sendCancels (s.2.modify pd (·.release)) pd) (cd0,peers)).2 pd).grabbed +
      (pds.contains pd).toNat = (peers pd).grabbed := by
  induction pds generalizing cd0 peers with
  | nil => rfl
  | cons q rest ih =>
    rw [List.nodup_cons] at nodup
    have quiet := sendCancels_quiet cd0 (peers.modify q (·.release)) q
    have others : ∀ pd, pd ≠ q → (((cd0.sendCancels (peers.modify q (·.release)) q).2) pd).grabbed = (peers pd).grabbed := by
      intro pd other
      rw [quiet.grabs pd,Peers.modify,if_neg other]
    have behind := ih (cd0.sendCancels (peers.modify q (·.release)) q).1 nodup.2 (fun pd member => by
      rw [others pd fun same => nodup.1 (same ▸ member)]
      exact positive pd (List.mem_cons_of_mem _ member))
    rw [List.foldl_cons]
    rw [toNat_contains] at behind ⊢
    by_cases same : pd = q
    · subst same
      rw [if_neg nodup.1,quiet.grabs pd,Peers.modify,if_pos rfl] at behind
      rw [if_pos List.mem_cons_self]
      have := positive pd List.mem_cons_self
      simp only [PieceDownloader.release] at behind
      exact (congrArg (· + 1) behind).trans (by omega)
    · rw [others pd same] at behind
      simp only [List.mem_cons,same,false_or]
      exact behind

theorem releaseAllPDs_balanced (cd : ChunkDownload σ H) (peers : Peers) :
    Balanced may cd peers (cd.releaseAllPDs peers).1 (cd.releaseAllPDs peers).2 := by
  refine ⟨fun _ => List.nodup_nil,fun pd member => ?_,fun nodup positive pd => ?_⟩
  · cases member
  · exact releaseLoop_grabs cd nodup positive pd

theorem stored_balanced (cd : ChunkDownload σ H) (sha : Sha1 σ H) (peers : Peers) (now : Nat) (cache : Cache) (p : Piece) :
    Balanced may cd peers (cd.stored sha peers now cache p).cd (cd.stored sha peers now cache p).peers ∧
      ((cd.stored sha peers now cache p).complete = true → (cd.stored sha peers now cache p).cd.pdown = []) := by
  unfold stored
  have first : ∃ cd1 peers1, (if cd.pdown.length > 1 then cd.endgameCancel peers p else (cd,peers)) = (cd1,peers1) ∧
      Quiet cd peers cd1 peers1 := by
    split
    · exact ⟨_,_,rfl,endgameCancel_quiet cd peers p⟩
    · exact ⟨_,_,rfl,.refl cd peers⟩
  obtain ⟨cd1,peers1,cancelled,quiet⟩ := first
  rw [cancelled]
  dsimp only
  cases hashed : cd1.updateHash sha cache with
  | mk cd2 cache2 =>
    have same : cd1.pdown = cd2.pdown := congrArg (fun s : ChunkDownload σ H × Cache => s.1.pdown) hashed
    have second : Balanced may cd peers cd2 peers1 := Quiet.balanced ⟨same.symm.trans quiet.pdown,quiet.grabs⟩
    dsimp only
    split
    · have finalized : Balanced may cd2 peers1 {cd2 with hash := some (sha.final cd2.hashState)} peers1 :=
        Quiet.balanced ⟨rfl,.refl peers1⟩
      exact ⟨second.trans (finalized.trans (releaseAllPDs_balanced _ peers1)),fun _ => rfl⟩
    · exact ⟨second.trans (sendRequests_quiet _ _ _).balanced,(fun done => by cases done)⟩

theorem pieceReceived_balanced (cd : ChunkDownload σ H) (sha : Sha1 σ H) (peers : Peers) (now : Nat) (cache : Cache) (p : Piece) :
    Balanced may cd peers (cd.pieceReceived sha peers now cache p).cd (cd.pieceReceived sha peers now cache p).peers ∧
      ((cd.pieceReceived sha peers now cache p).complete = true → (cd.pieceReceived sha peers now cache p).cd.pdown = []) := by
  cases accepted : cd.accepts p with
  | false =>
    rw [pieceReceived_rejected accepted]
    exact ⟨(Quiet.refl cd peers).balanced,(fun done => by cases done)⟩
  | true =>
    obtain ⟨q,cache',pd,_,_,_,_,_,result⟩ := pieceReceived_accepted sha peers now cache accepted
    rw [result]
    have marked : Balanced may cd peers (cd.markDownloaded p q) peers := Quiet.balanced ⟨rfl,.refl peers⟩
    obtain ⟨balanced,idle⟩ := @stored_balanced σ H may (cd.markDownloaded p q) sha peers now
      {cache'.fill q pd p.data with written := cache.written ++ [(cd.index,p.off,p.data)]} p
    exact ⟨marked.trans balanced,idle⟩

end

end ChunkDownload

end KtorrentStream.Download
