import Mathlib.Data.List.Nodup
import KtorrentStream.Download.Reassignment
set_option autoImplicit true

namespace KtorrentStream.Download
open KtorrentStream.Util KtorrentStream.Lib

namespace PieceDownloader

theorem hasChunk_kept (i : Nat) : Kept fun pd => pd.hasChunk i := by
  constructor
  · intro p r
    unfold cancel
    split
    · rfl
    · split <;> rfl
  · intro p r now
    unfold download
    split <;> rfl
  · intro p nd
    rfl

end PieceDownloader

namespace ChunkDownload

variable {f : PieceDownloader → α}

theorem release_same (kept : Kept f) (keeps : ∀ p, f p.release = f p) (cd : ChunkDownload σ H) (peers : Peers) (pd : Nat) :
    Same f peers (cd.release peers pd).2 := by
  unfold release
  split
  · exact .refl f peers
  · have released : Same f peers (peers.modify pd (·.release)) := modify_same keeps peers
    exact released.trans (sendCancels_undisturbed kept cd _ pd).same

theorem assign_same (kept : Kept f) (keeps : ∀ p, f p.grab = f p) (cd : ChunkDownload σ H) (peers : Peers) (now pd : Nat) :
    Same f peers (cd.assign peers now pd).2.2 := by
  unfold assign
  split
  · exact .refl f peers
  · have grabbed : Same f peers (peers.modify pd (·.grab)) := modify_same keeps peers
    exact grabbed.trans (sendRequests_undisturbed kept _ _ now).same

theorem release_others (cd : ChunkDownload σ H) (peers : Peers) (other : q ≠ pd) :
    q ∈ (cd.release peers pd).1.pdown ↔ q ∈ cd.pdown := by
  unfold release
  split
  · rfl
  · have quiet := sendCancels_quiet cd (peers.modify pd (·.release)) pd
    dsimp only
    rw [List.mem_filter,quiet.pdown,bne_iff_ne]
    exact and_iff_left other

theorem assign_others (cd : ChunkDownload σ H) (peers : Peers) (now : Nat) (other : q ≠ pd) :
    q ∈ (cd.assign peers now pd).2.1.pdown ↔ q ∈ cd.pdown := by
  unfold assign
  split
  · rfl
  · rw [(sendRequests_quiet _ _ _).pdown,List.mem_append,List.mem_singleton]
    exact or_iff_left other

end ChunkDownload

namespace Downloader

open ChunkDownload

variable {sha : Sha1 σ H} {d d' : Downloader σ H}

def Works (d : Downloader σ H) (q i : Nat) : Prop := ∃ cd, d.downloadingChunks.find i = some cd ∧ q ∈ cd.pdown

theorem visit_works {f : ChunkDownload σ H → Peers → ChunkDownload σ H × Peers}
    (others : ∀ cd peers, q ∈ (f cd peers).1.pdown ↔ q ∈ cd.pdown) (d : Downloader σ H) (j i : Nat) :
    (d.visit j f).Works q i ↔ d.Works q i := by
  unfold Works
  rw [visit_find]
  split
  · constructor
    · intro ⟨cd,found,member⟩
      obtain ⟨old,there,rfl⟩ := Option.map_eq_some_iff.mp found
      exact ⟨old,there,(others old d.peers).mp member⟩
    · intro ⟨cd,found,member⟩
      rw [found]
      exact ⟨_,rfl,(others cd d.peers).mpr member⟩
  · rfl

theorem foldl_works {β : Type} {g : Downloader σ H → β → Downloader σ H} (each : ∀ d x, (g d x).Works q i ↔ d.Works q i)
    (l : List β) (d : Downloader σ H) : (l.foldl g d).Works q i ↔ d.Works q i := by
  apply iff_of_eq
  exact foldl_fixed (f := fun d => d.Works q i) (fun d x => propext (each d x)) l d

theorem create_works (absent : d.downloadingChunks.find j = none) (size : Nat) (i : Nat) :
    ({d with downloadingChunks := d.downloadingChunks.insert j (.new sha j size)}).Works q i ↔ d.Works q i := by
  unfold Works
  dsimp only
  rw [PtrMap.find_insert]
  split
  · rename_i here
    rw [here,absent]
    constructor
    · intro ⟨cd,new,member⟩
      cases new
      cases member
    · intro ⟨cd,found,_⟩
      cases found
  · rfl

theorem stopAndReassign_works (other : q ≠ pd) (d : Downloader σ H) (now j i : Nat) :
    (d.stopAndReassignPieceDownloader sha now pd j).Works q i ↔ d.Works q i := by
  have removed : (d.removePieceDownloader pd).Works q i ↔ d.Works q i :=
    foldl_works (fun d k => visit_works (fun cd peers => cd.release_others peers other) d k i) d.keys d
  have assigned : (((d.removePieceDownloader pd).assignPieceDownloaderToChunk sha now pd j).2).Works q i ↔
      (d.removePieceDownloader pd).Works q i := by
    unfold assignPieceDownloaderToChunk
    split
    · exact visit_works (fun cd peers => cd.assign_others peers now other) _ j i
    · rename_i absent
      exact (visit_works (fun cd peers => cd.assign_others peers now other) _ j i).trans (create_works absent _ i)
  exact assigned.trans removed

theorem stopAndReassign_list (sha : Sha1 σ H) (d : Downloader σ H) (now pd j : Nat) :
    (d.stopAndReassignPieceDownloader sha now pd j).pieceDownloaders = d.pieceDownloaders.filter (· != pd) ++ [pd] := by
  have released : Moves (fun _ => True) sha d (d.visitAll fun cd peers => cd.release peers pd) := releaseLoop_moves pd d
  have removed : (d.removePieceDownloader pd).pieceDownloaders = d.pieceDownloaders.filter (· != pd) :=
    congrArg (List.filter (· != pd)) released.frame.pieceDownloaders
  have assigned : Moves (fun _ => True) sha (d.removePieceDownloader pd)
      ((d.removePieceDownloader pd).assignPieceDownloaderToChunk sha now pd j).2 := assign_moves trivial now j _
  exact congrArg (· ++ [pd]) (assigned.frame.pieceDownloaders.trans removed)

theorem stopAndReassign_perm (nodup : d.pieceDownloaders.Nodup) (known : pd ∈ d.pieceDownloaders) (now j : Nat) :
    (d.stopAndReassignPieceDownloader sha now pd j).pieceDownloaders.Perm d.pieceDownloaders := by
  rw [stopAndReassign_list,← nodup.erase_eq_filter]
  exact (List.perm_append_singleton _ _).trans (List.perm_cons_erase known).symm

section
variable {f : PieceDownloader → α}

theorem visit_same {g : ChunkDownload σ H → Peers → ChunkDownload σ H × Peers} (same : ∀ cd peers, Same f peers (g cd peers).2)
    (d : Downloader σ H) (i : Nat) : Same f d.peers (d.visit i g).peers := by
  unfold visit
  split
  · exact .refl f _
  · exact same _ _

theorem foldl_same {β : Type} {g : Downloader σ H → β → Downloader σ H} (each : ∀ d x, Same f d.peers (g d x).peers)
    (l : List β) (d : Downloader σ H) : Same f d.peers (l.foldl g d).peers :=
  foldl_related (R := fun d d' => Same f d.peers d'.peers) (fun d => .refl f d.peers) Same.trans l (fun d x _ => each d x) d

theorem stopAndReassign_same (kept : Kept f) (released : ∀ p, f p.release = f p) (grabbed : ∀ p, f p.grab = f p)
    (sha : Sha1 σ H) (d : Downloader σ H) (now pd j : Nat) :
    Same f d.peers (d.stopAndReassignPieceDownloader sha now pd j).peers := by
  have removed : Same f d.peers (d.removePieceDownloader pd).peers :=
    foldl_same (fun d i => visit_same (fun cd peers => cd.release_same kept released peers pd) d i) d.keys d
  have assigned : Same f (d.removePieceDownloader pd).peers
      ((d.removePieceDownloader pd).assignPieceDownloaderToChunk sha now pd j).2.peers := by
    unfold assignPieceDownloaderToChunk
    split
    · exact visit_same (fun cd peers => cd.assign_same kept grabbed peers now pd) _ j
    · exact visit_same (fun cd peers => cd.assign_same kept grabbed peers now pd) {d.removePieceDownloader pd with
        downloadingChunks := (d.removePieceDownloader pd).downloadingChunks.insert j (.new sha j ((d.removePieceDownloader pd).chunkSize j).toNat)} j
  exact removed.trans assigned

end

theorem minimal_spec (valid : d.Valid sha) (q : Nat) :
    (∃ i, d.Works q i ∧ (∀ j, d.Works q j → i ≤ j) ∧ d.getMinimalIndexDownloadingChunk q = i) ∨
      (∀ i, ¬ d.Works q i) ∧ d.getMinimalIndexDownloadingChunk q = 4294967295 := by
  have entry : ∀ i cd, d.downloadingChunks.find i = some cd → (i,cd) ∈ d.downloadingChunks.entries := by
    intro i cd found
    exact (PtrMap.find_eq_some_iff _).mp found
  unfold getMinimalIndexDownloadingChunk
  cases first : d.downloadingChunks.entries.find? fun e => e.2.containsPeer q with
  | none =>
      right
      refine ⟨?_,rfl⟩
      intro i ⟨cd,found,member⟩
      have without := List.find?_eq_none.mp first (i,cd) (entry i cd found)
      exact without (List.contains_iff_mem.mpr member)
  | some e =>
      left
      obtain ⟨has,before,after,split,less⟩ := List.find?_eq_some_iff_append.mp first
      have sorted := d.downloadingChunks.sorted
      rw [split] at sorted
      have here : d.downloadingChunks.find e.1 = some e.2 := (PtrMap.find_eq_some_iff _).mpr (List.mem_of_find?_eq_some first)
      refine ⟨e.1,⟨e.2,here,List.contains_iff_mem.mp has⟩,?_,(valid e.1 e.2 here).index.symm⟩
      intro j ⟨cd,found,member⟩
      have inside := entry j cd found
      rw [split] at inside
      rcases List.mem_append.mp inside with early | late
      · have not := less _ early
        have on : cd.containsPeer q = true := List.contains_iff_mem.mpr member
        rw [on] at not
        cases not
      · cases late with
        | head => exact Nat.le_refl _
        | tail _ later =>
            have tail := (List.pairwise_append.mp sorted).2.1
            exact Nat.le_of_lt ((List.pairwise_cons.mp tail).1 _ later)

theorem minimal_congr (valid : d.Valid sha) (valid' : d'.Valid sha) (same : ∀ i, d'.Works q i ↔ d.Works q i) :
    d'.getMinimalIndexDownloadingChunk q = d.getMinimalIndexDownloadingChunk q := by
  rcases minimal_spec valid q with ⟨i,works,least,minimal⟩ | ⟨idle,minimal⟩
  · rcases minimal_spec valid' q with ⟨i',works',least',minimal'⟩ | ⟨idle',_⟩
    · have le := least i' ((same i').mp works')
      have ge := least' i ((same i).mpr works)
      omega
    · exact absurd ((same i).mpr works) (idle' i)
  · rcases minimal_spec valid' q with ⟨i',works',_,_⟩ | ⟨_,minimal'⟩
    · exact absurd ((same i').mp works') (idle i')
    · rw [minimal,minimal']

theorem minimal_after (valid : d.Valid sha) (after : i < d.getMinimalIndexDownloadingChunk q) (early : j ≤ i) : ¬ d.Works q j := by
  intro works
  rcases minimal_spec valid q with ⟨k,_,least,minimal⟩ | ⟨idle,_⟩
  · have le := least j works
    omega
  · exact idle j works

end Downloader

end KtorrentStream.Download
