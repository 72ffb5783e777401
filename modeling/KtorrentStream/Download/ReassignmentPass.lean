import KtorrentStream.Download.PeerAssignment
import KtorrentStream.Download.PieceBounds
set_option autoImplicit true

namespace KtorrentStream.Download
open KtorrentStream.Util KtorrentStream.Lib

namespace Streaming

inductive Run (sha : Sha1 σ H) (now : Nat) : Streaming σ H → List (Taken σ H) → Streaming σ H → Prop
  | nil : Run sha now s [] s
  | cons (t : Taken σ H) (rest : Run sha now (t.before.reassign sha now t.peer t.chunk) l s') : Run sha now t.before (t :: l) s'

-- What a try does: the peers it takes have the chunk, and if it is not enough, no peer
-- that is left has it.
structure Tries (sha : Sha1 σ H) (now : Nat) (found s : Streaming σ H) (peers : List Nat) (chunk : Nat) (tried : Tried σ H) : Prop where
  run : Run sha now s tried.taken tried.after
  split : (tried.taken.map Taken.peer ++ tried.left).Perm peers
  order : tried.left.Sublist peers
  takes : ∀ t ∈ tried.taken, t.chunk = chunk ∧ t.found = found ∧ (t.before.state.downer.peers t.peer).hasChunk chunk = true
  all : tried.enough = false → ∀ q ∈ tried.left, (s.state.downer.peers q).hasChunk chunk = false

section
variable {sha : Sha1 σ H} {s s' s'' : Streaming σ H} {l l' : List (Taken σ H)}

theorem Run.append (first : Run sha now s l s') (second : Run sha now s' l' s'') : Run sha now s (l ++ l') s'' := by
  induction first with
  | nil => exact second
  | cons t _ ih => exact .cons t (ih second)

theorem Run.valid (run : Run sha now s l s') (valid : s.state.downer.Valid sha) : s'.state.downer.Valid sha := by
  induction run with
  | nil => exact valid
  | cons t0 _ ih => exact ih (Downloader.stopAndReassign_valid valid now _ _)

theorem Run.works (run : Run sha now s l s') (others : ∀ t ∈ l, q ≠ t.peer) (i : Nat) :
    s'.state.downer.Works q i ↔ s.state.downer.Works q i := by
  induction run with
  | nil => rfl
  | cons t0 _ ih =>
      have later := ih fun t member => others t (List.mem_cons_of_mem _ member)
      exact later.trans (Downloader.stopAndReassign_works (others _ List.mem_cons_self) _ now _ i)

theorem Run.hasChunk (run : Run sha now s l s') (q i : Nat) :
    (s'.state.downer.peers q).hasChunk i = (s.state.downer.peers q).hasChunk i := by
  induction run with
  | nil => rfl
  | cons t0 _ ih =>
      have kept := PieceDownloader.hasChunk_kept i
      exact ih.trans (Downloader.stopAndReassign_same kept (fun _ => rfl) (fun _ => rfl) sha _ now _ _ q)

theorem Run.known (run : Run sha now s l s') (nodup : s.state.downer.pieceDownloaders.Nodup)
    (known : ∀ t ∈ l, t.peer ∈ s.state.downer.pieceDownloaders) :
    s'.state.downer.pieceDownloaders.Perm s.state.downer.pieceDownloaders := by
  induction run with
  | nil => exact .refl _
  | cons t _ ih =>
      have one : (t.before.reassign sha now t.peer t.chunk).state.downer.pieceDownloaders.Perm
          t.before.state.downer.pieceDownloaders :=
        Downloader.stopAndReassign_perm nodup (known t List.mem_cons_self) now t.chunk
      have later := ih (one.nodup_iff.mpr nodup) fun t' member => one.mem_iff.mpr (known t' (List.mem_cons_of_mem _ member))
      exact later.trans one

end

theorem reassignLoop_tries (sha : Sha1 σ H) (now : Nat) (found : Streaming σ H) (chunk : Nat) (peers : List Nat) (required : Nat)
    (s : Streaming σ H) : Tries sha now found s peers chunk (reassignLoop sha now found chunk peers required s) := by
  induction peers generalizing required s with
  | nil => exact ⟨.nil,.refl _,.refl _,(fun t member => by cases member),fun _ q member => by cases member⟩
  | cons peer rest ih =>
      unfold reassignLoop
      split
      · rename_i has
        have one : Run sha now s [⟨peer,chunk,found,s⟩] (s.reassign sha now peer chunk) := .cons ⟨peer,chunk,found,s⟩ .nil
        dsimp only
        split
        · refine ⟨one,.refl _,List.sublist_cons_self _ _,?_,?_⟩
          · intro t member
            rw [List.mem_singleton.mp member]
            exact ⟨rfl,rfl,has⟩
          · intro short
            cases short
        · have later := ih (required - min ((s.reassign sha now peer chunk).state.downer.peers peer).getDownloadRate
            ((s.reassign sha now peer chunk).state.downer.peers peer).getAverageDownloadRate) (s.reassign sha now peer chunk)
          refine ⟨one.append later.run,later.split.cons _,later.order.cons _,?_,?_⟩
          · intro t member
            cases member with
            | head => exact ⟨rfl,rfl,has⟩
            | tail _ after => exact later.takes t after
          · intro short q member
            rw [← one.hasChunk q chunk]
            exact later.all short q member
      · rename_i hasNot
        have later := ih required s
        refine ⟨later.run,?_,later.order.cons_cons _,later.takes,?_⟩
        · exact List.perm_middle.trans (later.split.cons _)
        · intro short q member
          cases member with
          | head => exact Bool.eq_false_iff.mpr hasNot
          | tail _ after => exact later.all short q after

end Streaming

-- The comparators

theorem rate_weak (d : Downloader σ H) : StrictWeak (cmpPeersByRate d) :=
  StrictWeak.of_key fun q => OrderDual.toDual (d.peers q).getDownloadRate

theorem required_weak (d : Downloader σ H) : StrictWeak (cmpPeersInsideBufferRequired d) := by
  have lexicographic : cmpPeersInsideBufferRequired d = fun first second => decide
      (toLex (OrderDual.toDual (d.getMinimalIndexDownloadingChunk first),OrderDual.toDual (d.peers first).getDownloadRate) <
        toLex (OrderDual.toDual (d.getMinimalIndexDownloadingChunk second),OrderDual.toDual (d.peers second).getDownloadRate)) := by
    funext first second
    unfold cmpPeersInsideBufferRequired
    rw [Bool.eq_iff_iff,decide_eq_true_iff,Prod.Lex.toLex_lt_toLex]
    simp only [OrderDual.toDual_lt_toDual,OrderDual.toDual_inj]
    split
    · rename_i less
      exact ⟨fun _ => .inl less,fun _ => rfl⟩
    · rename_i notLess
      split
      · rename_i same
        rw [decide_eq_true_iff]
        exact ⟨fun faster => .inr ⟨same,faster⟩,fun or => or.elim (fun less => absurd less notLess) And.right⟩
      · rename_i other
        exact ⟨(fun no => by cases no),fun or => or.elim (fun less => absurd less notLess) fun both => absurd both.1 other⟩
  rw [lexicographic]
  exact .of_key _

theorem rdropWhile_above (key : Nat → Nat) (chunk : Nat) {l : List Nat} (descends : l.Pairwise fun a b => key b ≤ key a) :
    ∀ q ∈ l.rdropWhile fun q => key q ≤ chunk, chunk < key q := by
  induction l using List.reverseRecOn with
  | nil =>
      intro q member
      cases member
  | append_singleton l last ih =>
      obtain ⟨front,_,above⟩ := List.pairwise_append.mp descends
      intro q member
      rw [List.rdropWhile_concat] at member
      split at member
      · exact ih front q member
      · rename_i kept
        rw [decide_eq_true_iff,Nat.not_le] at kept
        rcases List.mem_append.mp member with early | here
        · exact Nat.lt_of_lt_of_le kept (above q early last (List.mem_singleton_self last))
        · rw [List.mem_singleton.mp here]
          exact kept

-- The three lists

theorem moved_perm (d : Downloader σ H) (l : List Nat) (lower upper : Nat) :
    ((movePeersAssignedForChunksInRange d l [] lower upper).1 ++ (movePeersAssignedForChunksInRange d l [] lower upper).2).Perm l :=
  List.perm_append_comm.trans (List.filter_append_perm _ l)

namespace SortedPeers

def all (peers : SortedPeers) : List Nat := peers .outside ++ peers .preferred ++ peers .required

end SortedPeers

namespace Streaming

theorem sorted_perm (sorter : Sorter Nat) (s : Streaming σ H) :
    (s.updateSortedPeersList sorter).all.Perm s.state.downer.pieceDownloaders := by
  have outside := fun l => sorter.perm (cmpPeersOutsideBufferPreferred s.state.downer) l (rate_weak s.state.downer)
  have preferred := fun l => sorter.perm (cmpPeersInsideBufferPreferred s.state.downer) l (rate_weak s.state.downer)
  have required := fun l => sorter.perm (cmpPeersInsideBufferRequired s.state.downer) l (required_weak s.state.downer)
  unfold SortedPeers.all updateSortedPeersList
  apply (((outside _).append (preferred _)).append (required _)).trans
  apply ((moved_perm s.state.downer _ _ _).append_right _).trans
  exact moved_perm s.state.downer _ _ _

end Streaming

open Streaming

namespace Pass

-- The late chunk that a peer is taken for, and what the peer does not work on.
structure Fair (s : Streaming σ H) (t : Taken σ H) : Prop where
  inside : s.InBufferRequired t.chunk
  late : t.found.doesMeetRequirement t.chunk = false
  has : (t.before.state.downer.peers t.peer).hasChunk t.chunk = true
  idle : ∀ i, s.InBufferRequired i → i ≤ t.chunk → ¬ s.state.downer.Works t.peer i

-- The invariant of a pass that began in s: every peer is taken or in one list, and what
-- the peers of the lists work on is as it was.
structure Going (sha : Sha1 σ H) (now : Nat) (s : Streaming σ H) (p : Pass σ H) : Prop where
  run : Run sha now s p.taken p.s
  split : (p.taken.map Taken.peer ++ p.peers.all).Subperm s.state.downer.pieceDownloaders
  idle : ∀ b, b ≠ .required → ∀ q ∈ p.peers b, ∀ i, s.InBufferRequired i → ¬ s.state.downer.Works q i
  descends : (p.peers .required).Pairwise fun a b =>
    s.state.downer.getMinimalIndexDownloadingChunk b ≤ s.state.downer.getMinimalIndexDownloadingChunk a
  fair : ∀ t ∈ p.taken, Fair s t

-- The peers of a list have not the chunk.
def Without (p : Pass σ H) (b : Buffer) (i : Nat) : Prop := ∀ q ∈ p.peers b, (p.s.state.downer.peers q).hasChunk i = false

-- No peer that has the chunk is left outside the required buffer.
def Exhausted (p : Pass σ H) (i : Nat) : Prop := ∀ b, b ≠ .required → p.Without b i

-- One of the three lists is enough for a late chunk.
def Enough (sha : Sha1 σ H) (now : Nat) (p : Pass σ H) (i : Nat) : Prop :=
  let outside := p.attempt sha now p.s i .outside
  let preferred := outside.2.attempt sha now p.s i .preferred
  outside.1 = true ∨ preferred.1 = true ∨ ((preferred.2.prune i).attempt sha now p.s i .required).1 = true

instance (sha : Sha1 σ H) (now : Nat) (p : Pass σ H) (i : Nat) : Decidable (p.Enough sha now i) := inferInstanceAs (Decidable (_ ∨ _ ∨ _))

def examine (sha : Sha1 σ H) (now : Nat) (p : Pass σ H) (i : Nat) : Pass σ H :=
  if p.s.doesMeetRequirement i then p else (p.makeInTime sha now i).2

-- The pass came to the first n of the chunks, one after the other. Each was in time or got
-- enough, or its peers are exhausted in the end. It stopped before the others only at a
-- late chunk, when its lists were exhausted and the one of the required buffer was empty.
def Examines (sha : Sha1 σ H) (now : Nat) (p last : Pass σ H) (chunks : List Nat) : Prop :=
  ∃ n ≤ chunks.length, last = (chunks.take n).foldl (examine sha now) p ∧
    (∀ k < n, ∀ i, chunks[k]? = some i →
      let q := (chunks.take k).foldl (examine sha now) p
      q.s.doesMeetRequirement i = true ∨ q.Enough sha now i ∨ last.Exhausted i) ∧
    (n < chunks.length → last.peers .required = [] ∧ ∃ k i, n = k + 1 ∧ chunks[k]? = some i ∧ last.Exhausted i)

section
variable {sha : Sha1 σ H} {s found : Streaming σ H} {p : Pass σ H}

theorem attempt_tries (sha : Sha1 σ H) (now : Nat) (found : Streaming σ H) (p : Pass σ H) (chunk : Nat) (b : Buffer) :
    ∃ tried, Tries sha now found p.s (p.peers b) chunk tried ∧ p.attempt sha now found chunk b =
      (tried.enough,{p with s := tried.after,peers := Function.update p.peers b tried.left,taken := p.taken ++ tried.taken}) :=
  ⟨_,reassignLoop_tries sha now found chunk (p.peers b) _ p.s,rfl⟩

theorem update_sublist {peers : SortedPeers} (left : l.Sublist (peers b)) (b' : Buffer) : (Function.update peers b l b').Sublist (peers b') := by
  by_cases here : b' = b
  · rw [here,Function.update_self]
    exact left
  · rw [Function.update_of_ne here]

theorem update_all {peers : SortedPeers} (split : (gone ++ left).Perm (peers b)) (gone' : List Nat) :
    ((gone' ++ gone) ++ SortedPeers.all (Function.update peers b left)).Perm (gone' ++ peers.all) := by
  apply List.perm_iff_count.mpr
  intro q
  have count := List.perm_iff_count.mp split q
  unfold SortedPeers.all
  cases b <;> simp [List.count_append,Function.update] at count ⊢ <;> omega

theorem all_sublist {peers peers' : SortedPeers} (each : ∀ b, (peers' b).Sublist (peers b)) : peers'.all.Sublist peers.all :=
  ((each .outside).append (each .preferred)).append (each .required)

theorem mem_all {peers : SortedPeers} (member : q ∈ peers b) : q ∈ peers.all := by
  unfold SortedPeers.all
  rw [List.mem_append,List.mem_append]
  cases b with
  | outside => exact .inl (.inl member)
  | preferred => exact .inl (.inr member)
  | required => exact .inr member

-- Each try is fair, if its list has no peer that works on a chunk that is needed earlier.
theorem Going.attempt (going : Going sha now s p) (inside : s.InBufferRequired chunk) (late : found.doesMeetRequirement chunk = false)
    (idle : ∀ q ∈ p.peers b, ∀ i, s.InBufferRequired i → i ≤ chunk → ¬ s.state.downer.Works q i) :
    Going sha now s (p.attempt sha now found chunk b).2 := by
  obtain ⟨tried,tries,result⟩ := attempt_tries sha now found p chunk b
  rw [result]
  refine ⟨going.run.append tries.run,?_,?_,?_,?_⟩
  · dsimp only
    rw [List.map_append]
    exact (update_all tries.split (p.taken.map Taken.peer)).subperm.trans going.split
  · intro b' other q member
    exact going.idle b' other q ((update_sublist tries.order b').subset member)
  · exact going.descends.sublist (update_sublist tries.order .required)
  · intro t member
    rcases List.mem_append.mp member with before | now
    · exact going.fair t before
    · obtain ⟨chunk',found',has⟩ := tries.takes t now
      have inList : t.peer ∈ p.peers b := tries.split.subset (List.mem_append_left _ (List.mem_map_of_mem now))
      rw [← chunk'] at inside late has idle
      rw [← found'] at late
      exact ⟨inside,late,has,idle t.peer inList⟩

theorem Going.prune (going : Going sha now s p) (chunk : Nat) : Going sha now s (p.prune chunk) := by
  have fewer : ∀ b, ((p.prune chunk).peers b).Sublist (p.peers b) := fun b => update_sublist (List.rdropWhile_prefix _ _).sublist b
  refine ⟨going.run,?_,?_,going.descends.sublist (fewer .required),going.fair⟩
  · exact ((List.Sublist.refl _).append (all_sublist fewer)).subperm.trans going.split
  · intro b other q member
    exact going.idle b other q ((fewer b).subset member)

theorem Going.once (going : Going sha now s p) (nodup : s.state.downer.pieceDownloaders.Nodup) :
    (p.taken.map Taken.peer ++ p.peers.all).Nodup := by
  obtain ⟨l,perm,part⟩ := going.split
  exact perm.nodup_iff.mp (nodup.sublist part)

-- A peer of a list has not been taken, and so it works on what it worked on.
theorem Going.untaken (going : Going sha now s p) (nodup : s.state.downer.pieceDownloaders.Nodup) (member : q ∈ p.peers b) :
    ∀ t ∈ p.taken, q ≠ t.peer := by
  have once := going.once nodup
  intro t taken same
  exact (List.nodup_append.mp once).2.2 t.peer (List.mem_map_of_mem taken) q (mem_all member) same.symm

theorem Going.pruned_idle (going : Going sha now s p) (valid : s.state.downer.Valid sha) (nodup : s.state.downer.pieceDownloaders.Nodup)
    (chunk : Nat) : ∀ q ∈ (p.prune chunk).peers .required, ∀ i, s.InBufferRequired i → i ≤ chunk → ¬ s.state.downer.Works q i := by
  have same : ∀ q ∈ p.peers .required,
      p.s.state.downer.getMinimalIndexDownloadingChunk q = s.state.downer.getMinimalIndexDownloadingChunk q := fun q member =>
    Downloader.minimal_congr valid (going.run.valid valid) (going.run.works (going.untaken nodup member))
  have descends : (p.peers .required).Pairwise fun a b =>
      p.s.state.downer.getMinimalIndexDownloadingChunk b ≤ p.s.state.downer.getMinimalIndexDownloadingChunk a := by
    apply going.descends.imp_of_mem
    intro a b memberA memberB le
    rw [same a memberA,same b memberB]
    exact le
  intro q member i _ early
  have kept : q ∈ deletePeersDownloadedMorePrioritizedChunksFromList p.s.state.downer (p.peers .required) chunk := member
  have above := rdropWhile_above _ chunk descends q kept
  rw [same q ((List.rdropWhile_prefix _ _).subset kept)] at above
  exact Downloader.minimal_after valid above early

theorem Going.makeInTime (going : Going sha now s p) (valid : s.state.downer.Valid sha) (nodup : s.state.downer.pieceDownloaders.Nodup)
    (inside : s.InBufferRequired chunk) (late : p.s.doesMeetRequirement chunk = false) :
    Going sha now s (p.makeInTime sha now chunk).2 := by
  have outside := going.attempt inside late fun q member i inside _ => going.idle .outside (by decide) q member i inside
  have preferred := outside.attempt inside late fun q member i inside _ => outside.idle .preferred (by decide) q member i inside
  have required := (preferred.prune chunk).attempt inside late (preferred.pruned_idle valid nodup chunk)
  unfold Pass.makeInTime
  dsimp only
  split
  · exact outside
  · split
    · exact preferred
    · exact required

theorem Going.loop (going : Going sha now s p) (valid : s.state.downer.Valid sha) (nodup : s.state.downer.pieceDownloaders.Nodup)
    (chunks : List Nat) (inside : ∀ i ∈ chunks, s.InBufferRequired i) : Going sha now s (p.loop sha now chunks) := by
  induction chunks generalizing p with
  | nil => exact going
  | cons i rest ih =>
      have others := fun j member => inside j (List.mem_cons_of_mem _ member)
      unfold Pass.loop
      split
      · exact ih going others
      · rename_i late
        have next := going.makeInTime valid nodup (inside i List.mem_cons_self) (Bool.eq_false_iff.mpr late)
        split
        · rename_i p' made
          rw [made] at next
          exact next
        · rename_i p' made
          rw [made] at next
          exact ih next others

-- Nothing that has been done makes a peer have a chunk, or puts one into a list.
structure Less (p p' : Pass σ H) : Prop where
  fewer : ∀ b, (p'.peers b).Sublist (p.peers b)
  has : ∀ q i, (p'.s.state.downer.peers q).hasChunk i = (p.s.state.downer.peers q).hasChunk i

theorem Less.refl (p : Pass σ H) : Less p p := ⟨fun _ => .refl _,fun _ _ => rfl⟩

theorem Less.trans {a b c : Pass σ H} (ab : Less a b) (bc : Less b c) : Less a c :=
  ⟨fun l => (bc.fewer l).trans (ab.fewer l),fun q i => (bc.has q i).trans (ab.has q i)⟩

theorem Without.less {p' : Pass σ H} (without : p.Without b i) (less : Less p p') : p'.Without b i := by
  intro q member
  rw [less.has]
  exact without q ((less.fewer b).subset member)

theorem Exhausted.less {p' : Pass σ H} (exhausted : p.Exhausted i) (less : Less p p') : p'.Exhausted i :=
  fun b other => (exhausted b other).less less

theorem Examines.cons {last : Pass σ H} (rest : Examines sha now (p.examine sha now i) last chunks)
    (served : p.s.doesMeetRequirement i = true ∨ p.Enough sha now i ∨ last.Exhausted i) : Examines sha now p last (i :: chunks) := by
  obtain ⟨n,le,result,each,early⟩ := rest
  refine ⟨n + 1,Nat.succ_le_succ le,result,?_,fun less => ?_⟩
  · intro k less j here
    cases k with
    | zero =>
        cases here
        exact served
    | succ k => exact each k (Nat.lt_of_succ_lt_succ less) j here
  · obtain ⟨empty,k,j,same,here,exhausted⟩ := early (Nat.lt_of_succ_lt_succ less)
    exact ⟨empty,k + 1,j,congrArg (· + 1) same,here,exhausted⟩

end

end Pass

open Pass

section
variable {s : Streaming σ H}

end

end KtorrentStream.Download
