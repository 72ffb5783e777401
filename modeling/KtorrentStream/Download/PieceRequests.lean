import Mathlib.Data.Finset.Card
import KtorrentStream.Download.ChunkDownload
set_option autoImplicit true

namespace KtorrentStream.Download
open KtorrentStream.Util

namespace ChunkDownload

-- There is an outstanding request to the downloader for the piece.
def requested (cd : ChunkDownload σ H) (pd i : Nat) : Bool := (cd.dstatus.find pd).any (·.contains i)

-- A missing piece that is not requested from the downloader.
structure Open (cd : ChunkDownload σ H) (pd i : Nat) : Prop where
  missing : cd.pieces.get i = false
  unrequested : cd.requested pd i = false

-- The request that sendRequest makes of a downloader, for a piece with the fewest other
-- requesters.
structure Asks (now : Nat) (cd : ChunkDownload σ H) (peers : Peers) (pd i : Nat) (cd' : ChunkDownload σ H) (peers' : Peers) : Prop where
  free : (peers pd).isChoked = false ∧ (peers pd).canAddRequest = true
  inside : i < cd.totalPiecesNumber
  isOpen : cd.Open pd i
  fewest : ∀ j < cd.totalPiecesNumber, cd.Open pd j → cd.timesDownloading pd i ≤ cd.timesDownloading pd j
  assigned : (cd.dstatus.find pd).isSome = true
  recorded : cd' = {cd with dstatus := cd.dstatus.modify pd (·.add i)}
  sent : peers' = peers.modify pd fun p =>
    if cd.nearlyDone then (p.download (cd.request i (some pd)) now).setNearlyDone true else p.download (cd.request i (some pd)) now

inductive Asked (now : Nat) : ChunkDownload σ H → Peers → List (Nat × Nat) → ChunkDownload σ H → Peers → Prop
  | nil (cd : ChunkDownload σ H) (peers : Peers) : Asked now cd peers [] cd peers
  | cons {cd cd' cd'' : ChunkDownload σ H} {peers peers' peers'' : Peers} {asked : List (Nat × Nat)} (first : Asks now cd peers pd i cd' peers')
    (rest : Asked now cd' peers' asked cd'' peers'') : Asked now cd peers ((pd,i) :: asked) cd'' peers''

-- The while loop as it stands in the source: it makes passes until nobody is in tmp.
inductive SendLoop (now : Nat) : List Nat → ChunkDownload σ H → Peers → ChunkDownload σ H × Peers → Prop
  | done (cd : ChunkDownload σ H) (peers : Peers) : SendLoop now [] cd peers (cd,peers)
  | pass {tmp : List Nat} {cd : ChunkDownload σ H} {peers : Peers} {last : ChunkDownload σ H × Peers} (more : tmp.length > 0)
    (rest : SendLoop now (sendPass now tmp cd peers).1 (sendPass now tmp cd peers).2.1 (sendPass now tmp cd peers).2.2 last) :
    SendLoop now tmp cd peers last

-- The pieces of the chunk for which a request is in a queue of the downloader.
def queued (index : Nat) (p : PieceDownloader) : List Nat :=
  ((p.waitQueue ++ p.reqs.map Prod.fst).filter fun r => r.index == index).map fun r => r.off / maxPieceLen

-- No piece is in the queues twice, and what is there is recorded.
structure OnceEach (cd : ChunkDownload σ H) (peers : Peers) (pd : Nat) : Prop where
  once : (queued cd.index (peers pd)).Nodup
  recorded : ∀ i ∈ queued cd.index (peers pd), cd.requested pd i = true

section
variable {cd cd' : ChunkDownload σ H} {peers peers' : Peers} {now pd i : Nat}

-- bestPiece

structure Best (cd : ChunkDownload σ H) (pd : Nat) (seen : List Nat) (best : Option Nat) : Prop where
  member : ∀ i ∈ best, i ∈ seen ∧ cd.Open pd i
  fewest : ∀ i ∈ best, ∀ j ∈ seen, cd.Open pd j → cd.timesDownloading pd i ≤ cd.timesDownloading pd j
  nothing : best = none → ∀ j ∈ seen, ¬ cd.Open pd j

theorem Best.skip (best : cd.Best pd seen found) (skipped : cd.Open pd k → ∃ i ∈ found, cd.timesDownloading pd i ≤ cd.timesDownloading pd k) :
    cd.Best pd (seen ++ [k]) found := by
  refine ⟨?_,?_,?_⟩
  · intro i here
    exact ⟨List.mem_append_left _ (best.member i here).1,(best.member i here).2⟩
  · intro i here j member isOpen
    rcases List.mem_append.mp member with before | last
    · exact best.fewest i here j before isOpen
    · cases List.mem_singleton.mp last
      obtain ⟨i',there,le⟩ := skipped isOpen
      cases Option.mem_unique here there
      exact le
  · intro none j member isOpen
    rcases List.mem_append.mp member with before | last
    · exact best.nothing none j before isOpen
    · cases List.mem_singleton.mp last
      obtain ⟨i',there,_⟩ := skipped isOpen
      rw [none] at there
      cases there

theorem Best.take (best : cd.Best pd seen found) (isOpen : cd.Open pd k)
    (fewer : ∀ i ∈ found, cd.timesDownloading pd k ≤ cd.timesDownloading pd i) : cd.Best pd (seen ++ [k]) (some k) := by
  refine ⟨?_,?_,(fun none => by cases none)⟩
  · intro i here
    cases here
    exact ⟨List.mem_append_right _ (List.mem_singleton_self k),isOpen⟩
  · intro i here j member other
    cases here
    rcases List.mem_append.mp member with before | last
    · cases some : found with
      | none => exact absurd other (best.nothing some j before)
      | some i => exact Nat.le_trans (fewer i some) (best.fewest i some j before other)
    · cases List.mem_singleton.mp last
      exact Nat.le_refl _

theorem Best.unasked (member : k ∈ l) (isOpen : cd.Open pd k) (nobody : cd.timesDownloading pd k = 0) : cd.Best pd l (some k) := by
  refine ⟨?_,?_,(fun none => by cases none)⟩
  · intro i here
    cases here
    exact ⟨member,isOpen⟩
  · intro i here j _ _
    cases here
    rw [nobody]
    exact Nat.zero_le _

theorem bestPieceLoop_best (l seen : List Nat) (best : Option (Nat × Nat)) (counted : ∀ b ∈ best, b.2 = cd.timesDownloading pd b.1)
    (before : cd.Best pd seen (best.map Prod.fst)) : cd.Best pd (seen ++ l) (cd.bestPieceLoop pd l best) := by
  induction l generalizing seen best with
  | nil =>
      rw [List.append_nil]
      exact before
  | cons k rest ih =>
      rw [List.append_cons]
      unfold bestPieceLoop
      split
      · rename_i there
        apply ih _ best counted (before.skip _)
        intro isOpen
        rw [isOpen.missing] at there
        cases there
      · rename_i missing
        split
        · rename_i asked
          apply ih _ best counted (before.skip _)
          intro isOpen
          have unrequested : (cd.dstatus.find pd).any (·.contains k) = false := isOpen.unrequested
          rw [unrequested] at asked
          cases asked
        · rename_i unrequested
          have isOpen : cd.Open pd k := ⟨Bool.eq_false_iff.mpr missing,Bool.eq_false_iff.mpr unrequested⟩
          dsimp only
          split
          · rename_i nobody
            exact .unasked (List.mem_append_left _ (List.mem_append_right _ (List.mem_singleton_self k))) isOpen nobody
          · split
            · rename_i better
              apply ih _ (some (k,cd.timesDownloading pd k))
              · intro b here
                cases here
                rfl
              · apply before.take isOpen
                intro i here
                obtain ⟨b,there,rfl⟩ := Option.map_eq_some_iff.mp here
                rw [there] at better
                have more : b.2 > cd.timesDownloading pd k := of_decide_eq_true better
                rw [counted b there] at more
                exact Nat.le_of_lt more
            · rename_i notBetter
              apply ih _ best counted (before.skip _)
              intro _
              cases some : best with
              | none =>
                  rw [some] at notBetter
                  exact absurd rfl notBetter
              | some b =>
                  refine ⟨b.1,rfl,?_⟩
                  rw [some] at notBetter
                  have atMost : ¬ b.2 > cd.timesDownloading pd k := fun more => notBetter (decide_eq_true more)
                  rw [counted b some] at atMost
                  exact Nat.not_lt.mp atMost

theorem bestPiece_best (cd : ChunkDownload σ H) (pd : Nat) : cd.Best pd (List.range cd.totalPiecesNumber) (cd.bestPiece pd) := by
  have nothing : cd.Best pd [] ((none : Option (Nat × Nat)).map Prod.fst) :=
    ⟨(fun i here => by cases here),(fun i here => by cases here),fun _ j member => by cases member⟩
  exact bestPieceLoop_best (List.range cd.totalPiecesNumber) [] none (fun b here => by cases here) nothing

-- One request

theorem sendRequest_asks (sent : cd.sendRequest peers now pd = some (cd',peers')) (free : (peers pd).isChoked = false)
    (room : (peers pd).canAddRequest = true) : ∃ i, Asks now cd peers pd i cd' peers' := by
  have best := cd.bestPiece_best pd
  unfold sendRequest at sent
  split at sent
  · cases sent
  · rename_i assigned
    rw [free,Bool.or_false,Bool.not_eq_true,Option.isNone_eq_false_iff] at assigned
    cases found : cd.bestPiece pd with
    | none =>
        rw [found] at sent
        cases sent
    | some i =>
        rw [found] at sent best
        cases sent
        obtain ⟨member,isOpen⟩ := best.member i rfl
        refine ⟨i,⟨free,room⟩,List.mem_range.mp member,isOpen,?_,assigned,rfl,rfl⟩
        intro j inside other
        exact best.fewest i rfl j (List.mem_range.mpr inside) other

theorem Asks.requested (asks : Asks now cd peers pd i cd' peers') (q j : Nat) :
    cd'.requested q j = true ↔ cd.requested q j = true ∨ q = pd ∧ j = i := by
  obtain ⟨ds,found⟩ := Option.isSome_iff_exists.mp asks.assigned
  rw [asks.recorded]
  unfold ChunkDownload.requested
  dsimp only
  rw [PtrMap.find_modify]
  by_cases here : q = pd
  · rw [if_pos here,here,found]
    simp only [Option.map_some,Option.any_some,DownloadStatus.contains,DownloadStatus.add,List.contains_iff_mem,List.mem_insert_iff,
      true_and]
    exact or_comm
  · rw [if_neg here]
    exact (or_iff_left fun both => here both.1).symm

-- The pieces that can still be requested from the downloader.
def room (cd : ChunkDownload σ H) (pd : Nat) : Nat := ((Finset.range cd.totalPiecesNumber).filter fun i => cd.requested pd i = false).card

-- What stays, and that outstanding requests do.
structure Grows (cd cd' : ChunkDownload σ H) : Prop where
  total : cd'.totalPiecesNumber = cd.totalPiecesNumber
  pieces : cd'.pieces = cd.pieces
  index : cd'.index = cd.index
  requested : ∀ q j, cd.requested q j = true → cd'.requested q j = true

theorem Grows.refl (cd : ChunkDownload σ H) : Grows cd cd := ⟨rfl,rfl,rfl,fun _ _ on => on⟩

theorem Grows.trans {a b c : ChunkDownload σ H} (ab : Grows a b) (bc : Grows b c) : Grows a c :=
  ⟨bc.total.trans ab.total,bc.pieces.trans ab.pieces,bc.index.trans ab.index,fun q j on => bc.requested q j (ab.requested q j on)⟩

theorem Asks.grows (asks : Asks now cd peers pd i cd' peers') : Grows cd cd' := by
  have requested := fun q j on => (asks.requested q j).mpr (.inl on)
  rw [asks.recorded] at requested ⊢
  exact ⟨rfl,rfl,rfl,requested⟩

theorem Grows.unrequested (grows : Grows cd cd') (not : cd'.requested q j = false) : cd.requested q j = false := by
  cases before : cd.requested q j with
  | false => rfl
  | true =>
      rw [grows.requested q j before] at not
      cases not

theorem Grows.isOpen (grows : Grows cd cd') (isOpen : cd'.Open q j) : cd.Open q j := by
  refine ⟨?_,grows.unrequested isOpen.unrequested⟩
  rw [← grows.pieces]
  exact isOpen.missing

theorem Grows.room (grows : Grows cd cd') (q : Nat) : cd'.room q ≤ cd.room q := by
  apply Finset.card_le_card
  intro j member
  rw [Finset.mem_filter,grows.total] at member
  exact Finset.mem_filter.mpr ⟨member.1,grows.unrequested member.2⟩

theorem Asks.room (asks : Asks now cd peers pd i cd' peers') : cd'.room pd < cd.room pd := by
  have grows := asks.grows
  have now : cd'.requested pd i = true := (asks.requested pd i).mpr (.inr ⟨rfl,rfl⟩)
  apply Finset.card_lt_card
  rw [Finset.ssubset_iff]
  refine ⟨i,?_,?_⟩
  · intro member
    rw [(Finset.mem_filter.mp member).2] at now
    cases now
  · intro j member
    rcases Finset.mem_insert.mp member with here | before
    · rw [here]
      exact Finset.mem_filter.mpr ⟨Finset.mem_range.mpr asks.inside,asks.isOpen.unrequested⟩
    · rw [Finset.mem_filter,grows.total] at before
      exact Finset.mem_filter.mpr ⟨before.1,grows.unrequested before.2⟩

-- The passes

theorem Asked.append (first : Asked now cd peers l cd' peers') (second : Asked now cd' peers' l' cd'' peers'') :
    Asked now cd peers (l ++ l') cd'' peers'' := by
  induction first with
  | nil => exact second
  | cons one _ ih => exact .cons one (ih second)

theorem Asked.grows (asked : Asked now cd peers l cd' peers') : Grows cd cd' := by
  induction asked with
  | nil cd => exact .refl cd
  | cons one _ ih => exact one.grows.trans ih

-- Whoever is left after a pass was asked for one more piece.
structure Passes (now : Nat) (tmp : List Nat) (cd : ChunkDownload σ H) (peers : Peers) (after : List Nat × ChunkDownload σ H × Peers) : Prop where
  asked : ∃ l, Asked now cd peers l after.2.1 after.2.2 ∧ ∀ e ∈ l, e.1 ∈ tmp
  left : ∀ pd ∈ after.1, pd ∈ tmp ∧ after.2.1.room pd < cd.room pd

theorem Passes.erased (passes : Passes now rest cd peers after) : Passes now (pd :: rest) cd peers after := by
  obtain ⟨l,asked,members⟩ := passes.asked
  refine ⟨⟨l,asked,fun e member => List.mem_cons_of_mem _ (members e member)⟩,?_⟩
  intro q member
  exact (passes.left q member).imp_left (List.mem_cons_of_mem _)

theorem sendPass_passes (now : Nat) (tmp : List Nat) (cd : ChunkDownload σ H) (peers : Peers) :
    Passes now tmp cd peers (sendPass now tmp cd peers) := by
  induction tmp generalizing cd peers with
  | nil => exact ⟨⟨[],.nil cd peers,fun e member => by cases member⟩,fun pd member => by cases member⟩
  | cons pd rest ih =>
      unfold sendPass
      split
      · rename_i free
        rw [Bool.and_eq_true,Bool.not_eq_true'] at free
        split
        · rename_i cd' peers' sent
          obtain ⟨i,asks⟩ := sendRequest_asks sent free.1 free.2
          have later := ih cd' peers'
          obtain ⟨l,asked,members⟩ := later.asked
          refine ⟨⟨(pd,i) :: l,.cons asks asked,?_⟩,?_⟩
          · intro e member
            cases member with
            | head => exact List.mem_cons_self
            | tail _ behind => exact List.mem_cons_of_mem _ (members e behind)
          · intro q member
            cases member with
            | head => exact ⟨List.mem_cons_self,Nat.lt_of_le_of_lt (asked.grows.room pd) asks.room⟩
            | tail _ behind =>
                obtain ⟨inRest,less⟩ := later.left q behind
                exact ⟨List.mem_cons_of_mem _ inRest,Nat.lt_of_lt_of_le less (asks.grows.room q)⟩
        · exact (ih cd peers).erased
      · exact (ih cd peers).erased

-- Each pass makes the room of the ones that are left smaller, so that as many passes as
-- there is room, and one more, are enough.
theorem sendLoop_ends (now fuel : Nat) (tmp : List Nat) (cd : ChunkDownload σ H) (peers : Peers) (enough : ∀ pd ∈ tmp, cd.room pd < fuel) :
    SendLoop now tmp cd peers (sendLoop now fuel tmp cd peers) := by
  induction fuel generalizing tmp cd peers with
  | zero =>
      cases tmp with
      | nil => exact .done cd peers
      | cons pd rest => exact absurd (enough pd List.mem_cons_self) (Nat.not_lt_zero _)
  | succ fuel ih =>
      unfold sendLoop
      split
      · rename_i more
        apply SendLoop.pass more
        apply ih
        intro pd member
        obtain ⟨inTmp,less⟩ := (sendPass_passes now tmp cd peers).left pd member
        exact Nat.lt_of_lt_of_le less (Nat.le_of_lt_succ (enough pd inTmp))
      · rename_i nobody
        have empty : tmp = [] := List.eq_nil_of_length_eq_zero (Nat.eq_zero_of_not_pos nobody)
        rw [empty]
        exact .done cd peers

theorem SendLoop.asked (ends : SendLoop now tmp cd peers last) : ∃ l, Asked now cd peers l last.1 last.2 ∧ ∀ e ∈ l, e.1 ∈ tmp := by
  induction ends with
  | done cd peers => exact ⟨[],.nil cd peers,fun e member => by cases member⟩
  | @pass tmp cd peers last _ _ ih =>
      have passes := sendPass_passes now tmp cd peers
      obtain ⟨l,asked,members⟩ := passes.asked
      obtain ⟨l',asked',members'⟩ := ih
      refine ⟨l ++ l',asked.append asked',?_⟩
      intro e member
      rcases List.mem_append.mp member with early | late
      · exact members e early
      · exact (passes.left e.1 (members' e late)).1

theorem room_le (cd : ChunkDownload σ H) (pd : Nat) : cd.room pd ≤ cd.totalPiecesNumber := by
  have card := Finset.card_filter_le (Finset.range cd.totalPiecesNumber) fun i => cd.requested pd i = false
  rw [Finset.card_range] at card
  exact card

-- The requests

theorem Asked.isOpen (asked : Asked now cd peers l cd' peers') : ∀ e ∈ l, e.2 < cd.totalPiecesNumber ∧ cd.Open e.1 e.2 := by
  induction asked with
  | nil =>
      intro e member
      cases member
  | cons one _ ih =>
      intro e member
      cases member with
      | head => exact ⟨one.inside,one.isOpen⟩
      | tail _ later =>
          obtain ⟨inside,isOpen⟩ := ih e later
          rw [one.grows.total] at inside
          exact ⟨inside,one.grows.isOpen isOpen⟩

theorem Asked.nodup (asked : Asked now cd peers l cd' peers') : l.Nodup := by
  induction asked with
  | nil => exact List.nodup_nil
  | @cons pd i _ _ _ _ _ _ _ one rest ih =>
      apply List.nodup_cons.mpr
      refine ⟨?_,ih⟩
      intro again
      have on := (one.requested pd i).mpr (.inr ⟨rfl,rfl⟩)
      rw [(rest.isOpen _ again).2.unrequested] at on
      cases on

-- The queues of a downloader

theorem request_piece (cd : ChunkDownload σ H) (i : Nat) (pd : Option Nat) : (cd.request i pd).off / maxPieceLen = i :=
  Nat.mul_div_cancel i (by decide)

-- update only moves requests from one queue to the other.
theorem update_perm (p : PieceDownloader) (now : Nat) :
    ((p.update now).waitQueue ++ (p.update now).reqs.map Prod.fst).Perm (p.waitQueue ++ p.reqs.map Prod.fst) := by
  unfold PieceDownloader.update
  dsimp only
  generalize p.maxReqs - p.reqs.length = count
  have sent : ((p.waitQueue.take count).map fun r => (r,now)).map Prod.fst = p.waitQueue.take count := by
    rw [List.map_map]
    exact List.map_id _
  rw [List.map_append,sent]
  have moved : (p.waitQueue.drop count ++ (p.reqs.map Prod.fst ++ p.waitQueue.take count)).Perm
      ((p.reqs.map Prod.fst ++ p.waitQueue.take count) ++ p.waitQueue.drop count) := List.perm_append_comm
  rw [List.append_assoc,List.take_append_drop] at moved
  exact moved.trans List.perm_append_comm

theorem download_perm (p : PieceDownloader) (r : Request) (now : Nat) (there : p.peer = true) :
    ((p.download r now).waitQueue ++ (p.download r now).reqs.map Prod.fst).Perm (r :: (p.waitQueue ++ p.reqs.map Prod.fst)) := by
  unfold PieceDownloader.download
  rw [if_pos there]
  apply (update_perm {p with waitQueue := p.waitQueue ++ [r]} now).trans
  rw [List.append_assoc]
  exact List.perm_middle

theorem Asks.queued (asks : Asks now cd peers pd i cd' peers') : (queued cd.index (peers' pd)).Perm (i :: queued cd.index (peers pd)) := by
  have there : (peers pd).peer = true := by
    have unchoked := asks.free.1
    unfold PieceDownloader.isChoked at unchoked
    split at unchoked
    · rename_i there
      exact there
    · cases unchoked
  have queues : ((peers' pd).waitQueue ++ (peers' pd).reqs.map Prod.fst).Perm
      (cd.request i (some pd) :: ((peers pd).waitQueue ++ (peers pd).reqs.map Prod.fst)) := by
    have downloaded := download_perm (peers pd) (cd.request i (some pd)) now there
    rw [asks.sent]
    unfold Peers.modify
    rw [if_pos rfl]
    split
    · exact downloaded
    · exact downloaded
  have perm := (queues.filter fun r => r.index == cd.index).map fun r => r.off / maxPieceLen
  have own : ((cd.request i (some pd)).index == cd.index) = true := beq_self_eq_true cd.index
  rw [List.filter_cons,if_pos own,List.map_cons,request_piece] at perm
  exact perm

theorem Asks.onceEach (asks : Asks now cd peers pd i cd' peers') (once : cd.OnceEach peers q) : cd'.OnceEach peers' q := by
  have index := asks.grows.index
  by_cases here : q = pd
  · rw [here] at once ⊢
    have perm := asks.queued
    rw [← index] at perm
    constructor
    · apply perm.nodup_iff.mpr
      apply List.nodup_cons.mpr
      rw [index]
      refine ⟨?_,once.once⟩
      intro there
      have on := once.recorded i there
      rw [asks.isOpen.unrequested] at on
      cases on
    · intro j member
      apply (asks.requested pd j).mpr
      cases perm.mem_iff.mp member with
      | head => exact .inr ⟨rfl,rfl⟩
      | tail _ before =>
          rw [index] at before
          exact .inl (once.recorded j before)
  · have same : peers' q = peers q := by
      rw [asks.sent]
      exact if_neg here
    constructor
    · rw [index,same]
      exact once.once
    · intro j member
      rw [index,same] at member
      exact asks.grows.requested q j (once.recorded j member)

theorem Asked.onceEach (asked : Asked now cd peers l cd' peers') (once : cd.OnceEach peers q) : cd'.OnceEach peers' q := by
  induction asked with
  | nil => exact once
  | cons one _ ih => exact ih (one.onceEach once)

end

-- What sendRequests does: its loop ends, what it requests is missing and not requested
-- from the same downloader before, also not by itself, and no piece gets into the queues
-- of a downloader twice.
structure SendsRequests (now : Nat) (cd : ChunkDownload σ H) (peers : Peers) (last : ChunkDownload σ H × Peers) : Prop where
  ends : SendLoop now cd.pdown cd peers last
  asks : ∃ l, Asked now cd peers l last.1 last.2 ∧ l.Nodup ∧
    ∀ e ∈ l, e.1 ∈ cd.pdown ∧ e.2 < cd.totalPiecesNumber ∧ cd.pieces.get e.2 = false ∧ cd.requested e.1 e.2 = false
  once : ∀ pd, cd.OnceEach peers pd → last.1.OnceEach last.2 pd

theorem sendRequests_sends (cd : ChunkDownload σ H) (peers : Peers) (now : Nat) :
    SendsRequests now cd peers (cd.sendRequests peers now) := by
  have ends : SendLoop now cd.pdown cd peers (cd.sendRequests peers now) :=
    sendLoop_ends now (cd.totalPiecesNumber + 1) cd.pdown cd peers fun pd _ => Nat.lt_succ_of_le (cd.room_le pd)
  obtain ⟨l,asked,members⟩ := ends.asked
  refine ⟨ends,⟨l,asked,asked.nodup,?_⟩,fun pd once => asked.onceEach once⟩
  intro e member
  obtain ⟨inside,isOpen⟩ := asked.isOpen e member
  exact ⟨members e member,inside,isOpen.missing,isOpen.unrequested⟩

end ChunkDownload
end KtorrentStream.Download
