import KtorrentStream.Diskio.Restart
import KtorrentStream.Download.Downloader
set_option autoImplicit true

namespace KtorrentStream.Download
open KtorrentStream.Lib KtorrentStream.Util KtorrentStream.Torrent KtorrentStream.Torrent.Files KtorrentStream.Diskio

namespace Downloader

variable (d : Downloader σ H)

def isChunkDownloading (chunk : Nat) : Bool := d.downloadingChunks.contains chunk

def numDownloadersForChunk (chunk : Nat) : Nat := ((d.downloadingChunks.find chunk).map fun cd => cd.pdown.length).getD 0

def endgameMode (m : ChunkManager n) : Bool := d.downloadingChunks.count ≥ m.chunksLeft.1

end Downloader

-- What a ChunkSelector asks the ChunkManager, the Downloader and the ChunkCounter. What
-- chunksLeft keeps of its result is left out.
structure Selecting (n : Nat) (σ H : Type) where
  manager : ChunkManager n
  downer : Downloader σ H
  counter : Nat → Nat

namespace Selecting

variable {n : Nat} (s : Selecting n σ H)

-- RareCmp
def rareCmp (warmup : Bool) (a b : Nat) : Bool :=
  if a ≥ n || b ≥ n then false
  else
    let pa := (s.manager.chunk a).priority
    let pb := (s.manager.chunk b).priority
    if pa = pb then (if !warmup then s.counter a < s.counter b else s.counter a > s.counter b) else pa.value > pb.value

def leastPeers (lp : List Nat) (alternative maxPeersPerChunk : Nat) : Nat :=
  let cnt := s.downer.numDownloadersForChunk
  let sel := lp.foldl (fun sel i => if cnt i < cnt sel then i else sel) (lp.headD alternative)
  if !s.downer.endgameMode s.manager && cnt sel ≥ maxPeersPerChunk then
    match s.downer.downloadingChunks.find sel with
    | none => alternative
    | some cd => if cd.getDownloadSpeed s.downer.peers < 100 then sel else alternative
  else sel

def piecesLeft (cd : ChunkDownload σ H) : Nat := cd.totalPiecesNumber - cd.downloadedPiecesNumber

-- One round of the loop, which favours those that are nearly finished.
def favour (pd : Nat) (selected : Option (ChunkDownload σ H)) (e : Nat × ChunkDownload σ H) : Option (ChunkDownload σ H) :=
  if (s.downer.peers pd).isChoked || !(s.downer.peers pd).hasChunk e.2.index then selected
  else if e.2.pdown.length = 0 then
    match selected with
    | none => some e.2
    | some cd => if piecesLeft e.2 < piecesLeft cd then some e.2 else selected
  else selected

def selectExistingUnfinishedDownloadChunk (pd : Nat) : Option Nat :=
  (s.downer.downloadingChunks.entries.foldl (s.favour pd) none).map (·.index)

def drops (i : Nat) : Bool := (s.manager.chunk i).isExcludedForDownloading || (s.manager.chunk i).isExcluded || s.manager.bitset.get i

-- What the loop over the list leaves: the list, the chunk that nobody downloads, and
-- those that are downloaded before it.
structure Scan where
  kept : List Nat
  sel : Option Nat
  preview : List Nat
  first : List Nat
  normal : List Nat

def scan (pd : Nat) : List Nat → Scan
  | [] => ⟨[],none,[],[],[]⟩
  | i :: rest =>
    if s.drops i then scan pd rest
    else if (s.downer.peers pd).hasChunk i then
      if !s.downer.isChunkDownloading i then ⟨i :: rest,some i,[],[],[]⟩
      else
        let r := scan pd rest
        match (s.manager.chunk i).priority with
        | .preview => {r with kept := i :: r.kept,preview := i :: r.preview}
        | .first => {r with kept := i :: r.kept,first := i :: r.first}
        | .normal => {r with kept := i :: r.kept,normal := i :: r.normal}
        | _ => {r with kept := i :: r.kept}
    else
      let r := scan pd rest
      {r with kept := i :: r.kept}

-- A chunk of a higher priority, if there is one.
def choose (r : Scan) (sel : Nat) : Nat :=
  match (s.manager.chunk sel).priority with
  | .preview => sel
  | .first => if r.preview ≠ [] then s.leastPeers r.preview sel 3 else sel
  | .normal =>
    if r.preview ≠ [] then s.leastPeers r.preview sel 3
    else if r.first ≠ [] then s.leastPeers r.first sel 2
    else sel
  | .last =>
    if r.preview ≠ [] then s.leastPeers r.preview sel 3
    else if r.first ≠ [] then s.leastPeers r.first sel 2
    else if r.normal ≠ [] then s.leastPeers r.normal sel 2
    else sel
  | _ => sel

-- sorts says whether more than two seconds are gone since the list has been sorted.
def select (pd : Nat) (sorts : Bool) (chunks : List Nat) : Option Nat × List Nat :=
  match s.selectExistingUnfinishedDownloadChunk pd with
  | some chunk => (some chunk,chunks)
  | none =>
    let warmup := uint32Sub n s.manager.chunksLeft.1 ≤ 4
    let chunks := if sorts then chunks.mergeSort fun a b => !s.rareCmp warmup b a else chunks
    let r := s.scan pd chunks
    match r.sel with
    | some sel => if sel ≥ n then (none,r.kept) else (some (s.choose r sel),r.kept)
    | none => (none,r.kept)

end Selecting

namespace ChunkSelector

def reinsert (chunks : List Nat) (chunk : Nat) : List Nat := if chunks.contains chunk then chunks else chunks ++ [chunk]

def checkChunk (okChunks : BitSet) (chunks : List Nat) (i : Nat) : List Nat :=
  let inChunks := chunks.contains i
  if inChunks && okChunks.get i then chunks.filter (· != i)
  else if !inChunks && !okChunks.get i then chunks ++ [i]
  else chunks

def dataChecked (okChunks : BitSet) (lower upper : Nat) (chunks : List Nat) : List Nat :=
  (List.range' lower (min okChunks.numBits (upper + 1) - lower)).foldl (checkChunk okChunks) chunks

def reincludeChunk (m : ChunkManager n) (chunks : List Nat) (i : Nat) : List Nat :=
  if !chunks.contains i && (m.chunk i).status != .onDisk then chunks ++ [i] else chunks

def reincluded (m : ChunkManager n) (lower upper : Nat) (chunks : List Nat) : List Nat :=
  if lower ≥ n || upper ≥ n then chunks else (upTo lower upper).foldl (reincludeChunk m) chunks

end ChunkSelector

namespace Selecting

variable {n : Nat} {s : Selecting n σ H} {pd : Nat}

theorem leastPeers_mem (lp : List Nat) (alternative most : Nat) (some_ : lp ≠ []) :
    s.leastPeers lp alternative most ∈ lp ∨ s.leastPeers lp alternative most = alternative := by
  have among (l : List Nat) (start : Nat) : l.foldl (fun sel i =>
      if s.downer.numDownloadersForChunk i < s.downer.numDownloadersForChunk sel then i else sel) start ∈ start :: l := by
    induction l generalizing start with
    | nil => exact List.mem_singleton_self start
    | cons i rest ih =>
        rw [List.foldl_cons]
        rcases List.mem_cons.mp (ih (if s.downer.numDownloadersForChunk i < s.downer.numDownloadersForChunk start then i else start)) with same | later
        · rw [same]
          split <;> simp
        · simp [later]
  have sel : lp.foldl (fun sel i => if s.downer.numDownloadersForChunk i < s.downer.numDownloadersForChunk sel then i else sel) (lp.headD alternative) ∈ lp := by
    cases lp with
    | nil => exact absurd rfl some_
    | cons first rest =>
        rcases List.mem_cons.mp (among (first :: rest) first) with same | member
        · rw [List.headD_cons,same]
          exact List.mem_cons_self
        · exact member
  unfold leastPeers
  dsimp only
  split
  · split
    · exact .inr rfl
    · split
      · exact .inl sel
      · exact .inr rfl
  · exact .inl sel

-- What the loop has seen to be on the list, wanted, missing and offered.
def Fits (s : Selecting n σ H) (pd : Nat) (chunks : List Nat) (i : Nat) : Prop :=
  i ∈ chunks ∧ s.drops i = false ∧ (s.downer.peers pd).hasChunk i = true

theorem Fits.cons (fits : Fits s pd rest i) : Fits s pd (first :: rest) i := ⟨List.mem_cons_of_mem _ fits.1,fits.2⟩

structure Scanned (s : Selecting n σ H) (pd : Nat) (chunks : List Nat) (r : Scan) : Prop where
  kept : r.kept.Sublist chunks
  remains : ∀ i ∈ chunks, s.drops i = false → i ∈ r.kept
  sel : ∀ i, r.sel = some i → Fits s pd chunks i ∧ s.downer.isChunkDownloading i = false
  none : r.sel = none → ∀ i, Fits s pd chunks i → s.downer.isChunkDownloading i = true
  lists : ∀ i, i ∈ r.preview ∨ i ∈ r.first ∨ i ∈ r.normal → Fits s pd chunks i

theorem Scanned.keep {r : Scan} (scanned : Scanned s pd rest r) (i : Nat) (taken : (s.downer.peers pd).hasChunk i = true → s.downer.isChunkDownloading i = true) :
    Scanned s pd (i :: rest) {r with kept := i :: r.kept} := by
  refine ⟨scanned.kept.cons_cons i,fun j member kept => ?_,fun j found => ?_,fun found j fits => ?_,fun j member => (scanned.lists j member).cons⟩
  · rcases List.mem_cons.mp member with rfl | later
    · exact List.mem_cons_self
    · exact List.mem_cons_of_mem _ (scanned.remains j later kept)
  · exact ⟨(scanned.sel j found).1.cons,(scanned.sel j found).2⟩
  · rcases List.mem_cons.mp fits.1 with rfl | later
    · exact taken fits.2.2
    · exact scanned.none found j ⟨later,fits.2⟩

theorem scan_spec (pd : Nat) (chunks : List Nat) : Scanned s pd chunks (s.scan pd chunks) := by
  induction chunks with
  | nil =>
      refine ⟨.slnil,fun _ member => absurd member List.not_mem_nil,fun _ found => (by cases found),fun _ _ fits => absurd fits.1 List.not_mem_nil,
        fun _ member => ?_⟩
      simp [scan] at member
  | cons i rest ih =>
      unfold scan
      cases dropped : s.drops i with
      | true =>
          rw [if_pos rfl]
          refine ⟨ih.kept.cons i,fun j member kept => ?_,fun j found => ⟨(ih.sel j found).1.cons,(ih.sel j found).2⟩,fun found j fits => ?_,
            fun j member => (ih.lists j member).cons⟩
          · rcases List.mem_cons.mp member with rfl | later
            · cases dropped.symm.trans kept
            · exact ih.remains j later kept
          · rcases List.mem_cons.mp fits.1 with rfl | later
            · cases dropped.symm.trans fits.2.1
            · exact ih.none found j ⟨later,fits.2⟩
      | false =>
          rw [if_neg Bool.false_ne_true]
          cases offered : (s.downer.peers pd).hasChunk i with
          | false =>
              rw [if_neg Bool.false_ne_true]
              exact ih.keep i fun has => by cases offered.symm.trans has
          | true =>
              rw [if_pos rfl]
              cases downloads : s.downer.isChunkDownloading i with
              | false =>
                  rw [if_pos (by decide)]
                  refine ⟨.refl _,fun j member _ => member,fun j found => ?_,fun found => (by cases found),fun j member => ?_⟩
                  · cases found
                    exact ⟨⟨List.mem_cons_self,dropped,offered⟩,downloads⟩
                  · simp at member
              | true =>
                  rw [if_neg (by decide)]
                  have kept := ih.keep i fun _ => downloads
                  have here : Fits s pd (i :: rest) i := ⟨List.mem_cons_self,dropped,offered⟩
                  -- Only the list of its priority gets the chunk.
                  have pushed {r : Scan} (same : r.kept = i :: (s.scan pd rest).kept) (sel : r.sel = (s.scan pd rest).sel)
                      (lists : ∀ j, j ∈ r.preview ∨ j ∈ r.first ∨ j ∈ r.normal →
                        j = i ∨ j ∈ (s.scan pd rest).preview ∨ j ∈ (s.scan pd rest).first ∨ j ∈ (s.scan pd rest).normal) : Scanned s pd (i :: rest) r := by
                    refine ⟨by rw [same]; exact kept.kept,by rw [same]; exact kept.remains,by rw [sel]; exact kept.sel,by rw [sel]; exact kept.none,
                      fun j member => ?_⟩
                    rcases lists j member with rfl | old
                    · exact here
                    · exact kept.lists j old
                  dsimp only
                  cases (s.manager.chunk i).priority <;> refine pushed rfl rfl fun j member => ?_
                  all_goals
                    simp only [List.mem_cons] at member
                    tauto

theorem choose_fits (r : Scan) (scanned : Scanned s pd chunks r) (sel : Nat) (fits : Fits s pd chunks sel) : Fits s pd chunks (s.choose r sel) := by
  have least (lp : List Nat) (most : Nat) (some_ : lp ≠ []) (all : ∀ i ∈ lp, Fits s pd chunks i) : Fits s pd chunks (s.leastPeers lp sel most) := by
    rcases leastPeers_mem (s := s) lp sel most some_ with member | same
    · exact all _ member
    · rw [same]
      exact fits
  have preview (some_ : r.preview ≠ []) := least r.preview 3 some_ fun i member => scanned.lists i (.inl member)
  have first (some_ : r.first ≠ []) := least r.first 2 some_ fun i member => scanned.lists i (.inr (.inl member))
  have normal (some_ : r.normal ≠ []) := least r.normal 2 some_ fun i member => scanned.lists i (.inr (.inr member))
  unfold choose
  split
  · exact fits
  · split
    · exact preview ‹_›
    · exact fits
  · split
    · exact preview ‹_›
    · split
      · exact first ‹_›
      · exact fits
  · split
    · exact preview ‹_›
    · split
      · exact first ‹_›
      · split
        · exact normal ‹_›
        · exact fits
  · exact fits

-- A ChunkDownload that the peer may go on with.
def Offers (s : Selecting n σ H) (pd : Nat) (cd : ChunkDownload σ H) : Prop :=
  (∃ e ∈ s.downer.downloadingChunks.entries, e.2 = cd) ∧ (s.downer.peers pd).hasChunk cd.index = true

theorem favour_offers {selected : Option (ChunkDownload σ H)} (good : ∀ cd, selected = some cd → s.Offers pd cd) {e : Nat × ChunkDownload σ H}
    (member : e ∈ s.downer.downloadingChunks.entries) : ∀ cd, s.favour pd selected e = some cd → s.Offers pd cd := by
  intro cd same
  have own (offered : ¬ ((s.downer.peers pd).isChoked || !(s.downer.peers pd).hasChunk e.2.index) = true) (same : some e.2 = some cd) : s.Offers pd cd := by
    cases same
    simp only [Bool.or_eq_true,Bool.not_eq_true',not_or,Bool.not_eq_false] at offered
    exact ⟨⟨e,member,rfl⟩,offered.2⟩
  unfold favour at same
  split at same
  · exact good cd same
  · rename_i offered
    split at same
    · split at same
      · exact own offered same
      · split at same
        · exact own offered same
        · exact good cd same
    · exact good cd same

theorem selectExisting_offers (found : s.selectExistingUnfinishedDownloadChunk pd = some c) : ∃ cd, s.Offers pd cd ∧ cd.index = c := by
  obtain ⟨cd,chosen,same⟩ := Option.map_eq_some_iff.mp found
  have all (l : List (Nat × ChunkDownload σ H)) (start : Option (ChunkDownload σ H)) (good : ∀ cd, start = some cd → s.Offers pd cd)
      (part : l ⊆ s.downer.downloadingChunks.entries) : ∀ cd, l.foldl (s.favour pd) start = some cd → s.Offers pd cd := by
    induction l generalizing start with
    | nil => exact good
    | cons e rest ih =>
        exact ih _ (favour_offers good (part List.mem_cons_self)) fun e' member => part (List.mem_cons_of_mem _ member)
  exact ⟨cd,all _ none (fun _ none_ => by cases none_) (List.Subset.refl _) cd chosen,same⟩

theorem sorted_perm (sorts : Bool) (less : Nat → Nat → Bool) (chunks : List Nat) : (if sorts then chunks.mergeSort less else chunks).Perm chunks := by
  split
  · exact List.mergeSort_perm chunks less
  · exact .refl chunks

structure Selects (s : Selecting n σ H) (pd : Nat) (chunks : List Nat) (r : Option Nat × List Nat) : Prop where
  kept : ∃ l, r.2.Sublist l ∧ l.Perm chunks
  remains : ∀ i ∈ chunks, s.drops i = false → i ∈ r.2
  sound : ∀ c, r.1 = some c → Fits s pd chunks c ∨ ∃ cd, s.Offers pd cd ∧ cd.index = c
  complete : r.1 = none → ∀ i, Fits s pd chunks i → s.downer.isChunkDownloading i = true

theorem select_spec (pd : Nat) (sorts : Bool) (chunks : List Nat) (inside : ∀ i ∈ chunks, i < n) : Selects s pd chunks (s.select pd sorts chunks) := by
  unfold select
  cases existing : s.selectExistingUnfinishedDownloadChunk pd with
  | some chunk =>
      refine ⟨⟨chunks,.refl _,.refl _⟩,fun i member _ => member,fun c same => .inr ?_,fun none_ => by cases none_⟩
      cases same
      exact selectExisting_offers existing
  | none =>
      dsimp only
      have perm := sorted_perm sorts (fun a b => !s.rareCmp (decide (uint32Sub n s.manager.chunksLeft.1 ≤ 4)) b a) chunks
      generalize (if sorts then chunks.mergeSort _ else chunks) = list at perm ⊢
      have scanned := scan_spec (s := s) pd list
      have back {i : Nat} (fits : Fits s pd list i) : Fits s pd chunks i := ⟨perm.subset fits.1,fits.2⟩
      have kept : ∃ l, (s.scan pd list).kept.Sublist l ∧ l.Perm chunks := ⟨list,scanned.kept,perm⟩
      have remains (i : Nat) (member : i ∈ chunks) (free : s.drops i = false) : i ∈ (s.scan pd list).kept :=
        scanned.remains i (perm.symm.subset member) free
      cases found : (s.scan pd list).sel with
      | none => exact ⟨kept,remains,fun c same => (by cases same),fun _ i fits => scanned.none found i ⟨perm.symm.subset fits.1,fits.2⟩⟩
      | some sel =>
          have fits := (scanned.sel sel found).1
          dsimp only
          rw [if_neg (Nat.not_le_of_lt (inside sel (back fits).1))]
          refine ⟨kept,remains,fun c same => .inl ?_,fun none_ => by cases none_⟩
          cases same
          exact back (choose_fits _ scanned sel fits)

end Selecting

namespace ChunkSelector

-- A list without a chunk twice, and with chunks below n only.
structure Tidy (n : Nat) (chunks : List Nat) : Prop where
  once : chunks.Nodup
  inside : ∀ i ∈ chunks, i < n

theorem Tidy.append (tidy : Tidy n chunks) (new : chunks.contains i = false) (small : i < n) : Tidy n (chunks ++ [i]) := by
  have absent : i ∉ chunks := fun member => by
    rw [List.contains_iff_mem.mpr member] at new
    cases new
  refine ⟨?_,fun j member => ?_⟩
  · rw [List.nodup_append]
    exact ⟨tidy.once,List.nodup_singleton i,fun a here b there same => absent (by rw [← List.mem_singleton.mp there,← same]; exact here)⟩
  · rcases List.mem_append.mp member with old | new
    · exact tidy.inside j old
    · rw [List.mem_singleton.mp new]
      exact small

theorem Tidy.of_sublist (tidy : Tidy n chunks) (sub : l.Sublist l') (perm : l'.Perm chunks) : Tidy n l :=
  ⟨(perm.nodup_iff.mpr tidy.once).sublist sub,fun i member => tidy.inside i (perm.subset (sub.subset member))⟩

theorem reinsert_tidy (tidy : Tidy n chunks) (small : i < n) : Tidy n (reinsert chunks i) := by
  unfold reinsert
  cases there : chunks.contains i with
  | true => exact tidy
  | false => exact tidy.append there small

theorem mem_reinsert : j ∈ reinsert chunks i ↔ j ∈ chunks ∨ j = i := by
  unfold reinsert
  split
  · rename_i there
    exact ⟨.inl,fun either => either.elim id fun same => same ▸ List.contains_iff_mem.mp there⟩
  · rw [List.mem_append,List.mem_singleton]

theorem checkChunk_tidy (tidy : Tidy n chunks) (okChunks : BitSet) (small : i < n) : Tidy n (checkChunk okChunks chunks i) := by
  unfold checkChunk
  dsimp only
  split
  · exact tidy.of_sublist List.filter_sublist (.refl chunks)
  · split
    · rename_i new
      simp only [Bool.and_eq_true,Bool.not_eq_true'] at new
      exact tidy.append new.1 small
    · exact tidy

theorem mem_checkChunk : j ∈ checkChunk okChunks chunks i ↔ if j = i then okChunks.get i = false else j ∈ chunks := by
  unfold checkChunk
  dsimp only
  cases there : chunks.contains i <;> cases ok : okChunks.get i <;> by_cases same : j = i
  all_goals simp only [List.contains_eq_mem,decide_eq_true_eq,decide_eq_false_iff_not] at there
  all_goals simp_all

theorem foldl_checkChunk (okChunks : BitSet) (l : List Nat) (chunks : List Nat) :
    j ∈ l.foldl (checkChunk okChunks) chunks ↔ if j ∈ l then okChunks.get j = false else j ∈ chunks := by
  induction l generalizing chunks with
  | nil => simp
  | cons i rest ih =>
      rw [List.foldl_cons,ih,mem_checkChunk]
      by_cases later : j ∈ rest
      · simp [later]
      · by_cases same : j = i
        · subst same
          simp
        · simp [later,same]

theorem dataChecked_tidy (tidy : Tidy n chunks) (okChunks : ChunkSet n) (lower upper : Nat) : Tidy n (dataChecked okChunks.bits lower upper chunks) := by
  unfold dataChecked
  rw [okChunks.sized]
  refine foldl_related (R := fun l l' => Tidy n l → Tidy n l') (fun _ tidy => tidy) (fun first second tidy => second (first tidy)) _
    (fun l i among tidy => checkChunk_tidy tidy okChunks.bits ?_) chunks tidy
  have bounds := List.mem_range'_1.mp among
  omega

theorem mem_dataChecked (okChunks : ChunkSet n) (lower upper : Nat) (small : j < n) (chunks : List Nat) :
    j ∈ dataChecked okChunks.bits lower upper chunks ↔ if lower ≤ j ∧ j ≤ upper then okChunks.get j = false else j ∈ chunks := by
  unfold dataChecked
  rw [foldl_checkChunk,okChunks.sized]
  refine iff_of_eq (if_congr ?_ rfl rfl)
  rw [List.mem_range'_1]
  omega

theorem reincludeChunk_tidy (tidy : Tidy n chunks) (m : ChunkManager n) (small : i < n) : Tidy n (reincludeChunk m chunks i) := by
  unfold reincludeChunk
  split
  · rename_i new
    simp only [Bool.and_eq_true,Bool.not_eq_true'] at new
    exact tidy.append new.1 small
  · exact tidy

theorem mem_reincludeChunk (m : ChunkManager n) : j ∈ reincludeChunk m chunks i ↔ j ∈ chunks ∨ j = i ∧ (m.chunk i).status ≠ .onDisk := by
  unfold reincludeChunk
  cases there : chunks.contains i with
  | true =>
      have member := List.contains_iff_mem.mp there
      simp only [Bool.not_true,Bool.false_and,Bool.false_eq_true,if_false]
      exact ⟨.inl,fun either => either.elim id fun both => both.1 ▸ member⟩
  | false =>
      by_cases disk : (m.chunk i).status = .onDisk
      · simp [disk]
      · simp [disk]

theorem reincluded_tidy (tidy : Tidy n chunks) (m : ChunkManager n) (lower upper : Nat) : Tidy n (reincluded m lower upper chunks) := by
  unfold reincluded
  split
  · exact tidy
  · rename_i inside
    simp only [Bool.or_eq_true,decide_eq_true_eq,not_or] at inside
    refine foldl_related (R := fun l l' => Tidy n l → Tidy n l') (fun _ tidy => tidy) (fun first second tidy => second (first tidy)) _
      (fun l i among tidy => reincludeChunk_tidy tidy m ?_) chunks tidy
    have bounds := mem_upTo.mp among
    omega

theorem mem_reincluded (m : ChunkManager n) (lower upper : Nat) (chunks : List Nat) (small : upper < n) (order : lower ≤ upper) :
    j ∈ reincluded m lower upper chunks ↔ j ∈ chunks ∨ (lower ≤ j ∧ j ≤ upper) ∧ (m.chunk j).status ≠ .onDisk := by
  have all (l chunks : List Nat) : j ∈ l.foldl (reincludeChunk m) chunks ↔ j ∈ chunks ∨ j ∈ l ∧ (m.chunk j).status ≠ .onDisk := by
    induction l generalizing chunks with
    | nil => simp
    | cons i rest ih =>
        rw [List.foldl_cons,ih,mem_reincludeChunk,List.mem_cons]
        by_cases same : j = i
        · subst same
          simp only [true_and,true_or]
          tauto
        · simp [same]
  unfold reincluded
  rw [if_neg (by simp; omega),all,mem_upTo]

end ChunkSelector

-- The chunk manager of a torrent, and the list of its chunk selector.
structure Selection (t : Files) where
  prioritised : Prioritised t
  chunks : List Nat

namespace Selection
open PriorityControl Prioritised ChunkSelector

variable {t : Files} {x : Selection t}

def manager (x : Selection t) : ChunkManager t.numChunks := x.prioritised.control.manager

def downloading (x : Selection t) : Nat → Bool := x.prioritised.control.downloading

-- What happens to a torrent: the priority of a file changes; a chunk is downloaded, or
-- does not have its hash; a data check is done; missing files have been made again; a
-- ChunkDownload begins or is stopped; and a chunk is selected.
inductive Event (t : Files) (σ H : Type) where
  | downloadPriorityChanged (k : Fin t.numFiles) (newpriority oldpriority : Priority)
  | downloaded (writes : Bool) (i : Nat)
  | failed (resets : Bool) (i : Fin t.numChunks)
  | dataChecked (okChunks : ChunkSet t.numChunks) (lower upper : Nat) (writes : Bool)
  | recreateMissingFiles (multi : Bool) (missing : Nat → Bool) (writes : Bool)
  | download (i : Nat)
  | stop (i : Nat)
  | select (downer : Downloader σ H) (counter : Nat → Nat) (pd : Nat) (sorts : Bool)

-- The signal included comes with the include of a file that was excluded or only
-- seeded, when the statuses are as before.
def included (x : Selection t) (k : Nat) (newpriority oldpriority : Priority) : List Nat :=
  if newpriority ≠ .excluded ∧ (oldpriority = .excluded ∨ oldpriority = .onlySeed) then
    reincluded x.manager (t.file k).firstChunk (t.file k).lastChunk x.chunks
  else x.chunks

-- Downloader::dataChecked
def checked (x : Selection t) (okChunks : ChunkSet t.numChunks) (lower upper : Nat) : Selection t where
  prioritised := {x.prioritised with
    control := {x.prioritised.control with
      downloading := fun i => x.downloading i && !(decide (lower ≤ i ∧ i ≤ upper) && okChunks.get i)}}
  chunks := ChunkSelector.dataChecked okChunks.bits lower upper x.chunks

def onManager (x : Selection t) (call : Call t) : Selection t := {x with prioritised := x.prioritised.step call}

def step (x : Selection t) : Event t σ H → Selection t
  | .downloadPriorityChanged k newpriority oldpriority =>
      {x.onManager (.downloadPriorityChanged k newpriority oldpriority) with chunks := x.included k newpriority oldpriority}
  | .downloaded writes i => (x.onManager (.chunkDownloaded writes i)).onManager (.download i false)
  | .failed resets i =>
      let y := if resets then x.onManager (.resetChunk i) else x
      {y.onManager (.download i false) with chunks := reinsert x.chunks i}
  | .dataChecked okChunks lower upper writes =>
      (x.checked okChunks lower upper).onManager (.dataChecked okChunks.bits lower upper writes)
  | .recreateMissingFiles multi missing writes =>
      -- the Error of an index file that cannot be saved leaves the chunk selector as it is
      let y := x.onManager (.recreateMissingFiles multi missing writes)
      if writes then y.checked y.manager.bitset 0 (uint32Sub t.numChunks 1) else y
  | .download i => x.onManager (.download i true)
  | .stop i => x.onManager (.download i false)
  | .select downer counter pd sorts => {x with chunks := (Selecting.select ⟨x.manager,downer,counter⟩ pd sorts x.chunks).2}

-- What an event has to meet: the calls keep the representation, no chunk that gets
-- wanted without being included has been dropped from the list, and what is downloaded
-- is missing and not excluded.
def Meets (x : Selection t) : Event t σ H → Prop
  | .downloadPriorityChanged k newpriority oldpriority => x.prioritised.Keeps (.downloadPriorityChanged k newpriority oldpriority) ∧
      ∀ c < t.numChunks, InFile t k c ∨ c ∈ shown t (withPriority x.prioritised.files ⟨k,newpriority⟩) k →
        ¬ (newpriority ≠ .excluded ∧ Reincludes oldpriority ∧ InFile t k c) → x.manager.onlySeedChunks.get c = true → x.manager.bitset.get c = false →
        c ∈ x.chunks
  | .downloaded writes i => x.prioritised.Keeps (.chunkDownloaded writes i)
  | .recreateMissingFiles multi missing writes => writes = true ∨ ∀ c < t.numChunks, c ∈ recreated t multi missing →
      x.manager.bitset.get c = true → x.manager.IsWanted c → c ∈ x.chunks
  | .download i => x.manager.bitset.get i = false ∧ x.manager.excludedChunks.get i = false
  | _ => True

-- Nothing is lost.
structure Kept (x : Selection t) : Prop where
  sound : Represents x.prioritised.control
  apart : ∀ c < t.numChunks, x.downloading c = true → x.manager.bitset.get c = false ∧ x.manager.excludedChunks.get c = false
  tidy : Tidy t.numChunks x.chunks
  listed : ∀ c < t.numChunks, x.manager.todo.get c = true → c ∈ x.chunks

theorem todo_iff (sound : Represents x.prioritised.control) (small : c < t.numChunks) : x.manager.todo.get c = true ↔
    x.manager.bitset.get c = false ∧ x.manager.excludedChunks.get c = false ∧ x.manager.onlySeedChunks.get c = false := by
  have todo : x.manager.todo.get c = (!x.manager.bitset.get c && !x.manager.excludedChunks.get c && !x.manager.onlySeedChunks.get c) := (sound c small).todo
  rw [todo]
  simp only [Bool.and_eq_true,Bool.not_eq_true',and_assoc]

theorem wanted_iff (sound : Represents x.prioritised.control) (small : c < t.numChunks) :
    x.manager.IsWanted c ↔ x.manager.excludedChunks.get c = false ∧ x.manager.onlySeedChunks.get c = false := by
  have excluded : x.manager.excludedChunks.get c = ((x.manager.chunk c).priority == .excluded) := (sound c small).excluded
  have onlySeed : x.manager.onlySeedChunks.get c = ((x.manager.chunk c).priority == .onlySeed) := (sound c small).onlySeed
  unfold ChunkManager.IsWanted
  rw [excluded,onlySeed,beq_eq_false_iff_ne,beq_eq_false_iff_ne]

-- A chunk that is in the list when it is needed to be.
structure Safe (x : Selection t) (c : Nat) : Prop where
  apart : x.downloading c = true → x.manager.bitset.get c = false ∧ x.manager.excludedChunks.get c = false
  listed : x.manager.todo.get c = true → c ∈ x.chunks

theorem Kept.safe (kept : Kept x) (small : c < t.numChunks) : Safe x c := ⟨kept.apart c small,kept.listed c small⟩

theorem Safe.same {y : Selection t} (safe : Safe x c) (same : PriorityControl.Same c x.prioritised.control y.prioritised.control)
    (more : c ∈ x.chunks → c ∈ y.chunks) : Safe y c := by
  obtain ⟨view,downloading⟩ := same
  have present : y.manager.bitset.get c = x.manager.bitset.get c := congrArg ChunkView.present view
  have excluded : y.manager.excludedChunks.get c = x.manager.excludedChunks.get c := congrArg ChunkView.excluded view
  have todo : y.manager.todo.get c = x.manager.todo.get c := congrArg ChunkView.todo view
  refine ⟨fun downloads => ?_,fun open_ => ?_⟩
  · rw [present,excluded]
    exact safe.apart (downloading.symm.trans downloads)
  · rw [todo] at open_
    exact more (safe.listed open_)

-- A chunk that is given another priority, and has not been dropped from the list.
theorem Safe.moved {y : Selection t} (kept : Kept x) (small : c < t.numChunks) (sound : Represents y.prioritised.control)
    (calm : Calm x.prioritised.control y.prioritised.control c) (excluded : y.manager.excludedChunks.get c = x.manager.excludedChunks.get c)
    (dropped : x.manager.onlySeedChunks.get c = true → x.manager.bitset.get c = false → c ∈ x.chunks) (more : c ∈ x.chunks → c ∈ y.chunks) : Safe y c := by
  have present : y.manager.bitset.get c = x.manager.bitset.get c := calm.present
  refine ⟨fun downloads => ?_,fun open_ => more ?_⟩
  · rw [present,excluded]
    exact kept.apart c small (calm.downloading downloads)
  · obtain ⟨absent,free,_⟩ := (todo_iff sound small).mp open_
    rw [present] at absent
    rw [excluded] at free
    cases seed : x.manager.onlySeedChunks.get c with
    | true => exact dropped seed absent
    | false => exact kept.listed c small ((todo_iff kept.sound small).mpr ⟨absent,free,seed⟩)

theorem inFile_last (small : c < t.numChunks) (here : InFile t k c) : (t.file k).lastChunk < t.numChunks := by
  rcases Nat.eq_zero_or_pos (t.size k) with none | some_
  · have single : (t.file k).lastChunk = (t.file k).firstChunk := by rw [lastChunk_eq,if_neg (by omega),firstChunk_eq]
    have := here.1
    have := here.2
    omega
  · exact (overlaps_inside (overlaps_own some_ (Nat.le_trans here.1 here.2) (Nat.le_refl _))).1

theorem included_more (x : Selection t) (k : Nat) (newpriority oldpriority : Priority) (member : c ∈ x.chunks) : c ∈ x.included k newpriority oldpriority := by
  unfold included
  split
  · by_cases small : (t.file k).lastChunk < t.numChunks
    · exact (mem_reincluded x.manager _ _ x.chunks small (firstChunk_le_lastChunk t k)).mpr (.inl member)
    · unfold reincluded
      rw [if_pos]
      · exact member
      · simp only [Bool.or_eq_true,decide_eq_true_eq]
        omega
  · exact member

theorem downloadPriorityChanged_safe (kept : Kept x) (k : Fin t.numFiles) (newpriority oldpriority : Priority)
    (meets : Meets x (.downloadPriorityChanged k newpriority oldpriority : Event t σ H)) (small : c < t.numChunks) :
    Safe (x.step (.downloadPriorityChanged k newpriority oldpriority : Event t σ H)) c := by
  have sound := (step_represents kept.sound _).mpr meets.1
  have apart : Apart x.prioritised.control c := fun downloads => (kept.apart c small downloads).1
  have more := included_more (c := c) x k newpriority oldpriority
  have dropped := meets.2 c small
  by_cases excluded : newpriority = .excluded
  · have steps : (x.step (.downloadPriorityChanged k newpriority oldpriority : Event t σ H)).prioritised.control =
        x.prioritised.control.excludeFile (withPriority x.prioritised.files ⟨k,newpriority⟩) k := by
      show x.prioritised.control.downloadPriorityChanged _ _ _ _ = _
      unfold PriorityControl.downloadPriorityChanged downloadStatusChanged
      rw [if_pos excluded,if_neg Bool.false_ne_true]
    rcases excludeFile_chunk (e := withPriority x.prioritised.files ⟨k,newpriority⟩) k.isLt x.prioritised.control small with same | ⟨todo,idle⟩ | ⟨here,given⟩
    · rw [← steps] at same
      exact (kept.safe small).same same more
    · rw [← steps] at todo idle
      exact ⟨fun downloads => (by cases idle.symm.trans downloads),fun open_ => (by cases todo.symm.trans open_)⟩
    · rw [← steps] at given
      exact .moved kept small sound (given.calm apart) given.moves.excluded (dropped (.inl here) fun both => both.1 excluded) more
  · obtain ⟨s₁,places,idle,views⟩ := downloadPriorityChanged_places (e := withPriority x.prioritised.files ⟨k,newpriority⟩) x.prioritised.control k
      oldpriority excluded
    obtain ⟨again,same⟩ := views c small
    have moves := places.moves c small
    have idle : s₁.downloading c = x.downloading c := congrFun idle c
    by_cases included : Reincludes oldpriority ∧ InFile t k c
    · have view := again included
      have before : Calm x.prioritised.control s₁ c := ⟨by rw [view]; rfl,fun downloads => idle.symm.trans downloads⟩
      have calm := before.trans (places.calm c small (before.apart apart))
      have free := moves.excluded
      rw [view] at free
      refine ⟨fun downloads => ⟨?_,free⟩,fun open_ => ?_⟩
      · exact calm.present.trans (apart (calm.downloading downloads))
      · have absent : x.manager.bitset.get c = false := calm.present.symm.trans ((todo_iff sound small).mp open_).1
        have status : x.manager.bitset.get c = ((x.manager.chunk c).status == .onDisk) := (kept.sound c small).present
        rw [absent] at status
        show c ∈ x.included k newpriority oldpriority
        unfold Selection.included
        rw [if_pos ⟨excluded,included.1⟩]
        refine (mem_reincluded x.manager _ _ x.chunks (inFile_last small included.2) (firstChunk_le_lastChunk t k)).mpr (.inr ⟨included.2,?_⟩)
        exact beq_eq_false_iff_ne.mp status.symm
    · have view := same included
      have before : PriorityControl.Same c x.prioritised.control s₁ := ⟨view,idle⟩
      by_cases here : InFile t k c ∨ c ∈ shown t (withPriority x.prioritised.files ⟨k,newpriority⟩) k
      · have calm := before.calm.trans (places.calm c small (before.calm.apart apart))
        refine .moved kept small sound calm ?_ (dropped here fun both => included both.2) more
        have free := moves.excluded
        rw [view] at free
        exact free
      · exact (kept.safe small).same (before.trans (places.others c small here)) more

theorem checkedBit (okChunks : BitSet) (lower upper : Nat) (writes : Bool) (m : ChunkManager n) (small : c < n) :
    (m.dataChecked okChunks lower upper writes).bitset.get c = if lower ≤ c ∧ c ≤ upper then okChunks.get c else m.bitset.get c := by
  have each (m : ChunkManager n) (i : Nat) : (m.chunkChecked okChunks i).bitset.get c = if c = i then okChunks.get c else m.bitset.get c := by
    unfold ChunkManager.chunkChecked
    by_cases here : c = i
    · subst here
      cases ok : okChunks.get c <;> cases held : m.bitset.get c <;> simp [ChunkManager.set_same,small,held]
    · rw [if_neg here]
      split
      · exact ChunkManager.set_other _ _ here
      · split
        · exact ChunkManager.set_other _ _ here
        · rfl
  have bits := foldl_local (f := fun m : ChunkManager n => m.bitset.get c) (g := fun _ => okChunks.get c) (fun _ => rfl) each
    (List.range' lower (min n (upper + 1) - lower)) m
  refine (congrArg ChunkView.present (ChunkManager.saved_view _ writes c)).trans (bits.trans (if_congr ?_ rfl rfl))
  rw [List.mem_range'_1]
  omega

theorem checkedSets (okChunks : BitSet) (lower upper : Nat) (writes : Bool) (m : ChunkManager n) :
    (m.dataChecked okChunks lower upper writes).excludedChunks.get c = m.excludedChunks.get c ∧
      (m.dataChecked okChunks lower upper writes).onlySeedChunks.get c = m.onlySeedChunks.get c := by
  have each {α : Type} {f : ChunkManager n → α} (same : ∀ m i, f (m.chunkChecked okChunks i) = f m) :
      f ((List.range' lower (min n (upper + 1) - lower)).foldl (fun m i => m.chunkChecked okChunks i) m) = f m := foldl_fixed same _ m
  constructor
  · refine (congrArg ChunkView.excluded (ChunkManager.saved_view _ writes c)).trans (each (f := fun m => m.excludedChunks.get c) fun m i => ?_)
    unfold ChunkManager.chunkChecked
    split
    · rfl
    · split <;> rfl
  · refine (congrArg ChunkView.onlySeed (ChunkManager.saved_view _ writes c)).trans (each (f := fun m => m.onlySeedChunks.get c) fun m i => ?_)
    unfold ChunkManager.chunkChecked
    split
    · rfl
    · split <;> rfl

theorem dataChecked_safe (kept : Kept x) (okChunks : ChunkSet t.numChunks) (lower upper : Nat) (writes : Bool) (small : c < t.numChunks)
    (sound : Represents (x.step (.dataChecked okChunks lower upper writes : Event t σ H)).prioritised.control) :
    Safe (x.step (.dataChecked okChunks lower upper writes : Event t σ H)) c := by
  have present : (x.step (.dataChecked okChunks lower upper writes : Event t σ H)).manager.bitset.get c = _ :=
    checkedBit okChunks.bits lower upper writes x.manager small
  obtain ⟨excluded,onlySeed⟩ := checkedSets (c := c) okChunks.bits lower upper writes x.manager
  refine ⟨fun downloads => ?_,fun open_ => ?_⟩
  · have both : (x.downloading c && !(decide (lower ≤ c ∧ c ≤ upper) && okChunks.get c)) = true := downloads
    rw [Bool.and_eq_true,Bool.not_eq_true',Bool.and_eq_false_iff,decide_eq_false_iff_not] at both
    obtain ⟨absent,free⟩ := kept.apart c small both.1
    refine ⟨present.trans ?_,excluded.trans free⟩
    split
    · rename_i range
      exact both.2.resolve_left fun out => out range
    · exact absent
  · obtain ⟨absent,free,unseeded⟩ := (todo_iff sound small).mp open_
    have absent := present.symm.trans absent
    refine (mem_dataChecked okChunks lower upper small x.chunks).mpr ?_
    split
    · rename_i range
      rwa [if_pos range] at absent
    · rename_i out
      rw [if_neg out] at absent
      exact kept.listed c small ((todo_iff kept.sound small).mpr ⟨absent,excluded.symm.trans free,onlySeed.symm.trans unseeded⟩)

theorem recreateMissingFiles_safe (kept : Kept x) (multi : Bool) (missing : Nat → Bool) (writes : Bool)
    (meets : Meets x (.recreateMissingFiles multi missing writes : Event t σ H)) (small : c < t.numChunks) :
    Safe (x.step (.recreateMissingFiles multi missing writes : Event t σ H)) c := by
  let y := x.onManager (.recreateMissingFiles multi missing writes)
  have sound : Represents y.prioritised.control := (step_represents kept.sound (.recreateMissingFiles multi missing writes)).mpr trivial
  have cleared : Cleared (· ∈ recreated t multi missing) x.prioritised.control y.prioritised.control :=
    recreateMissingFiles_cleared multi missing writes x.prioritised.control
  have moves : ChunkView.Moves (x.prioritised.control.view c) (y.prioritised.control.view c) := by
    by_cases here : c ∈ recreated t multi missing
    · rw [cleared.reset c small here]
      exact ChunkView.reset_moves _
    · rw [cleared.others c small here]
      exact .refl _
  have apart (downloads : y.downloading c = true) : y.manager.excludedChunks.get c = false :=
    moves.excluded.trans (kept.apart c small ((congrFun cleared.downloading c).symm.trans downloads)).2
  cases writes with
  | true =>
      have range : 0 ≤ c ∧ c ≤ uint32Sub t.numChunks 1 := by
        rw [uint32Sub_of_le (by omega) (by have := ChunkManager.small_numChunks t; omega)]
        omega
      refine ⟨fun downloads => ?_,fun open_ => ?_⟩
      · have both : (y.downloading c && !(decide (0 ≤ c ∧ c ≤ uint32Sub t.numChunks 1) && y.manager.bitset.get c)) = true := downloads
        rw [Bool.and_eq_true,Bool.not_eq_true',decide_eq_true range,Bool.true_and] at both
        exact ⟨both.2,apart both.1⟩
      · refine (mem_dataChecked _ _ _ small x.chunks).mpr ?_
        rw [if_pos range]
        exact ((todo_iff (x := y) sound small).mp open_).1
  | false =>
      have view : y.prioritised.control.view c = x.prioritised.control.view c ∨
          c ∈ recreated t multi missing ∧ y.prioritised.control.view c = (x.prioritised.control.view c).reset := by
        by_cases here : c ∈ recreated t multi missing
        · exact .inr ⟨here,cleared.reset c small here⟩
        · exact .inl (cleared.others c small here)
      have same : y.downloading = x.downloading := cleared.downloading
      rcases view with kept_ | ⟨here,view⟩
      · exact (kept.safe small).same ⟨kept_,congrFun same c⟩ id
      · have seeds : y.manager.onlySeedChunks.get c = x.manager.onlySeedChunks.get c := by
          refine (congrArg ChunkView.onlySeed view).trans ?_
          unfold ChunkView.reset
          split <;> rfl
        have excluded : y.manager.excludedChunks.get c = x.manager.excludedChunks.get c := moves.excluded
        have absent (before : x.manager.bitset.get c = false) : y.manager.bitset.get c = false := by
          refine (congrArg ChunkView.present view).trans ?_
          unfold ChunkView.reset
          split
          · exact before
          · rfl
        refine ⟨fun downloads => ⟨absent ?_,apart downloads⟩,fun open_ => ?_⟩
        · exact (kept.apart c small ((congrFun same c).symm.trans downloads)).1
        · obtain ⟨_,free,unseeded⟩ := (todo_iff (x := y) sound small).mp open_
          rw [excluded] at free
          rw [seeds] at unseeded
          cases before : x.manager.bitset.get c with
          | false => exact kept.listed c small ((todo_iff kept.sound small).mpr ⟨before,free,unseeded⟩)
          | true =>
              have wanted := (wanted_iff kept.sound small).mpr ⟨free,unseeded⟩
              exact (meets.resolve_left Bool.false_ne_true) c small here before wanted

theorem downloaded_safe (kept : Kept x) (writes : Bool) (i : Nat) (meets : Meets x (.downloaded writes i : Event t σ H)) (small : c < t.numChunks) :
    Safe (x.step (.downloaded writes i : Event t σ H)) c := by
  have sound := (step_represents kept.sound (.chunkDownloaded writes i)).mpr meets
  have present : (x.onManager (.chunkDownloaded writes i)).manager.bitset.get c = _ := ChunkManager.chunkDownloaded_bitset writes i c
  have sets : (x.onManager (.chunkDownloaded writes i)).manager.excludedChunks = x.manager.excludedChunks ∧
      (x.onManager (.chunkDownloaded writes i)).manager.onlySeedChunks = x.manager.onlySeedChunks := by
    show (x.manager.chunkDownloaded writes i).2.excludedChunks = _ ∧ (x.manager.chunkDownloaded writes i).2.onlySeedChunks = _
    unfold ChunkManager.chunkDownloaded
    split
    · exact ⟨rfl,rfl⟩
    · split
      · split <;> exact ⟨rfl,rfl⟩
      · exact ⟨rfl,rfl⟩
  refine ⟨fun downloads => ?_,fun open_ => ?_⟩
  · have downloads : Function.update x.downloading i false c = true := downloads
    by_cases here : c = i
    · rw [here,Function.update_self] at downloads
      cases downloads
    · rw [Function.update_of_ne here] at downloads
      obtain ⟨absent,free⟩ := kept.apart c small downloads
      refine ⟨present.trans ?_,(congrArg (ChunkSet.get · c) sets.1).trans free⟩
      rw [if_neg fun all => here all.1.symm]
      exact absent
  · obtain ⟨absent,free,unseeded⟩ := (todo_iff (x := x.onManager (.chunkDownloaded writes i)) sound small).mp open_
    rw [present] at absent
    split at absent
    · cases absent
    · rw [sets.1] at free
      rw [sets.2] at unseeded
      exact kept.listed c small ((todo_iff kept.sound small).mpr ⟨absent,free,unseeded⟩)

theorem failed_safe (kept : Kept x) (resets : Bool) (i : Fin t.numChunks) (small : c < t.numChunks) :
    Safe (x.step (.failed resets i : Event t σ H)) c := by
  have idle (downloading : Nat → Bool) (downloads : Function.update downloading i false c = true) : c ≠ i ∧ downloading c = true := by
    by_cases here : c = i
    · rw [here,Function.update_self] at downloads
      cases downloads
    · rw [Function.update_of_ne here] at downloads
      exact ⟨here,downloads⟩
  have view : c ≠ i → (x.step (.failed resets i : Event t σ H)).prioritised.control.view c = x.prioritised.control.view c := by
    intro other
    cases resets with
    | false => rfl
    | true =>
        show (x.prioritised.control.resetChunk i).view c = _
        rw [resetChunk_view small,if_neg other]
  refine ⟨fun downloads => ?_,fun open_ => ?_⟩
  · have both : c ≠ i ∧ x.downloading c = true := by
      cases resets with
      | false => exact idle _ downloads
      | true => exact idle _ downloads
    obtain ⟨absent,free⟩ := kept.apart c small both.2
    exact ⟨(congrArg ChunkView.present (view both.1)).trans absent,(congrArg ChunkView.excluded (view both.1)).trans free⟩
  · refine mem_reinsert.mpr ?_
    by_cases here : c = i
    · exact .inr here
    · exact .inl (kept.listed c small ((congrArg ChunkView.todo (view here)).symm.trans open_))

theorem todo_stays (sound : Represents x.prioritised.control) (small : c < t.numChunks) (open_ : x.manager.todo.get c = true)
    (downer : Downloader σ H) (counter : Nat → Nat) : Selecting.drops ⟨x.manager,downer,counter⟩ c = false := by
  obtain ⟨absent,free,unseeded⟩ := (todo_iff sound small).mp open_
  have excluded : x.manager.excludedChunks.get c = (x.manager.chunk c).isExcluded := (sound c small).excluded
  have onlySeed : x.manager.onlySeedChunks.get c = (x.manager.chunk c).isExcludedForDownloading := (sound c small).onlySeed
  unfold Selecting.drops
  dsimp only
  rw [← excluded,← onlySeed,absent,free,unseeded]
  rfl

theorem step_kept (kept : Kept x) (event : Event t σ H) (meets : x.Meets event) : Kept (x.step event) := by
  have made {y : Selection t} (sound : Represents y.prioritised.control) (tidy : Tidy t.numChunks y.chunks) (safe : ∀ c < t.numChunks, Safe y c) : Kept y :=
    ⟨sound,fun c small => (safe c small).apart,tidy,fun c small => (safe c small).listed⟩
  have represents (call : Call t) (keeps : x.prioritised.Keeps call) : Represents (x.prioritised.step call).control := (step_represents kept.sound call).mpr keeps
  cases event with
  | downloadPriorityChanged k newpriority oldpriority =>
      refine made (represents _ meets.1) ?_ fun c small => downloadPriorityChanged_safe kept k newpriority oldpriority meets small
      show Tidy _ (x.included k newpriority oldpriority)
      unfold included
      split
      · exact reincluded_tidy kept.tidy x.manager _ _
      · exact kept.tidy
  | downloaded writes i => exact made (represents (.chunkDownloaded writes i) meets) kept.tidy fun c small => downloaded_safe kept writes i meets small
  | failed resets i =>
      refine made ?_ (reinsert_tidy kept.tidy i.isLt) fun c small => failed_safe kept resets i small
      cases resets with
      | false => exact kept.sound
      | true => exact represents (.resetChunk i) trivial
  | dataChecked okChunks lower upper writes =>
      have sound : Represents (x.step (.dataChecked okChunks lower upper writes : Event t σ H)).prioritised.control :=
        represents (.dataChecked okChunks.bits lower upper writes) trivial
      exact made sound (dataChecked_tidy kept.tidy okChunks lower upper) fun c small => dataChecked_safe kept okChunks lower upper writes small sound
  | recreateMissingFiles multi missing writes =>
      have sound := represents (.recreateMissingFiles multi missing writes) trivial
      have safe (c : Nat) (small : c < t.numChunks) := recreateMissingFiles_safe kept multi missing writes meets small
      cases writes with
      | true => exact made sound (dataChecked_tidy kept.tidy _ _ _) safe
      | false => exact made sound kept.tidy safe
  | download i =>
      refine made kept.sound kept.tidy fun c small => ⟨fun downloads => ?_,kept.listed c small⟩
      have downloads : Function.update x.downloading i true c = true := downloads
      by_cases here : c = i
      · rw [here]
        exact meets
      · rw [Function.update_of_ne here] at downloads
        exact kept.apart c small downloads
  | stop i =>
      refine made kept.sound kept.tidy fun c small => ⟨fun downloads => ?_,kept.listed c small⟩
      have downloads : Function.update x.downloading i false c = true := downloads
      by_cases here : c = i
      · rw [here,Function.update_self] at downloads
        cases downloads
      · rw [Function.update_of_ne here] at downloads
        exact kept.apart c small downloads
  | select downer counter pd sorts =>
      have selects := Selecting.select_spec (s := ⟨x.manager,downer,counter⟩) pd sorts x.chunks kept.tidy.inside
      obtain ⟨l,sub,perm⟩ := selects.kept
      refine made kept.sound (kept.tidy.of_sublist sub perm) fun c small => ⟨kept.apart c small,fun open_ => ?_⟩
      exact selects.remains c (kept.listed c small open_) (todo_stays kept.sound small open_ downer counter)

-- A new chunk selector: all missing chunks are in the list, in any order.
structure Begins (x : Selection t) : Prop where
  sound : Represents x.prioritised.control
  idle : ∀ c, x.downloading c = false
  missing : x.chunks.Perm ((List.range t.numChunks).filter fun i => !x.manager.bitset.get i)

theorem Begins.kept (begins : Begins x) : Kept x := by
  refine ⟨begins.sound,fun c _ downloads => ?_,⟨?_,fun i member => ?_⟩,fun c small open_ => ?_⟩
  · cases (begins.idle c).symm.trans downloads
  · exact begins.missing.nodup_iff.mpr (List.nodup_range.filter _)
  · exact List.mem_range.mp (List.mem_of_mem_filter (begins.missing.subset member))
  · refine begins.missing.symm.subset (List.mem_filter.mpr ⟨List.mem_range.mpr small,?_⟩)
    rw [((todo_iff begins.sound small).mp open_).1]
    rfl

-- The Downloader has the downloads that the signal finds.
structure Follows (x : Selection t) (d : Downloader σ H) : Prop where
  downloading : ∀ i, x.downloading i = d.isChunkDownloading i
  keyed : ∀ e ∈ d.downloadingChunks.entries, e.2.index = e.1 ∧ e.1 < t.numChunks

theorem contains_of_mem {m : PtrMap β} {e : Nat × β} (member : e ∈ m.entries) : m.contains e.1 = true := by
  unfold PtrMap.contains PtrMap.find
  rw [Option.isSome_map,List.find?_isSome]
  exact ⟨e,member,beq_self_eq_true e.1⟩

-- Every chunk that is wanted and missing is in the list, once, after all that happens to
-- the torrent, where each event meets what it has to. So select finds a chunk if the
-- peer offers one that is wanted and that nobody downloads, and what it finds is
-- offered, missing and not excluded.
theorem selector_complete (begins : Begins x) (events : List (Event t σ H)) (along : Along step Meets x events) :
    (∀ c < t.numChunks, (events.foldl step x).manager.IsWanted c → (events.foldl step x).manager.bitset.get c = false →
        (events.foldl step x).chunks.count c = 1) ∧
      ∀ (d : Downloader σ H) (counter : Nat → Nat) (pd : Nat) (sorts : Bool), Follows (events.foldl step x) d →
        let found := (Selecting.select ⟨(events.foldl step x).manager,d,counter⟩ pd sorts (events.foldl step x).chunks).1
        (∀ c, found = some c → c < t.numChunks ∧ (d.peers pd).hasChunk c = true ∧ (events.foldl step x).manager.bitset.get c = false ∧
            (events.foldl step x).manager.excludedChunks.get c = false) ∧
          ((∃ c < t.numChunks, (events.foldl step x).manager.IsWanted c ∧ (events.foldl step x).manager.bitset.get c = false ∧
              d.isChunkDownloading c = false ∧ (d.peers pd).hasChunk c = true) → found.isSome = true) := by
  have kept : Kept (events.foldl step x) := Along.kept begins.kept (fun x event kept meets => step_kept kept event meets) along
  generalize events.foldl step x = y at kept ⊢
  have listed (c : Nat) (small : c < t.numChunks) (wanted : y.manager.IsWanted c) (absent : y.manager.bitset.get c = false) : y.manager.todo.get c = true :=
    (todo_iff kept.sound small).mpr ⟨absent,(wanted_iff kept.sound small).mp wanted⟩
  refine ⟨fun c small wanted absent => ?_,fun d counter pd sorts follows => ?_⟩
  · exact List.count_eq_one_of_mem kept.tidy.once (kept.listed c small (listed c small wanted absent))
  · have selects := Selecting.select_spec (s := ⟨y.manager,d,counter⟩) pd sorts y.chunks kept.tidy.inside
    refine ⟨fun c found => ?_,fun ⟨c,small,wanted,absent,idle,offered⟩ => ?_⟩
    · rcases selects.sound c found with ⟨member,free,offered⟩ | ⟨cd,⟨⟨e,member,rfl⟩,offered⟩,rfl⟩
      · have small := kept.tidy.inside c member
        have excluded : y.manager.excludedChunks.get c = (y.manager.chunk c).isExcluded := (kept.sound c small).excluded
        unfold Selecting.drops at free
        simp only [Bool.or_eq_false_iff] at free
        exact ⟨small,offered,free.2,excluded.trans free.1.2⟩
      · obtain ⟨same,small⟩ := follows.keyed e member
        rw [same] at offered ⊢
        have downloads : y.downloading e.1 = true := (follows.downloading e.1).trans (contains_of_mem member)
        exact ⟨small,offered,kept.apart e.1 small downloads⟩
    · by_contra nothing
      have none_ := Option.not_isSome_iff_eq_none.mp nothing
      have open_ := listed c small wanted absent
      have busy := selects.complete none_ c ⟨kept.listed c small open_,todo_stays kept.sound small open_ d counter,offered⟩
      cases idle.symm.trans busy

-- A chunk that has failed is in the list again.
def twoMissing : Selection PriorityControl.middleFile := ⟨threeNormal,[1,0]⟩

theorem twoMissing_begins : Begins twoMissing where
  sound := new_represents rfl
  idle _ := rfl
  missing := by decide

theorem failed_again : (([.download 0,.failed true ⟨0,by decide⟩] : List (Event PriorityControl.middleFile Unit Unit)).foldl step twoMissing).chunks.count 0 = 1 := by
  have along : Along step Meets twoMissing ([.download 0,.failed true ⟨0,by decide⟩] : List (Event PriorityControl.middleFile Unit Unit)) :=
    ⟨⟨ChunkSet.new_get _ 0,ChunkSet.new_get _ 0⟩,trivial,trivial⟩
  refine (selector_complete twoMissing_begins _ along).1 0 (by decide) ?_ ?_
  · exact ⟨by decide +kernel,by decide +kernel⟩
  · decide +kernel

end Selection

end KtorrentStream.Download
