import KtorrentStream.Diskio.BytesLeft
import KtorrentStream.Download.Steady
import KtorrentStream.Torrent.TorrentControl
set_option autoImplicit true

namespace KtorrentStream.Torrent.TorrentControl
open KtorrentStream.Lib KtorrentStream.Util KtorrentStream.Diskio KtorrentStream.Download
open KtorrentStream.Download.Downloader KtorrentStream.Download.ChunkDownload

variable {t : Files}

-- bytes_downloaded is the size of the torrent without bytesLeft(), and what the
-- ChunkDownloads in downloading_chunks have downloaded.
def Balanced (s : TorrentControl t σ H) : Prop :=
  s.downloader.bytesDownloaded = t.totalSize - s.cman.bytesLeft t + s.downloader.unfinishedBytes

def Nothing (s : TorrentControl t σ H) (i : Nat) : Prop :=
  ∀ cd, s.downloader.downloadingChunks.find i = some cd → cd.bytesDownloaded = 0

-- A piece that completes its chunk is the last one that was missing. When the hash
-- is right the chunk is new and can be recorded.
def Completes [DecidableEq H] (s : TorrentControl t σ H) (writes webseeding : Bool) (packet : List UInt8)
    (cd : ChunkDownload σ H) (r : Received σ H) : Prop :=
  (∀ k < cd.totalPiecesNumber, k = Downloader.readUint32 packet 5 / maxPieceLen ∨ cd.pieces.get k = true) ∧
    if r.cd.getHash = some (s.downloader.hash r.cd.index) then
      Downloader.readUint32 packet 1 < t.numChunks ∧ s.cman.bitset.get (Downloader.readUint32 packet 1) = false ∧
        (s.cman.chunk (Downloader.readUint32 packet 1)).isExcluded = false ∧ writes = true
    else webseeding = true ∨ s.cman.bitset.get (Downloader.readUint32 packet 1) = false

-- When the bytes stay balanced: nothing that was downloaded is dropped or comes
-- a second time.
def Keeps [DecidableEq H] (sha : Sha1 σ H) (s : TorrentControl t σ H) : Event → Prop
  | .piece now writes webseeding paused pd packet =>
    ∀ cd, paused = false → 9 ≤ packet.length → s.cman.completed = false →
      s.downloader.downloadingChunks.find (Downloader.readUint32 packet 1) = some cd →
      s.synced.mapThrows (Downloader.pieceOf pd packet) = false → (s.received sha now pd packet cd).complete = true →
      s.Completes writes webseeding packet cd (s.received sha now pd packet cd)
  | .chunkReady i true saved _ =>
    i < t.numChunks ∧ s.cman.bitset.get i = false ∧ (s.cman.chunk i).isExcluded = false ∧ saved = true ∧ s.Nothing i
  | .chunkReady i false _ _ => s.downloader.downloadingChunks.contains i = true ∨ s.cman.bitset.get i = false
  | .exclude lower upper => ∀ i, min lower upper ≤ i → i ≤ max lower upper → s.cman.bitset.get i = false ∧ s.Nothing i
  | .excluded lower upper =>
    ∀ i, lower ≤ i → i ≤ upper → s.downloader.downloadingChunks.contains i = true → s.cman.bitset.get i = false ∧ s.Nothing i
  | .resetChunk i => s.cman.bitset.get i = false
  | .dataChecked okChunks lower upper => ∀ i, lower ≤ i → i ≤ upper → okChunks.get i = true → s.Nothing i
  | .afterDataCheck okChunks lower upper _ => ∀ i, s.Nothing i ∨ lower ≤ i ∧ i ≤ upper ∧ okChunks.get i = true
  | .recalcDownloaded => ∀ i, s.Nothing i
  | .loadDownloads _ file => file = none ∨ s.cman.completed = true ∨ ∀ i, s.Nothing i
  | .pause => ∀ i, s.Nothing i
  | .clearDownloads => ∀ i, s.Nothing i
  | _ => True

structure Sound (sha : Sha1 σ H) (s : TorrentControl t σ H) : Prop where
  sizes : ∀ i, (s.downloader.chunkSize i).toNat = t.chunkLen i
  counted : s.downloader.Counted sha (s.cman.owned t)

variable {sha : Sha1 σ H} {s : TorrentControl t σ H}

theorem downloaded_eq (fits : t.chunkSize < 4294967296) (s : TorrentControl t σ H) : s.downloaded = s.cman.owned t := by
  have whole := ChunkManager.bytesLeft_owned (m := s.cman) fits
  unfold downloaded
  omega

theorem Sound.balanced (fits : t.chunkSize < 4294967296) (sound : Sound sha s) : s.Balanced := by
  have same := downloaded_eq fits s
  unfold downloaded at same
  rw [Balanced,same]
  exact sound.counted.bytes

theorem nothing_iff : s.Nothing i ↔ (s.downloader.download sha i).bytesDownloaded = 0 := by
  unfold Nothing
  cases found : s.downloader.downloadingChunks.find i with
  | none =>
    rw [download_none found,new_bytes]
    exact ⟨fun _ => rfl,fun _ cd there => by cases there⟩
  | some cd =>
    rw [download_found found]
    exact ⟨fun none => none cd rfl,fun zero _ there => Option.some.inj there ▸ zero⟩

theorem nothing_unfinished (none : ∀ i, s.Nothing i) : s.downloader.unfinishedBytes = 0 := none_unfinished fun i cd => none i cd

theorem Sound.moved (sound : Sound sha s) {d' : Downloader σ H} {m' : ChunkManager t.numChunks} (steady : Steady sha s.downloader d')
    (owned : m'.owned t = s.cman.owned t) : Sound sha (⟨d',m'⟩ : TorrentControl t σ H) where
  sizes i := steady.sizes ▸ sound.sizes i
  counted := owned ▸ steady.counted sound.counted

theorem synced_steady (sha : Sha1 σ H) (s : TorrentControl t σ H) : Steady sha s.downloader s.synced := .other rfl rfl rfl

theorem reset_steady (sha : Sha1 σ H) (s : TorrentControl t σ H) (i : Nat) : Steady sha s.downloader (s.resetChunk i).downloader := by
  unfold resetChunk
  dsimp only
  split
  · exact .refl sha _
  · exact .other rfl rfl rfl

theorem reset_owned (off : s.cman.bitset.get i = false) : (s.cman.resetChunk i).owned t = s.cman.owned t := by
  apply markedSum_congr
  intro j _
  rw [ChunkManager.resetChunk_bitset]
  split
  · rename_i here
    rw [← here.1,off]
  · rfl

theorem Sound.reset (sound : Sound sha s) (off : s.cman.bitset.get i = false) : Sound sha (s.resetChunk i) :=
  sound.moved (reset_steady sha s i) (reset_owned off)

-- Chunks that are dropped

theorem reset_bit (off : s.cman.bitset.get j = false) : (s.resetChunk i).cman.bitset.get j = false := by
  show (s.cman.resetChunk i).bitset.get j = false
  rw [ChunkManager.resetChunk_bitset]
  split
  · rfl
  · exact off

theorem reset_find (s : TorrentControl t σ H) (i : Nat) :
    (s.resetChunk i).downloader.downloadingChunks = s.downloader.downloadingChunks := by
  unfold resetChunk
  dsimp only
  split <;> rfl

theorem exclude_find (d : Downloader σ H) (i j : Nat) :
    (d.exclude i).downloadingChunks.find j = if j = i then none else d.downloadingChunks.find j := by
  unfold Downloader.exclude Downloader.erase
  dsimp only
  rw [PtrMap.find_erase,visit_find]
  by_cases here : j = i
  · rw [if_pos here,if_pos here]
  · rw [if_neg here,if_neg here,if_neg here]

theorem Sound.onExcluded (l : List Nat) (sound : Sound sha s)
    (dropped : ∀ i ∈ l, s.downloader.downloadingChunks.contains i = true → s.cman.bitset.get i = false ∧ s.Nothing i) :
    Sound sha (l.foldl dropExcluded s) := by
  induction l generalizing s with
  | nil => exact sound
  | cons i rest ih =>
    rw [List.foldl_cons]
    have later : ∀ j ∈ rest, _ := fun j member => dropped j (List.mem_cons_of_mem _ member)
    unfold dropExcluded
    split
    · rename_i here
      obtain ⟨off,none⟩ := dropped i List.mem_cons_self here
      have gone : Sound sha (⟨s.downloader.exclude i,s.cman⟩ : TorrentControl t σ H) :=
        sound.moved (drop_steady (nothing_iff.mp none)) rfl
      apply ih (gone.reset off)
      intro j member there
      have found : (s.downloader.exclude i).downloadingChunks.contains j = true := by rwa [reset_find] at there
      have same : (s.downloader.exclude i).downloadingChunks.find j = s.downloader.downloadingChunks.find j := by
        rw [exclude_find]
        refine if_neg fun here => ?_
        rw [PtrMap.contains,exclude_find,if_pos here] at found
        cases found
      obtain ⟨bit,zero⟩ := later j member (by rwa [PtrMap.contains,same] at found)
      refine ⟨reset_bit bit,?_⟩
      intro cd there
      rw [reset_find] at there
      exact zero cd (same ▸ there)
    · exact ih sound later

theorem exclude_owned (off : ∀ i, min lower upper ≤ i → i ≤ max lower upper → s.cman.bitset.get i = false) :
    (s.cman.exclude lower upper).owned t = s.cman.owned t := by
  apply markedSum_congr
  intro i _
  rw [ChunkManager.exclude_bitset]
  split
  · rename_i member
    obtain ⟨low,high,_⟩ := ChunkManager.mem_rangeOf.mp member
    rw [off i low high]
  · rfl

theorem drop_whole {f : ChunkDownload σ H → Peers → ChunkDownload σ H × Peers} {d : Downloader σ H} (whole : d.AllWhole sha) (i : Nat) :
    ((d.visit i f).erase i).AllWhole sha := by
  intro j
  rw [drop_download,show ((d.visit i f).erase i).chunkSize = d.chunkSize from (visit_frame d i f).2.1]
  split
  · exact new_whole sha j _
  · exact whole j

def dropChecked (okChunks : BitSet) (d : Downloader σ H) (i : Nat) : Downloader σ H :=
  if okChunks.get i then (d.visit i fun cd peers => cd.releaseAllPDs peers).erase i else d

theorem checked_steady (okChunks : BitSet) (l : List Nat) (d : Downloader σ H)
    (none : ∀ i ∈ l, okChunks.get i = true → (d.download sha i).bytesDownloaded = 0) :
    Steady sha d (l.foldl (dropChecked okChunks) d) := by
  induction l generalizing d with
  | nil => exact .refl sha d
  | cons i rest ih =>
    rw [List.foldl_cons]
    have first : Steady sha d (dropChecked okChunks d i) := by
      unfold dropChecked
      split
      · rename_i ok
        exact drop_steady (none i List.mem_cons_self ok)
      · exact .refl sha d
    refine first.trans (ih _ fun j member ok => ?_)
    rw [first.same]
    exact none j (List.mem_cons_of_mem _ member) ok

theorem checked_find (okChunks : BitSet) (l : List Nat) (d : Downloader σ H) (j : Nat) :
    (l.foldl (dropChecked okChunks) d).downloadingChunks.find j =
      if j ∈ l ∧ okChunks.get j = true then none else d.downloadingChunks.find j := by
  induction l generalizing d with
  | nil => simp
  | cons i rest ih =>
    rw [List.foldl_cons,ih,dropChecked]
    by_cases ok : okChunks.get i = true
    · rw [if_pos ok]
      show (if _ then none else ((d.visit i _).downloadingChunks.erase i).find j) = _
      rw [PtrMap.find_erase,visit_find]
      by_cases here : j = i
      · simp [here,ok]
      · simp [here]
    · rw [if_neg ok]
      by_cases here : j = i
      · simp [here,ok]
      · simp [here]

theorem checked_frame (okChunks : BitSet) (l : List Nat) (d : Downloader σ H) (whole : d.AllWhole sha) :
    (l.foldl (dropChecked okChunks) d).AllWhole sha ∧
      (l.foldl (dropChecked okChunks) d).chunkSize =
        d.chunkSize := by
  induction l generalizing d with
  | nil => exact ⟨whole,rfl⟩
  | cons i rest ih =>
    rw [List.foldl_cons,dropChecked]
    by_cases ok : okChunks.get i = true
    · rw [if_pos ok]
      obtain ⟨after,sizes⟩ := ih ((d.visit i fun cd peers => cd.releaseAllPDs peers).erase i) (drop_whole whole i)
      exact ⟨after,sizes.trans (visit_frame d i _).2.1⟩
    · rw [if_neg ok]
      exact ih d whole

-- Chunks that are completed

theorem downloaded_owned (fresh : s.cman.bitset.get i = false) (inside : i < t.numChunks)
    (wanted : (s.cman.chunk i).isExcluded = false) (writes : Bool) :
    (s.cman.chunkDownloaded writes i).2.owned t = s.cman.owned t + t.chunkLen i := by
  apply markedSum_turnedOn inside fresh
  · rw [ChunkManager.chunkDownloaded_bitset,if_pos ⟨rfl,inside,wanted⟩]
  · intro j other
    rw [ChunkManager.chunkDownloaded_bitset,if_neg fun here => other here.1.symm]

theorem Sound.chunkReady (sound : Sound sha s) (inside : i < t.numChunks) (fresh : s.cman.bitset.get i = false)
    (wanted : (s.cman.chunk i).isExcluded = false) (none : s.Nothing i) (writes : Bool) :
    Sound sha (s.onChunkReady i true true writes) := by
  have steady : Steady sha s.downloader (s.downloader.onChunkReady i true) := drop_steady (nothing_iff.mp none)
  have before := steady.counted sound.counted
  refine ⟨fun j => steady.sizes ▸ sound.sizes j,before.whole,?_⟩
  show s.downloader.bytesDownloaded + t.chunkLen i =
    (s.cman.chunkDownloaded writes i).2.owned t + (s.downloader.onChunkReady i true).unfinishedBytes
  rw [downloaded_owned fresh inside wanted writes,sound.counted.bytes,steady.unfinished]
  omega

theorem handlePiece_hash [DecidableEq H] (d : Downloader σ H) (now : Nat) (saved paused : Bool) (pd : Nat) (packet : List UInt8) :
    (d.handlePiece sha now saved paused pd packet).hash = d.hash := by
  refine handlePiece_by (P := fun d' => d'.hash = d.hash) rfl (fun running long throws => ?_) (fun _ _ _ => rfl)
    fun running long incomplete safe cd found => ?_
  · rw [handlePiece_threw running long throws]
    unfold visit
    split <;> rfl
  · rw [handlePiece_delivered running long incomplete found safe]
    dsimp only
    split <;> rfl

-- A piece that leaves the ChunkDownload unfinished, and one that completes it.

section
variable {cd : ChunkDownload σ H} {r : Received σ H} {d' : Downloader σ H} {m' : ChunkManager t.numChunks}

theorem Sound.taken (sound : Sound sha s) (found : s.downloader.downloadingChunks.find i = some cd)
    (whole : Whole sha i (s.downloader.chunkSize i).toNat r.cd) (taken : Taken sha s.synced i r len good d')
    (unfinished : r.complete = false) (bytes : r.cd.bytesDownloaded = cd.bytesDownloaded + if r.isNeeded then len else 0) :
    Sound sha (⟨d',s.cman⟩ : TorrentControl t σ H) := by
  have before := sound.counted.bytes
  have change := taken.unfinished
  have there : s.synced.download sha i = cd := download_found found
  have same : s.synced.unfinishedBytes = s.downloader.unfinishedBytes := rfl
  have after := taken.bytes
  have count : s.synced.bytesDownloaded = s.downloader.bytesDownloaded := rfl
  rw [unfinished,there,same] at change
  rw [unfinished,count] at after
  refine ⟨fun j => taken.sizes ▸ sound.sizes j,taken.whole ((synced_steady sha s).whole sound.counted.whole) whole,?_⟩
  show d'.bytesDownloaded = s.cman.owned t + d'.unfinishedBytes
  simp only [Bool.false_and,Bool.false_eq_true,if_false,Nat.sub_zero] at change after
  rw [after]
  split at bytes
  · rename_i needed
    rw [if_pos needed]
    omega
  · rename_i useless
    rw [if_neg useless]
    omega

theorem Sound.finishes (sound : Sound sha s) (found : s.downloader.downloadingChunks.find i = some cd)
    (whole : Whole sha i (s.downloader.chunkSize i).toNat r.cd) (taken : Taken sha s.synced i r len good d')
    (complete : r.complete = true) (needed : r.isNeeded = true) (full : cd.bytesDownloaded + len = t.chunkLen i)
    (owned : m'.owned t = s.cman.owned t + if good then t.chunkLen i else 0) : Sound sha (⟨d',m'⟩ : TorrentControl t σ H) := by
  have before := sound.counted.bytes
  have change := taken.unfinished
  have there : s.synced.download sha i = cd := download_found found
  have same : s.synced.unfinishedBytes = s.downloader.unfinishedBytes := rfl
  have after := taken.bytes
  have count : s.synced.bytesDownloaded = s.downloader.bytesDownloaded := rfl
  have size : r.cd.size = t.chunkLen i := whole.chunk.size.symm.trans (sound.sizes i)
  rw [complete,if_pos rfl,there,same] at change
  rw [complete,needed,if_pos rfl,count,size,Bool.true_and] at after
  refine ⟨fun j => taken.sizes ▸ sound.sizes j,taken.whole ((synced_steady sha s).whole sound.counted.whole) whole,?_⟩
  show d'.bytesDownloaded = m'.owned t + d'.unfinishedBytes
  rw [owned,after]
  cases good with
  | true =>
    simp only [Bool.not_true,Bool.false_eq_true,if_false,if_true]
    omega
  | false =>
    simp only [Bool.not_false,Bool.false_eq_true,if_false,if_true]
    omega

-- The last piece brings what the chunk lacks.
theorem Sound.full (sound : Sound sha s) (chunk : cd.totalPiecesNumber = r.cd.totalPiecesNumber)
    (whole : Whole sha i (s.downloader.chunkSize i).toNat r.cd) (bytes : r.cd.bytesDownloaded = cd.bytesDownloaded + len)
    (marked : ∀ k, r.cd.pieces.get k = if p = k then true else cd.pieces.get k)
    (last : ∀ k < cd.totalPiecesNumber, k = p ∨ cd.pieces.get k = true) : cd.bytesDownloaded + len = t.chunkLen i := by
  rw [← bytes,← sound.sizes]
  apply whole.bytes_all
  intro k inChunk
  rw [marked]
  rw [← chunk] at inChunk
  rcases last k inChunk with here | there
  · rw [if_pos here.symm]
  · split
    · rfl
    · exact there

theorem Sound.completes [DecidableEq H] (sound : Sound sha s)
    (found : s.downloader.downloadingChunks.find (Downloader.readUint32 packet 1) = some cd)
    (whole : Whole sha (Downloader.readUint32 packet 1) (s.downloader.chunkSize (Downloader.readUint32 packet 1)).toNat r.cd)
    (taken : ∀ saved, Taken sha s.synced (Downloader.readUint32 packet 1) r (packet.drop 9).length (s.synced.finished r.cd saved)
      (s.synced.handlePiece sha now saved false pd packet))
    (complete : r.complete = true) (needed : r.isNeeded = true)
    (full : cd.bytesDownloaded + (packet.drop 9).length = t.chunkLen (Downloader.readUint32 packet 1))
    (completes : s.Completes writes webseeding packet cd r) :
    Sound sha ((⟨s.synced.handlePiece sha now (s.finished r.cd writes webseeding).1 false pd packet,s.cman⟩ :
      TorrentControl t σ H).finished r.cd writes webseeding).2 := by
  obtain ⟨_,recorded⟩ := completes
  have index : r.cd.index = Downloader.readUint32 packet 1 := whole.chunk.index.symm
  unfold finished
  rw [handlePiece_hash]
  rw [index] at recorded ⊢
  split at recorded
  · rename_i right
    obtain ⟨inside,fresh,wanted,writable⟩ := recorded
    have right' : r.cd.getHash = some (s.synced.hash (Downloader.readUint32 packet 1)) := right
    have saved : (s.cman.chunkDownloaded writes (Downloader.readUint32 packet 1)).1 = true := by
      simp [ChunkManager.chunkDownloaded,wanted,writable,Nat.not_le.mpr inside]
    rw [if_pos right',if_pos right]
    dsimp only
    rw [saved]
    refine sound.finishes found whole (taken true) complete needed full ?_
    rw [downloaded_owned fresh inside wanted writes,Downloader.finished,index,right']
    simp
  · rename_i wrong
    have wrong' : ¬ r.cd.getHash = some (s.synced.hash (Downloader.readUint32 packet 1)) := wrong
    have bad : s.synced.finished r.cd true = false := by
      rw [Downloader.finished,index]
      simp [wrong']
    have after : Sound sha (⟨s.synced.handlePiece sha now true false pd packet,s.cman⟩ : TorrentControl t σ H) := by
      refine sound.finishes found whole (taken true) complete needed full ?_
      rw [bad]
      rfl
    rw [if_neg wrong',if_neg wrong]
    dsimp only
    split
    · exact after
    · rename_i peersOnly
      exact after.reset (recorded.resolve_left peersOnly)

end

theorem Sound.piece [DecidableEq H] (sound : Sound sha s) (keeps : s.Keeps sha (.piece now writes webseeding paused pd packet)) :
    Sound sha (s.handlePiece sha now writes webseeding paused pd packet) := by
  have steady := synced_steady sha s
  unfold handlePiece
  dsimp only
  split
  · rename_i idle
    refine sound.moved (steady.trans (handlePiece_idle ?_)) rfl
    rw [Bool.or_eq_true,Bool.or_eq_true,decide_eq_true_eq] at idle
    rcases idle with (on | short) | done
    · exact .inl on
    · exact .inr (.inl short)
    · exact .inr (.inr (.inl done))
  · rename_i busy
    rw [Bool.not_eq_true,Bool.or_eq_false_iff,Bool.or_eq_false_iff,decide_eq_false_iff_not] at busy
    obtain ⟨⟨running,long⟩,going⟩ := busy
    have long : 9 ≤ packet.length := by omega
    subst running
    split
    · rename_i absent
      exact sound.moved (steady.trans (handlePiece_idle (.inr (.inr (.inr absent))))) rfl
    · rename_i cd found
      have whole : Whole sha (Downloader.readUint32 packet 1) (s.downloader.chunkSize (Downloader.readUint32 packet 1)).toNat cd :=
        @download_found σ H sha s.downloader _ cd found ▸ sound.counted.whole (Downloader.readUint32 packet 1)
      cases throws : s.synced.mapThrows (pieceOf pd packet) with
      | true =>
        rw [Bool.or_true,if_pos rfl]
        exact sound.moved (steady.trans (handlePiece_threw_stores (A := fun _ => True) rfl long throws).steady) rfl
      | false =>
        rw [Bool.or_false]
        have taken := fun saved => @handlePiece_taken σ H sha s.synced _ cd packet now pd saved long going found throws
        have result : delivered sha s.synced now pd packet cd = s.received sha now pd packet cd := rfl
        rw [result] at taken
        cases accepted : cd.accepts (pieceOf pd packet) with
        | false =>
          have refused : s.received sha now pd packet cd = ⟨cd,_,_,false,false⟩ := pieceReceived_rejected accepted
          rw [refused] at taken ⊢
          exact sound.taken found whole (taken true) rfl rfl
        | true =>
          obtain ⟨needed,bytes,wholeAfter,marked⟩ : (s.received sha now pd packet cd).isNeeded = true ∧
              (s.received sha now pd packet cd).cd.bytesDownloaded = cd.bytesDownloaded + (packet.drop 9).length ∧
              Whole sha (Downloader.readUint32 packet 1) (s.downloader.chunkSize (Downloader.readUint32 packet 1)).toNat (s.received sha now pd packet cd).cd ∧
              ∀ k, (s.received sha now pd packet cd).cd.pieces.get k =
                if Downloader.readUint32 packet 5 / maxPieceLen = k then true else cd.pieces.get k := pieceReceived_bytes whole accepted
          cases complete : (s.received sha now pd packet cd).complete with
          | false =>
            rw [Bool.not_false,if_pos rfl]
            refine sound.taken found wholeAfter (taken true) complete ?_
            rw [needed,if_pos rfl,bytes]
          | true =>
            have completes := keeps cd rfl long going found throws complete
            rw [Bool.not_true,if_neg Bool.false_ne_true]
            refine sound.completes found wholeAfter taken complete needed ?_ completes
            exact sound.full (whole.chunk.total.symm.trans wholeAfter.chunk.total) wholeAfter bytes marked completes.1

-- What begins without ChunkDownloads, or has none with bytes.

theorem Sound.cleared (sound : Sound sha s) (none : ∀ i, s.Nothing i) {d' : Downloader σ H}
    (chunks : d'.downloadingChunks = .empty) (bytes : d'.bytesDownloaded = s.downloader.bytesDownloaded)
    (sizes : d'.chunkSize = s.downloader.chunkSize) : Sound sha (⟨d',s.cman⟩ : TorrentControl t σ H) := by
  have absent : ∀ i, d'.downloadingChunks.find i = .none := fun i => by rw [chunks]; rfl
  have nothing : d'.unfinishedBytes = 0 := none_unfinished fun i cd found => by
    rw [absent] at found
    cases found
  refine ⟨fun i => sizes ▸ sound.sizes i,?_,?_⟩
  · intro i
    rw [download_none (absent i)]
    exact new_whole sha i _
  · have before := sound.counted.bytes
    rw [nothing_unfinished none] at before
    rw [bytes,nothing]
    exact before

theorem Counted.recalculated {d : Downloader σ H} (whole : d.AllWhole sha) (none : d.unfinishedBytes = 0) (downloaded : Nat) :
    Downloader.Counted sha downloaded {d with bytesDownloaded := downloaded} := by
  refine ⟨whole,?_⟩
  show downloaded = downloaded + d.unfinishedBytes
  rw [none]
  rfl

theorem Sound.recalculated (fits : t.chunkSize < 4294967296) (sizes : ∀ i, (s.downloader.chunkSize i).toNat = t.chunkLen i)
    (whole : s.downloader.AllWhole sha) (none : s.downloader.unfinishedBytes = 0) : Sound sha s.recalcDownloaded := by
  have recounted : s.recalcDownloaded = ⟨{s.downloader with bytesDownloaded := s.cman.owned t},s.cman⟩ := by
    rw [recalcDownloaded,downloaded_eq fits]
  rw [recounted]
  exact ⟨sizes,Counted.recalculated whole none _⟩

theorem Sound.afterDataCheck (fits : t.chunkSize < 4294967296) (sound : Sound sha s) {okChunks : BitSet}
    (rest : ∀ i, s.Nothing i ∨ lower ≤ i ∧ i ≤ upper ∧ okChunks.get i = true) (writes : Bool) :
    Sound sha (s.afterDataCheck okChunks lower upper writes) := by
  obtain ⟨whole,sizes⟩ := checked_frame okChunks (List.range' lower (min okChunks.numBits (upper + 1) - lower)) s.downloader
    sound.counted.whole
  refine Sound.recalculated fits (fun i => sizes ▸ sound.sizes i) whole ?_
  apply none_unfinished
  intro i cd found
  have there := checked_find okChunks (List.range' lower (min okChunks.numBits (upper + 1) - lower)) s.downloader i
  rw [show (List.foldl (dropChecked okChunks) s.downloader _).downloadingChunks.find i = some cd from found] at there
  split at there
  · cases there
  · rename_i kept
    rcases rest i with none | ⟨low,high,ok⟩
    · exact none cd there.symm
    · have inside : i < okChunks.numBits := by
        by_contra outside
        rw [okChunks.get_of_ge (by omega)] at ok
        cases ok
      exact absurd ⟨List.mem_range'_1.mpr ⟨low,by omega⟩,ok⟩ kept

theorem Sound.loadDownloads (fits : t.chunkSize < 4294967296) (sound : Sound sha s) (memory : Nat → List UInt8) (file : Option File)
    (none : file = none ∨ s.cman.completed = true ∨ ∀ i, s.Nothing i) : Sound sha (s.loadDownloads sha memory file) := by
  unfold TorrentControl.loadDownloads
  split
  · exact sound
  · split
    · exact sound
    · rename_i file going
      have none : ∀ i, s.Nothing i := by
        rcases none with closed | done | none
        · cases closed
        · exact absurd done going
        · exact none
      have start : Downloader.Counted sha (s.cman.owned t) {s.downloader with bytesDownloaded := s.downloaded} := by
        rw [downloaded_eq fits]
        exact Counted.recalculated sound.counted.whole (nothing_unfinished none) _
      unfold Downloader.loadDownloads
      dsimp only
      split
      · exact ⟨sound.sizes,start⟩
      · obtain ⟨counted,sizes⟩ := loadChunks_counted t.numChunks
          (fun i => (s.cman.chunk i).status == .onDisk || (s.cman.chunk i).isExcluded) memory
          (word (readWords 4 (memory 0) file).1 3) (readWords 4 (memory 0) file).2 start
        exact ⟨fun i => (congrArg (fun f => (f i).toNat) sizes).trans (sound.sizes i),counted⟩

theorem sound_preserved [DecidableEq H] (fits : t.chunkSize < 4294967296) (sound : Sound sha s) (event : Event)
    (keeps : s.Keeps sha event) : Sound sha (s.perform sha event) := by
  cases event with
  | update now needsUpdate answers =>
    exact sound.moved ((synced_steady sha s).trans (update_stores (A := fun _ => True) now needsUpdate answers (fun _ _ => trivial) _).steady) rfl
  | piece now writes webseeding paused pd packet => exact sound.piece keeps
  | rejected now pd r => exact sound.moved (rejected_stores (A := fun _ => True) now pd r _).steady rfl
  | addPieceDownloader pd peer => exact sound.moved (.other rfl rfl rfl) rfl
  | removePieceDownloader pd => exact sound.moved (removePieceDownloader_stores (A := fun _ => True) pd _).steady rfl
  | stopAndReassign now pd i => exact sound.moved (stopAndReassign_stores (A := fun _ => True) now pd i trivial _).steady rfl
  | peer pd state => exact sound.moved (.other rfl rfl rfl) rfl
  | chunkReady i ok saved writes =>
    cases ok with
    | true =>
      obtain ⟨inside,fresh,wanted,rfl,none⟩ := keeps
      exact sound.chunkReady inside fresh wanted none writes
    | false =>
      show Sound sha (if s.downloader.downloadingChunks.contains i then s else s.resetChunk i)
      split
      · exact sound
      · rename_i absent
        exact sound.reset (keeps.resolve_left absent)
  | exclude lower upper =>
    have dropped : ∀ i, min lower upper ≤ i → i ≤ max lower upper → s.cman.bitset.get i = false ∧ s.Nothing i := keeps
    have excluded : Sound sha (⟨s.downloader,s.cman.exclude lower upper⟩ : TorrentControl t σ H) :=
      sound.moved (.refl sha _) (exclude_owned fun i low high => (dropped i low high).1)
    refine excluded.onExcluded _ fun i member _ => ?_
    obtain ⟨low,high⟩ := mem_upTo.mp member
    refine ⟨?_,(dropped i low high).2⟩
    show (s.cman.exclude lower upper).bitset.get i = false
    rw [ChunkManager.exclude_bitset]
    split
    · rfl
    · exact (dropped i low high).1
  | excluded lower upper =>
    refine sound.onExcluded _ fun i member here => ?_
    obtain ⟨low,high⟩ := mem_upTo.mp member
    exact keeps i low high here
  | included lower upper =>
    exact sound.moved (.refl sha _) (markedSum_congr fun i _ => by rw [ChunkManager.includeRange_bitset])
  | prioritise lower upper priority =>
    exact sound.moved (.refl sha _) (markedSum_congr fun i _ => by rw [ChunkManager.prioritise_bitset])
  | resetChunk i => exact sound.reset keeps
  | dataChecked okChunks lower upper =>
    refine sound.moved (checked_steady okChunks _ _ fun i member ok => ?_) rfl
    obtain ⟨low,high⟩ := List.mem_range'_1.mp member
    exact nothing_iff.mp (keeps i low (by omega) ok)
  | afterDataCheck okChunks lower upper writes => exact sound.afterDataCheck fits keeps writes
  | recalcDownloaded => exact .recalculated fits sound.sizes sound.counted.whole (nothing_unfinished keeps)
  | loadDownloads memory file => exact sound.loadDownloads fits memory file keeps
  | pause => exact sound.cleared keeps rfl rfl rfl
  | clearDownloads => exact sound.cleared keeps rfl rfl rfl

theorem new_sound (fits : t.chunkSize < 4294967296) (new : New s) : Sound sha s := by
  have absent : ∀ i, s.downloader.downloadingChunks.find i = none := fun i => by rw [new.none]; rfl
  have nothing : s.downloader.unfinishedBytes = 0 := none_unfinished fun i cd found => by
    rw [absent] at found
    cases found
  refine ⟨new.sizes,?_,?_⟩
  · intro i
    rw [download_none (absent i)]
    exact new_whole sha i _
  · rw [new.bytes,downloaded_eq fits,nothing]
    rfl

-- In every run whose steps drop nothing and count nothing twice, the bytes are
-- balanced all the time.
theorem bytes_balanced [DecidableEq H] (t : Files) (sha : Sha1 σ H) (fits : t.chunkSize < 4294967296) (s : TorrentControl t σ H)
    (reached : Reached sha (Keeps sha) s) : s.Balanced := by
  have sound : Sound sha s := by
    induction reached with
    | new new => exact new_sound fits new
    | step _ event keeps ih => exact sound_preserved fits ih event keeps
  exact sound.balanced fits

-- One chunk with a piece of 16384 bytes and one of 1 byte.
def oneChunk : Files := ⟨16385,[16385],by decide,by decide,by decide⟩

def beginning : TorrentControl oneChunk Unit Unit :=
  ⟨{noChunks with chunkSize := fun _ => 16385,cache := {noChunks.cache with chunkSize := 16385,fileEnd := fun _ => 16385}},.new _ []⟩

theorem beginning_new : New beginning := by
  refine ⟨rfl,?_,by decide⟩
  intro i
  show 16385 = uint32 (if i + 1 < oneChunk.numChunks then 16385 else 16385)
  rw [ite_self]
  rfl

def lastPiece : List UInt8 := [7,0,0,0,0,0,0,64,0,5]

-- The last byte of the chunk comes from a peer.
def lastByte : TorrentControl oneChunk Unit Unit :=
  ((beginning.perform anySha (.addPieceDownloader 7 connectedPeer)).perform anySha (.update 0 (fun _ => false) [some 0])).perform
    anySha (.piece 0 true false false 7 lastPiece)

theorem last_byte_balanced : lastByte.downloader.bytesDownloaded = 1 ∧ lastByte.Balanced := by
  refine ⟨rfl,bytes_balanced oneChunk anySha (by decide) lastByte ?_⟩
  refine .step (.step (.step (.new beginning_new) (.addPieceDownloader 7 connectedPeer) trivial)
    (.update 0 (fun _ => false) [some 0]) trivial) (.piece 0 true false false 7 lastPiece) ?_
  intro cd _ _ _ found _ complete
  cases found
  cases complete

-- The webseed then has the whole chunk: its 16385 bytes are added, and the byte
-- of the ChunkDownload that is deleted stays counted.
theorem webseed_counts_twice : ¬ ∀ s : TorrentControl oneChunk Unit Unit, Reached anySha (fun _ _ => True) s → s.Balanced := by
  intro claimed
  have reached : Reached anySha (fun _ _ => True) (lastByte.perform anySha (.chunkReady 0 true true true)) :=
    .step (.step (.step (.step (.new beginning_new) (.addPieceDownloader 7 connectedPeer) trivial)
      (.update 0 (fun _ => false) [some 0]) trivial) (.piece 0 true false false 7 lastPiece) trivial)
      (.chunkReady 0 true true true) trivial
  have balanced := claimed _ reached
  have counted : (lastByte.perform anySha (.chunkReady 0 true true true)).downloader.bytesDownloaded = 16386 := by decide +kernel
  have unfinished : (lastByte.perform anySha (.chunkReady 0 true true true)).downloader.unfinishedBytes = 0 := rfl
  have left : (lastByte.perform anySha (.chunkReady 0 true true true)).cman.bytesLeft oneChunk = 0 := by decide +kernel
  rw [Balanced,counted,unfinished,left] at balanced
  cases balanced

end KtorrentStream.Torrent.TorrentControl
