import Mathlib.Data.List.Nodup
import KtorrentStream.Download.ChunkFrame
set_option autoImplicit true

namespace KtorrentStream.Download
open KtorrentStream.Util KtorrentStream.Diskio

namespace ChunkDownload

def readHeader (file : File) : Option (Nat × Nat × File) := do
  let (index,file) ← file.readUint32
  let (numBits,file) ← file.readUint32
  let (_,file) ← file.readUint32
  return (index,numBits,file)

-- What loadDownloads does with the record that saveDownloads wrote.
def reload (sha : Sha1 σ H) (cd : ChunkDownload σ H) (cache : Cache) : Option (ChunkDownload σ H × Cache × File) :=
  match readHeader (cd.save cache) with
  | none => none
  | some (index,numBits,file) => (new sha index cd.size).load sha numBits true cache file

section
variable {cd cd' : ChunkDownload σ H} {cache cache' : Cache} {stored : Nat → Option (List UInt8)} {sha : Sha1 σ H}
  {p q i j size : Nat} {cache0 cache2 : Cache} {done : List Nat} {data : List UInt8}

theorem new_lastSize (sha : Sha1 σ H) (index size : Nat) : (new sha index size).lastSize ≤ maxPieceLen := by
  show (if size % maxPieceLen ≠ 0 then size % maxPieceLen else maxPieceLen) ≤ maxPieceLen
  split
  · exact Nat.le_of_lt (Nat.mod_lt _ (by decide))
  · exact Nat.le_refl _

theorem bare_tidy (cd : ChunkDownload σ H) (bare : cache.pieces = []) (empty : cache.pieceCache = []) : Tidy cd cache := by
  have absent : ∀ (p : Nat) (pd : PieceData), ¬ Of cd.index cache p pd := fun p pd found => by
    have there := found.1
    rw [bare] at there
    cases there
  refine ⟨fun p pd found => absurd found (absent p pd),fun p pd found => absurd found (absent p pd),
    fun p pd found => absurd found (absent p pd),fun p member => ?_,fun p member => ?_⟩
  · rw [empty] at member
    cases member
  · rw [empty] at member
    cases member

-- A ChunkDownload that begins; pieces of its chunk may be in the cache.
theorem new_sound {index size : Nat} (tidy : Tidy (new sha index size) cache) :
    Sound sha (new sha index size) cache (fun _ => none) := by
  have off : ∀ i, (BitSet.new (numPieces size)).get i = false := BitSet.new_get _
  refine ⟨new_lastSize _ _ _,rfl,BitSet.new_counted _,BitSet.new_clean _,rfl,List.length_replicate,?_,?_,?_,tidy,?_,rfl⟩
  · intro i _
    refine ⟨rfl,?_⟩
    show (List.replicate (numPieces size) none).getD i none = none
    rw [List.getD_eq_getElem?_getD,List.getElem?_replicate]
    split <;> rfl
  · intro i on
    rw [show (new sha index size).pieces.get i = false from off i] at on
    cases on
  · intro i on
    rw [show (new sha index size).pieces.get i = false from off i] at on
    cases on
  · exact ⟨Nat.zero_le _,fun i below => absurd below (Nat.not_lt_zero i)⟩

-- Other buffers can be mapped from now on, and piece_cache loses pieces.
theorem Tidy.forget (tidy : Tidy cd cache) (keep : Nat → Bool) (canMap : Nat → Nat → Bool) (fresh : Nat → Nat → UInt8) :
    Tidy cd {cache with pieceCache := cache.pieceCache.filter keep,canMap := canMap,fresh := fresh} where
  writeable p pd found := tidy.writeable p pd found
  sized p pd found := tidy.sized p pd found
  aligned p pd found := tidy.aligned p pd found
  inside p member := tidy.inside p (List.mem_of_mem_filter member)
  once p member q member' pd pd' found found' :=
    tidy.once p (List.mem_of_mem_filter member) q (List.mem_of_mem_filter member') pd pd' found found'

theorem Sound.forget (sound : Sound sha cd cache stored) (keep : Nat → Bool) (canMap : Nat → Nat → Bool)
    (fresh : Nat → Nat → UInt8) :
    Sound sha cd {cache with pieceCache := cache.pieceCache.filter keep,canMap := canMap,fresh := fresh} stored :=
  ⟨sound.lastSize,sound.bits,sound.counted,sound.clean,sound.downloaded,sound.places,sound.missing,sound.held,
    fun i on q member pd found off => sound.kept i on q (List.mem_of_mem_filter member) pd found off,
    sound.tidy.forget keep canMap fresh,sound.begun,sound.hashed⟩

theorem numPieces_lt (small : size < 4294967296) : numPieces size < 4294967296 := by
  unfold numPieces maxPieceLen
  split <;> omega

theorem readHeader_save (small : cd.index < 4294967296) (few : cd.pieces.numBits < 4294967296) :
    readHeader (cd.save cache) = some (cd.index,cd.pieces.numBits,cd.saveBody cache) := by
  unfold readHeader save
  rw [List.append_assoc,List.append_assoc,File.readUint32_bytes small]
  simp only [Option.bind_eq_bind,Option.bind_some]
  rw [File.readUint32_bytes few]
  simp only [Option.bind_some]
  rw [File.readUint32_bytes (by decide)]
  rfl

theorem readPieceHeader_save {pd : PieceData} (small : i < 4294967296) (short : pd.len < 4294967296) (rest : List UInt8) :
    readPieceHeader (savePiece cache i pd ++ rest) = some (⟨i,pd.len,if pd.mapped then 1 else 0⟩,
      (if pd.mapped then [] else cache.bytes pd) ++ rest) := by
  unfold readPieceHeader savePiece
  rw [List.append_assoc,List.append_assoc,List.append_assoc,File.readUint32_bytes small]
  simp only [Option.bind_eq_bind,Option.bind_some]
  rw [File.readUint32_bytes short]
  simp only [Option.bind_some]
  rw [File.readUint32_bytes (by split <;> decide)]
  rfl

def OnDisk (cd : ChunkDownload σ H) (cache : Cache) (i : Nat) (data : List UInt8) : Prop :=
  window cache.file (cd.index * cache.chunkSize + i * maxPieceLen) data.length = data

-- q is the piece i in piece_cache.
def CachedAt (cd : ChunkDownload σ H) (cache : Cache) (i q : Nat) (pd : PieceData) : Prop :=
  q ∈ cache.pieceCache ∧ Of cd.index cache q pd ∧ pd.off = i * maxPieceLen

-- A piece that the record has as mapped, and that gets a buffer of its own.
def Unmapped (cd : ChunkDownload σ H) (flag : Nat → Bool) (start : Cache) (i : Nat) : Prop :=
  flag i = true ∧ (∀ q pd, ¬ CachedAt cd start i q pd) ∧ start.canMap cd.index (i * maxPieceLen) = false

-- What a record has of a ChunkDownload: the bytes of its pieces, and which of
-- them were mapped and are in the files.
structure Recorded (cd : ChunkDownload σ H) (saved : Nat → Option (List UInt8)) (flag : Nat → Bool) (start : Cache) : Prop where
  sizes : ∀ i data, saved i = some data → data.length = cd.pieceLen i
  onDisk : ∀ i data, saved i = some data → flag i = true → OnDisk cd start i data
  cached : ∀ i q pd, (saved i).isSome → CachedAt cd start i q pd → pd.mapped = flag i

-- The state in the middle of a load: the pieces in `done` are in their buffers
-- with the bytes that `target` has, the others are as they were at the start.
structure Loading (cd0 : ChunkDownload σ H) (saved : Nat → Option (List UInt8)) (flag : Nat → Bool) (start : Cache)
    (target : Nat → Option (List UInt8)) (done : List Nat) (cd : ChunkDownload σ H) (cache : Cache) : Prop where
  same : cd = {cd0 with pieceData := cd.pieceData}
  places : cd.pieceData.length = cd0.totalPiecesNumber
  tidy : Tidy cd0 cache
  frame : Frame cd0.index cd0.size start cache
  ready : ∀ i ∈ done, ∃ data p, target i = some data ∧ cd.pieceData.getD i none = some p ∧ Holding cd0.index cache i p data
  kept : ∀ i ∈ done, ∀ q pd, CachedAt cd0 cache i q pd → cd.pieceData.getD i none = some q
  empty : ∀ i, i ∉ done → cd.pieceData.getD i none = none ∧ target i = none
  waiting : ∀ i, i ∉ done → ∀ data, saved i = some data → flag i = true → OnDisk cd0 cache i data
  untouched : ∀ i, i ∉ done → ∀ q pd, CachedAt cd0 cache i q pd ↔ CachedAt cd0 start i q pd
  right : ∀ i ∈ done, (¬ Unmapped cd0 flag start i → target i = saved i) ∧
    (Unmapped cd0 flag start i → ∃ n, target i = some ((List.range (cd0.pieceLen i)).map (start.fresh n)))

-- Between the caches only the piece i is filled.
structure Fills (cd : ChunkDownload σ H) (i : Nat) (cache cache' : Cache) : Prop where
  pieceCache : cache'.pieceCache = cache.pieceCache
  chunkSize : cache'.chunkSize = cache.chunkSize
  others : ∀ (q : Nat) (pd : PieceData) (j : Nat), j ≠ i → pd.off = j * maxPieceLen →
    (Of cd.index cache' q pd ↔ Of cd.index cache q pd)
  file : ∀ x, x < cd.index * cache.chunkSize + i * maxPieceLen ∨
    cd.index * cache.chunkSize + i * maxPieceLen + cd.pieceLen i ≤ x → cache'.file x = cache.file x

theorem Fills.refl (cd : ChunkDownload σ H) (i : Nat) (cache : Cache) : Fills cd i cache cache :=
  ⟨rfl,rfl,fun _ _ _ _ _ => Iff.rfl,fun _ _ => rfl⟩

theorem fill_fills {pd : PieceData} (found : Of cd.index cache p pd) (off : pd.off = i * maxPieceLen)
    (full : data.length = cd.pieceLen i) : Fills cd i cache (cache.fill p pd data) := by
  obtain ⟨pieceCache,_,chunkSize⟩ := fill_pieceCache cache p pd data
  refine ⟨pieceCache,chunkSize,?_,?_⟩
  · intro q pd' j other offJ
    unfold Cache.fill
    split
    · exact Iff.rfl
    · unfold Of
      dsimp only
      rw [List.getElem?_set]
      by_cases same : p = q
      · rw [if_pos same,← same,found.1,if_pos (List.getElem?_eq_some_iff.mp found.1).1]
        constructor
        · rintro ⟨now,_⟩
          cases now
          have differs : pd.off = j * maxPieceLen := offJ
          unfold maxPieceLen at *
          omega
        · rintro ⟨now,_⟩
          cases now
          unfold maxPieceLen at *
          omega
      · rw [if_neg same]
  · intro x outside
    unfold Cache.fill
    split
    · apply poke_outside
      unfold Cache.pieceOff
      rw [found.2,off,full]
      exact outside
    · rfl

theorem Fills.window (fills : Fills cd i cache cache') (short : cd.lastSize ≤ maxPieceLen) (other : j ≠ i)
    (len : n ≤ maxPieceLen) : Diskio.window cache'.file (cd.index * cache.chunkSize + j * maxPieceLen) n =
      Diskio.window cache.file (cd.index * cache.chunkSize + j * maxPieceLen) n := by
  have small := pieceLen_le short i
  refine Cache.window_congr fun k inside => fills.file _ ?_
  unfold maxPieceLen at *
  omega

theorem Fills.holding (fills : Fills cd i cache cache') (tidy : Tidy cd cache) (short : cd.lastSize ≤ maxPieceLen)
    (other : j ≠ i) (holding : Holding cd.index cache j q data) : Holding cd.index cache' j q data := by
  obtain ⟨pd,found,off,bytes⟩ := holding
  refine ⟨pd,(fills.others q pd j other off).mpr found,off,?_⟩
  rw [← bytes]
  unfold Cache.bytes
  split
  · obtain ⟨k,_,offK,len⟩ := tidy.aligned q pd found
    unfold Cache.pieceOff
    rw [found.2,off,fills.chunkSize,fills.window short other (by rw [len]; exact pieceLen_le short k)]
  · rfl

theorem Fills.onDisk (fills : Fills cd i cache cache') (short : cd.lastSize ≤ maxPieceLen) (other : j ≠ i)
    (len : data.length ≤ maxPieceLen) (onDisk : OnDisk cd cache j data) : OnDisk cd cache' j data := by
  unfold OnDisk at *
  rw [fills.chunkSize,fills.window short other len]
  exact onDisk

theorem Fills.cachedAt {pd : PieceData} (fills : Fills cd i cache cache') (other : j ≠ i) :
    CachedAt cd cache' j q pd ↔ CachedAt cd cache j q pd := by
  unfold CachedAt
  rw [fills.pieceCache]
  constructor
  · rintro ⟨member,found,off⟩
    exact ⟨member,(fills.others q pd j other off).mp found,off⟩
  · rintro ⟨member,found,off⟩
    exact ⟨member,(fills.others q pd j other off).mpr found,off⟩

theorem Prepared.cachedAt {pd : PieceData} (prepared : Prepared cd cache i p cache') (tidy : Tidy cd cache) (other : j ≠ i) :
    CachedAt cd cache' j q pd ↔ CachedAt cd cache j q pd := by
  constructor
  · rintro ⟨member,found,off⟩
    rcases prepared.newer q member with rfl | earlier
    · obtain ⟨pd',found',off',_⟩ := prepared.found
      have same := found.1
      rw [found'.1] at same
      cases same
      unfold maxPieceLen at *
      omega
    · exact ⟨earlier,⟨prepared.known tidy earlier found.1,found.2⟩,off⟩
  · rintro ⟨member,found,off⟩
    exact ⟨prepared.still q member,⟨prepared.older q pd found.1,found.2⟩,off⟩

theorem Loading.next {cd0 : ChunkDownload σ H} (loading : Loading cd0 saved flag start target done cd cache)
    (recorded : Recorded cd0 saved flag start) (short : cd0.lastSize ≤ maxPieceLen)
    (inChunk : i < cd0.totalPiecesNumber) (waits : i ∉ done) (prepared : Prepared cd0 cache i p cache')
    (tidy : Tidy cd0 cache2) (frame : Frame cd0.index cd0.size cache cache2) (fills : Fills cd0 i cache' cache2)
    (holding : Holding cd0.index cache2 i p data)
    (right : (¬ Unmapped cd0 flag start i → some data = saved i) ∧
      (Unmapped cd0 flag start i → ∃ n, data = (List.range (cd0.pieceLen i)).map (start.fresh n))) :
    Loading cd0 saved flag start (Function.update target i (some data)) (done ++ [i])
      {cd with pieceData := cd.pieceData.set i (some p)} cache2 := by
  have placed : ∀ j, (cd.pieceData.set i (some p)).getD j none = if i = j then some p else cd.pieceData.getD j none := by
    intro j
    rw [List.getD_eq_getElem?_getD,List.getD_eq_getElem?_getD,List.getElem?_set,loading.places]
    by_cases same : i = j
    · rw [if_pos same,if_pos inChunk,if_pos same]
      rfl
    · rw [if_neg same,if_neg same]
  have cachedAt : ∀ j q pd, j ≠ i → (CachedAt cd0 cache2 j q pd ↔ CachedAt cd0 cache j q pd) :=
    fun j q pd other => (fills.cachedAt other).trans (prepared.cachedAt loading.tidy other)
  have either : ∀ j, j ∈ done ++ [i] → j ∈ done ∧ j ≠ i ∨ j = i := by
    intro j member
    rcases List.mem_append.mp member with before | last
    · exact .inl ⟨before,fun e => waits (e ▸ before)⟩
    · exact .inr (List.mem_singleton.mp last)
  have neither : ∀ j, j ∉ done ++ [i] → j ∉ done ∧ j ≠ i := by
    intro j absent
    rw [List.mem_append,List.mem_singleton,not_or] at absent
    exact absent
  refine ⟨?_,List.length_set.trans loading.places,tidy,loading.frame.trans frame,?_,?_,?_,?_,?_,?_⟩
  · rw [loading.same]
  · intro j member
    rcases either j member with ⟨before,other⟩ | rfl
    · obtain ⟨data',q,got,place,pd,found,off,bytes⟩ := loading.ready j before
      have older : Holding cd0.index cache' j q data' :=
        ⟨pd,⟨prepared.older q pd found.1,found.2⟩,off,(prepared.bytes pd).trans bytes⟩
      refine ⟨data',q,by rw [Function.update_of_ne other]; exact got,(placed j).trans ?_,
        fills.holding prepared.tidy short other older⟩
      rw [if_neg (Ne.symm other)]
      exact place
    · exact ⟨data,p,Function.update_self ..,(placed j).trans (if_pos rfl),holding⟩
  · intro j member q pd at_
    rw [placed j]
    rcases either j member with ⟨before,other⟩ | rfl
    · rw [if_neg (Ne.symm other)]
      exact loading.kept j before q pd ((cachedAt j q pd other).mp at_)
    · obtain ⟨pd',found',off',_⟩ := holding
      have cachedP : p ∈ cache2.pieceCache := by
        rw [fills.pieceCache]
        exact prepared.cached
      rw [if_pos rfl,tidy.once q at_.1 p cachedP pd pd' at_.2.1 found' (at_.2.2.trans off'.symm)]
  · intro j absent
    obtain ⟨before,other⟩ := neither j absent
    rw [placed j,if_neg (Ne.symm other),Function.update_of_ne other]
    exact loading.empty j before
  · intro j absent data' got mapped
    obtain ⟨before,other⟩ := neither j absent
    have len : data'.length ≤ maxPieceLen := by
      rw [recorded.sizes j data' got]
      exact pieceLen_le short j
    refine fills.onDisk short other len ?_
    have was := loading.waiting j before data' got mapped
    unfold OnDisk at *
    rw [prepared.file,prepared.chunkSize]
    exact was
  · intro j absent q pd
    obtain ⟨before,other⟩ := neither j absent
    exact (cachedAt j q pd other).trans (loading.untouched j before q pd)
  · intro j member
    rcases either j member with ⟨before,other⟩ | rfl
    · rw [Function.update_of_ne other]
      exact loading.right j before
    · rw [Function.update_self]
      refine ⟨right.1,fun lost => ?_⟩
      obtain ⟨n,same⟩ := right.2 lost
      exact ⟨n,congrArg some same⟩

theorem Tidy.sameChunk (tidy : Tidy cd cache) (same : SameChunk cd cd') : Tidy cd' cache := by
  have len : ∀ i, cd'.pieceLen i = cd.pieceLen i := fun i => by
    unfold pieceLen
    rw [same.total,same.lastSize]
  have of : ∀ (p : Nat) (pd : PieceData), Of cd'.index cache p pd ↔ Of cd.index cache p pd := fun p pd => by
    rw [same.index]
  refine ⟨fun p pd found => tidy.writeable p pd ((of p pd).mp found),fun p pd found => tidy.sized p pd ((of p pd).mp found),
    fun p pd found => ?_,tidy.inside,fun p member q member' pd pd' found found' =>
      tidy.once p member q member' pd pd' ((of p pd).mp found) ((of q pd').mp found')⟩
  obtain ⟨i,inChunk,off,length⟩ := tidy.aligned p pd ((of p pd).mp found)
  exact ⟨i,by rw [same.total]; exact inChunk,off,by rw [len]; exact length⟩

-- One piece of the record; cache0 is the cache it was written from. The buffer
-- that it gets is in the cache already, or is mapped, or is filled here; a new
-- buffer for a piece saved as mapped keeps what it holds.
theorem loadPiece_spec {cd0 : ChunkDownload σ H} {pd : PieceData}
    (loading : Loading cd0 saved flag start target done cd cache) (recorded : Recorded cd0 saved flag start)
    (short : cd0.lastSize ≤ maxPieceLen) (few : cd0.totalPiecesNumber < 4294967296) (fits : cd0.Fits)
    (waits : i ∉ done) (inChunk : i < cd0.totalPiecesNumber) (len : pd.len = cd0.pieceLen i)
    (mapped : pd.mapped = flag i) (got : saved i = some (cache0.bytes pd)) (rest : List UInt8) :
    ∃ cd' cache' target', cd.loadPiece cache (savePiece cache0 i pd ++ rest) = some (cd',cache',rest) ∧
      Loading cd0 saved flag start target' (done ++ [i]) cd' cache' := by
  have lenSmall := pieceLen_le short i
  have sameIndex : cd.index = cd0.index := by rw [loading.same]
  have sameTotal : cd.totalPiecesNumber = cd0.totalPiecesNumber := by rw [loading.same]
  have length := recorded.sizes i _ got
  unfold loadPiece
  rw [readPieceHeader_save (by omega) (by rw [len]; unfold maxPieceLen at lenSmall; omega)]
  dsimp only
  rw [if_neg (by rw [sameTotal]; omega),Cache.getPiece,if_neg Bool.false_ne_true,len]
  cases preparing : cache.preparePiece cd.index (i * maxPieceLen) (cd0.pieceLen i) with
  | mk p cache1 =>
    rw [sameIndex] at preparing
    have prepared := preparePiece_spec loading.tidy inChunk preparing
    have first := preparePiece_frame cache cd0.index (i * maxPieceLen) (cd0.pieceLen i) cd0.size
    rw [preparing] at first
    obtain ⟨pd1,found1,off1,len1,new1⟩ := prepared.found
    -- The buffer was in the cache at the start, or it is new.
    have old1 : p ∈ cache.pieceCache → CachedAt cd0 start i p pd1 := fun member =>
      (loading.untouched i waits p pd1).mp ⟨member,⟨prepared.known loading.tidy member found1.1,found1.2⟩,off1⟩
    dsimp only
    cases isMapped : pd.mapped with
    | true =>
      have flagged : flag i = true := mapped.symm.trans isMapped
      have here := loading.waiting i waits _ got flagged
      rw [if_pos rfl,if_pos rfl,List.nil_append,if_neg (by decide)]
      have bytes1 : pd1.mapped = true → cache1.bytes pd1 = cache0.bytes pd := by
        intro isNew
        unfold OnDisk at here
        rw [length] at here
        rw [prepared.bytes]
        unfold Cache.bytes Cache.pieceOff
        rw [if_pos isNew,found1.2,off1,len1]
        exact here
      refine ⟨_,_,_,rfl,loading.next recorded short inChunk waits prepared prepared.tidy first (.refl cd0 i cache1)
        ⟨pd1,found1,off1,rfl⟩ ⟨fun kept => ?_,fun lost => ?_⟩⟩
      · rw [got]
        apply congrArg some
        apply bytes1
        by_cases member : p ∈ cache.pieceCache
        · exact (recorded.cached i p pd1 (by rw [got]; rfl) (old1 member)).trans flagged
        · rw [(new1 member).1,loading.frame.canMap]
          by_contra cannot
          rw [Bool.not_eq_true] at cannot
          refine kept ⟨flagged,fun q pd' at_ => ?_,cannot⟩
          -- A piece that was there would have been found.
          have there := (loading.untouched i waits q pd').mpr at_
          have same := prepared.tidy.once q (prepared.still q there.1) p prepared.cached pd' pd1
            ⟨prepared.older q pd' there.2.1.1,there.2.1.2⟩ found1 (there.2.2.trans off1.symm)
          exact member (same ▸ there.1)
      · have member : p ∉ cache.pieceCache := fun member => lost.2.1 p pd1 (old1 member)
        obtain ⟨isNew,buf⟩ := new1 member
        rw [loading.frame.canMap,lost.2.2] at isNew
        rw [loading.frame.fresh] at buf
        refine ⟨cache.pieces.length,?_⟩
        unfold Cache.bytes
        rw [isNew]
        exact buf
    | false =>
      have unflagged : flag i = false := mapped.symm.trans isMapped
      have kept : ¬ Unmapped cd0 flag start i := by
        intro lost
        rw [Unmapped,unflagged] at lost
        cases lost.1
      rw [if_neg Bool.false_ne_true,if_neg Bool.false_ne_true,if_pos rfl]
      have full : (cache0.bytes pd).length = pd1.len := length.trans len1.symm
      have read : readFromFile cache1 p (cache0.bytes pd ++ rest) = some (cache1.fill p pd1 (cache0.bytes pd),rest) := by
        unfold readFromFile
        rw [found1.1]
        dsimp only
        rw [← full,File.read_append]
        dsimp only
        rw [if_pos rfl]
      have inside : pd1.off + (cache0.bytes pd).length ≤ cd0.size := by
        rw [full]
        exact prepared.tidy.fits fits found1
      rw [read]
      exact ⟨_,_,_,rfl,loading.next recorded short inChunk waits prepared (prepared.tidy.fill found1.1 full)
        (first.trans (fill_frame found1 inside)) (fill_fills found1 off1 length)
        (fill_holding prepared.tidy found1 off1 full) ⟨fun _ => got.symm,fun lost => absurd lost kept⟩⟩

theorem loadPieces_spec {cd0 : ChunkDownload σ H} (records : List (Nat × PieceData))
    (loading : Loading cd0 saved flag start target done cd cache) (recorded : Recorded cd0 saved flag start)
    (short : cd0.lastSize ≤ maxPieceLen) (few : cd0.totalPiecesNumber < 4294967296) (fits : cd0.Fits)
    (fresh : (records.map Prod.fst).Nodup) (waits : ∀ e ∈ records, e.1 ∉ done)
    (written : ∀ e ∈ records, e.1 < cd0.totalPiecesNumber ∧ e.2.len = cd0.pieceLen e.1 ∧ e.2.mapped = flag e.1 ∧
      saved e.1 = some (cache0.bytes e.2))
    (rest : List UInt8) :
    ∃ cd' cache' target', loadPieces records.length cd cache (records.flatMap (fun e => savePiece cache0 e.1 e.2) ++ rest) =
        some (cd',cache',rest) ∧ Loading cd0 saved flag start target' (done ++ records.map Prod.fst) cd' cache' := by
  induction records generalizing done cd cache target with
  | nil => exact ⟨cd,cache,target,rfl,by rw [List.map_nil,List.append_nil]; exact loading⟩
  | cons e records ih =>
    obtain ⟨inChunk,len,mapped,got⟩ := written e List.mem_cons_self
    rw [List.flatMap_cons,List.append_assoc]
    obtain ⟨cd1,cache1,target1,read,loading1⟩ := loadPiece_spec loading recorded short few fits (waits e List.mem_cons_self)
      inChunk len mapped got (records.flatMap (fun e => savePiece cache0 e.1 e.2) ++ rest)
    rw [List.map_cons,List.nodup_cons] at fresh
    obtain ⟨cd',cache',target',all,loaded⟩ := ih loading1 fresh.2
      (fun e' member => by
        rw [List.mem_append,List.mem_singleton,not_or]
        exact ⟨waits e' (List.mem_cons_of_mem _ member),fun same => fresh.1 (same ▸ List.mem_map_of_mem member)⟩)
      (fun e' member => written e' (List.mem_cons_of_mem _ member))
    refine ⟨cd',cache',target',?_,by rw [List.map_cons,List.append_cons]; exact loaded⟩
    rw [List.length_cons,loadPieces,read]
    exact all

-- A piece saved as mapped is mapped again, or its buffer is still cached.
def Remapped (cd : ChunkDownload σ H) (cache : Cache) : Prop :=
  ∀ i p (pd : PieceData), cd.pieceData.getD i none = some p → cache.pieces[p]? = some pd → pd.mapped = true →
    p ∈ cache.pieceCache ∨ cache.canMap cd.index (i * maxPieceLen) = true

theorem Sound.pieceAt (sound : Sound sha cd cache stored) (on : cd.pieces.get i = true) :
    ∃ p pd, cd.pieceData.getD i none = some p ∧ Of cd.index cache p pd ∧ cd.pieceAt cache i = some pd ∧
      pd.off = i * maxPieceLen ∧ pd.len = cd.pieceLen i ∧ stored i = some (cache.bytes pd) := by
  obtain ⟨data,p,got,place,pd,found,off,bytes⟩ := sound.held i on
  obtain ⟨j,_,offJ,len⟩ := sound.tidy.aligned p pd found
  have index : j = i := by
    unfold maxPieceLen at *
    omega
  refine ⟨p,pd,place,found,?_,off,by rw [len,index],by rw [got,bytes]⟩
  unfold ChunkDownload.pieceAt
  rw [place]
  exact found.1

theorem Sound.get_of_place (sound : Sound sha cd cache stored) (place : cd.pieceData.getD i none = some p) :
    cd.pieces.get i = true := by
  cases on : cd.pieces.get i with
  | true => rfl
  | false =>
    rw [(sound.missing i on).2] at place
    cases place

theorem Sound.get_lt (sound : Sound sha cd cache stored) (on : cd.pieces.get i = true) : i < cd.totalPiecesNumber := by
  rw [← sound.bits]
  by_contra beyond
  rw [BitSet.get_of_ge _ (by omega)] at on
  cases on

theorem mem_followed (e : Nat × PieceData) :
    e ∈ cd.followed cache ↔ e.1 < cd.pieces.numBits ∧ cd.pieceAt cache e.1 = some e.2 := by
  unfold followed
  rw [List.mem_filterMap]
  constructor
  · rintro ⟨i,member,same⟩
    rw [Option.map_eq_some_iff] at same
    obtain ⟨pd,at_,rfl⟩ := same
    exact ⟨List.mem_range.mp member,at_⟩
  · rintro ⟨bound,at_⟩
    exact ⟨e.1,List.mem_range.mpr bound,by rw [at_]; rfl⟩

theorem followed_nodup : ((cd.followed cache).map Prod.fst).Nodup := by
  unfold followed
  rw [List.map_filterMap]
  refine List.Nodup.filterMap ?_ List.nodup_range
  intro a a' b inA inA'
  simp only [Option.map_map,Option.mem_def,Option.map_eq_some_iff,Function.comp] at inA inA'
  obtain ⟨_,_,rfl⟩ := inA
  obtain ⟨_,_,same⟩ := inA'
  exact same.symm

theorem Sound.followed_iff (sound : Sound sha cd cache stored) :
    i ∈ (cd.followed cache).map Prod.fst ↔ cd.pieces.get i = true := by
  rw [List.mem_map]
  constructor
  · rintro ⟨e,member,rfl⟩
    have at_ := ((mem_followed e).mp member).2
    cases place : cd.pieceData.getD e.1 none with
    | some p => exact sound.get_of_place place
    | none =>
      unfold ChunkDownload.pieceAt at at_
      rw [place] at at_
      cases at_
  · intro on
    obtain ⟨_,pd,_,_,at_,_⟩ := sound.pieceAt on
    exact ⟨(i,pd),(mem_followed (i,pd)).mpr ⟨by rw [sound.bits]; exact sound.get_lt on,at_⟩,rfl⟩

-- A new ChunkDownload of the chunk that has read the bits.
def withBits (sha : Sha1 σ H) (cd : ChunkDownload σ H) : ChunkDownload σ H :=
  {new sha cd.index cd.size with pieces := cd.pieces,downloadedPiecesNumber := cd.pieces.numOn}

theorem loadBits_save (sound : Sound sha cd cache stored) (total : cd.totalPiecesNumber = numPieces cd.size) (rest : List UInt8) :
    (new sha cd.index cd.size).loadBits (cd.pieces.data ++ rest) = (cd.withBits sha,rest) := by
  have fits : (BitSet.new (numPieces cd.size)).numBits = cd.pieces.numBits := by rw [sound.bits,total]; rfl
  have long : (BitSet.new (numPieces cd.size)).data.length = cd.pieces.data.length := by
    rw [(BitSet.new (numPieces cd.size)).sized,cd.pieces.sized,fits]
  have same : cd.pieces.updateNumOnBits = cd.pieces := by
    have counted : cd.pieces.updateNumOnBits.numOn = cd.pieces.count := BitSet.updateNumOnBits_counted sound.clean
    exact BitSet.ext rfl rfl (counted.trans sound.counted.symm)
  have read : File.read (cd.pieces.data ++ rest) (BitSet.new (numPieces cd.size)).data.length = (cd.pieces.data,rest) := by
    rw [long]
    exact File.read_append _ _
  unfold loadBits
  rw [show (new sha cd.index cd.size).totalPiecesNumber = numPieces cd.size from rfl]
  dsimp only
  rw [read]
  dsimp only
  rw [BitSet.readData_self _ _ fits,same]
  rfl

def mappedAt (cd : ChunkDownload σ H) (cache : Cache) (i : Nat) : Bool := (cd.pieceAt cache i).any (·.mapped)

theorem withBits_chunk (sha : Sha1 σ H) (cd : ChunkDownload σ H) :
    SameChunk (cd.withBits sha) (new sha cd.index cd.size) := ⟨rfl,rfl,rfl,rfl⟩

theorem withBits_pieceLen (chunk : SameChunk cd (new sha cd.index cd.size)) (i : Nat) :
    (cd.withBits sha).pieceLen i = cd.pieceLen i := by
  unfold pieceLen
  rw [← chunk.total,← chunk.lastSize]
  rfl

theorem Sound.bytes_of (sound : Sound sha cd cache stored) (got : stored i = some data) :
    cd.pieces.get i = true ∧ (cd.mappedAt cache i = true → OnDisk cd cache i data) ∧ data.length = cd.pieceLen i := by
  have on : cd.pieces.get i = true := by
    rw [← sound.stored_isSome,got]
    rfl
  obtain ⟨p,pd,_,found,piece,off,len,same⟩ := sound.pieceAt on
  rw [got] at same
  have bytes : data = cache.bytes pd := Option.some.inj same
  have length : data.length = pd.len := by rw [bytes,bytes_length (sound.tidy.sized p pd found)]
  refine ⟨on,fun mapped => ?_,length.trans len⟩
  unfold mappedAt at mapped
  rw [piece] at mapped
  unfold OnDisk
  rw [length,bytes]
  unfold Cache.bytes Cache.pieceOff
  rw [if_pos (show pd.mapped = true from mapped),found.2,off]

-- The bytes of the record, as long as the files still have what was mapped.
theorem Sound.recorded {start : Cache} (sound : Sound sha cd cache stored) (chunk : SameChunk cd (new sha cd.index cd.size))
    (chunkSize : start.chunkSize = cache.chunkSize)
    (disk : ∀ x, cd.index * cache.chunkSize ≤ x → x < cd.index * cache.chunkSize + cd.size → start.file x = cache.file x)
    (cached : ∀ i q pd, cd.pieces.get i = true → CachedAt cd start i q pd → pd.mapped = cd.mappedAt cache i) :
    Recorded (cd.withBits sha) stored (cd.mappedAt cache) start where
  sizes i data got := by
    obtain ⟨_,_,len⟩ := sound.bytes_of got
    rw [withBits_pieceLen chunk]
    exact len
  onDisk i data got mapped := by
    obtain ⟨on,bytes,len⟩ := sound.bytes_of got
    have inside := (fits_of_chunk chunk) i (sound.get_lt on)
    have same := bytes mapped
    unfold OnDisk at *
    rw [chunkSize]
    refine (Cache.window_congr fun k less => disk _ ?_ ?_).trans same
    · show cd.index * cache.chunkSize ≤ cd.index * cache.chunkSize + i * maxPieceLen + k
      omega
    · show cd.index * cache.chunkSize + i * maxPieceLen + k < _
      omega
  cached i q pd isStored at_ := by
    rw [sound.stored_isSome] at isStored
    exact cached i q pd isStored at_

theorem Recorded.loading {start : Cache} (recorded : Recorded (cd.withBits sha) stored flag start)
    (tidy : Tidy (cd.withBits sha) start) :
    Loading (cd.withBits sha) stored flag start (fun _ => none) [] (cd.withBits sha) start where
  same := rfl
  places := List.length_replicate
  tidy := tidy
  frame := .refl _ _ start
  ready i member := by cases member
  kept i member := by cases member
  empty i _ := by
    refine ⟨?_,rfl⟩
    show (List.replicate (numPieces cd.size) none).getD i none = none
    rw [List.getD_eq_getElem?_getD,List.getElem?_replicate]
    split <;> rfl
  waiting i _ data got mapped := recorded.onDisk i data got mapped
  untouched _ _ _ _ := Iff.rfl
  right i member := by cases member

theorem Sound.followed_saved (sound : Sound sha cd cache stored) (member : e ∈ cd.followed cache) :
    e.1 < cd.totalPiecesNumber ∧ e.2.len = cd.pieceLen e.1 ∧ e.2.mapped = cd.mappedAt cache e.1 ∧
      stored e.1 = some (cache.bytes e.2) := by
  have on := sound.followed_iff.mp (List.mem_map_of_mem member)
  obtain ⟨p,pd,place,found,piece,off,len,got⟩ := sound.pieceAt on
  have same : pd = e.2 := by
    have at_ := ((mem_followed e).mp member).2
    rw [piece] at at_
    exact Option.some.inj at_
  subst same
  refine ⟨sound.get_lt on,len,?_,got⟩
  unfold mappedAt
  rw [piece]
  rfl

-- Once all records are read, the pieces are back in their buffers and none of
-- them is in the hash yet.
theorem Loading.sound {cd' : ChunkDownload σ H} {cache0 start : Cache} (was : Sound sha cd cache0 stored)
    (chunk : SameChunk cd (new sha cd.index cd.size)) (all : ∀ i, i ∈ done ↔ cd.pieces.get i = true)
    (loading : Loading (cd.withBits sha) stored flag start target done cd' cache) :
    Sound sha {cd' with numPiecesInHash := 0} cache target := by
  obtain ⟨same,places,tidy,_,ready,kept,empty,_,_,_⟩ := loading
  generalize cd'.pieceData = data at *
  subst same
  refine ⟨new_lastSize sha cd.index cd.size,was.bits.trans chunk.total.symm,was.counted,was.clean,rfl,places,?_,?_,?_,?_,?_,?_⟩
  · intro i off
    have absent : i ∉ done := by
      intro member
      have on := (all i).mp member
      rw [show cd.pieces.get i = false from off] at on
      cases on
    exact ⟨(empty i absent).2,(empty i absent).1⟩
  · intro i on
    exact ready i ((all i).mpr on)
  · intro i on q member pd found off
    exact kept i ((all i).mpr on) q pd ⟨member,found,off⟩
  · exact ⟨tidy.writeable,tidy.sized,tidy.aligned,tidy.inside,tidy.once⟩
  · exact ⟨Nat.zero_le _,fun i below => absurd below (Nat.not_lt_zero i)⟩
  · rfl

-- What a load makes of the record of a sound ChunkDownload.
structure Loaded (sha : Sha1 σ H) (cd : ChunkDownload σ H) (cache0 : Cache) (stored : Nat → Option (List UInt8)) (start : Cache)
    (cd' : ChunkDownload σ H) (cache : Cache) (target : Nat → Option (List UInt8)) : Prop where
  sound : Sound sha cd' cache target
  maximal : Maximal cd'
  chunk : SameChunk cd cd'
  pieces : cd'.pieces = cd.pieces
  idle : cd'.pdown = []
  frame : Frame cd.index cd.size start cache
  right : ∀ i, ¬ Unmapped cd (cd.mappedAt cache0) start i → target i = stored i
  lost : ∀ i, Unmapped cd (cd.mappedAt cache0) start i →
    ∃ n, target i = some ((List.range (cd.pieceLen i)).map (start.fresh n))

theorem load_spec {start : Cache} (sound : Sound sha cd cache stored) (chunk : SameChunk cd (new sha cd.index cd.size))
    (short : cd.size < 4294967296) (chunkSize : start.chunkSize = cache.chunkSize)
    (disk : ∀ x, cd.index * cache.chunkSize ≤ x → x < cd.index * cache.chunkSize + cd.size → start.file x = cache.file x)
    (cached : ∀ i q pd, cd.pieces.get i = true → CachedAt cd start i q pd → pd.mapped = cd.mappedAt cache i)
    (tidy : Tidy cd start) (rest : File) :
    ∃ cd' cache' target, (new sha cd.index cd.size).load sha cd.pieces.numBits true start (cd.saveBody cache ++ rest) =
      some (cd',cache',rest) ∧ Loaded sha cd cache stored start cd' cache' target := by
  have total : numPieces cd.size = cd.totalPiecesNumber := chunk.total
  have few : cd.totalPiecesNumber < 4294967296 := by
    rw [← total]
    exact numPieces_lt short
  have bits := sound.bits
  have count : (cd.followed cache).length ≤ cd.totalPiecesNumber := by
    have most := List.length_filterMap_le (fun i => (cd.pieceAt cache i).map fun pd => (i,pd)) (List.range cd.pieces.numBits)
    rw [List.length_range] at most
    exact bits ▸ most
  have same : SameChunk cd (cd.withBits sha) := ⟨rfl,rfl,chunk.total,chunk.lastSize⟩
  have recorded := sound.recorded chunk chunkSize disk cached
  obtain ⟨cd1,cache1,target,read,loading⟩ := loadPieces_spec (cd.followed cache)
    (recorded.loading (tidy.sameChunk same)) recorded (new_lastSize sha cd.index cd.size)
    (show numPieces cd.size < _ by rw [total]; exact few) (fits_of_chunk (withBits_chunk sha cd)) followed_nodup
    (fun e _ member => by cases member)
    (fun e member => by
      obtain ⟨inChunk,len,mapped,got⟩ := sound.followed_saved member
      refine ⟨by rw [← total] at inChunk; exact inChunk,?_,mapped,got⟩
      rw [len,withBits_pieceLen chunk])
    rest
  rw [List.nil_append] at loading
  have ready := loading.sound sound chunk fun i => sound.followed_iff
  have sameLoad := loading.same
  have fits : Fits {cd1 with numPiecesInHash := 0} := by
    have alike : SameChunk {cd1 with numPiecesInHash := 0} (new sha cd.index cd.size) := by
      rw [sameLoad]
      exact ⟨rfl,rfl,rfl,rfl⟩
    exact fits_of_chunk alike
  have frame := updateHash_frame ready fits
  cases hashed : {cd1 with numPiecesInHash := 0}.updateHash sha cache1 with
  | mk cd2 cache2 =>
    rw [hashed] at frame
    obtain ⟨sound2,maximal2,same2⟩ := updateHash_sound ready hashed
    have chunk2 : SameChunk cd cd2 := by
      rw [same2,sameLoad]
      exact ⟨rfl,rfl,chunk.total,chunk.lastSize⟩
    have frame2 : Frame cd.index cd.size cache1 cache2 := by
      rw [sameLoad] at frame
      exact frame
    have last : ∃ providers, (if cd2.downloadedPiecesNumber ≠ 0 then
        {cd2 with pieceProviders := cd2.pieceProviders.insert none} else cd2) = {cd2 with pieceProviders := providers} := by
      split
      · exact ⟨_,rfl⟩
      · exact ⟨cd2.pieceProviders,rfl⟩
    obtain ⟨providers,last⟩ := last
    refine ⟨{cd2 with pieceProviders := providers},cache2,target,?_,?_⟩
    · unfold load
      rw [if_neg (by rw [bits]; exact fun differs => differs total.symm)]
      unfold saveBody
      rw [List.append_assoc,List.append_assoc,loadBits_save sound total.symm]
      dsimp only
      rw [File.readUint32_bytes (by omega)]
      dsimp only
      rw [if_neg (by rw [show (cd.withBits sha).totalPiecesNumber = _ from total]; omega),read]
      dsimp only
      unfold loaded
      rw [if_pos rfl,hashed]
      dsimp only
      rw [last]
    · have unchanged : ∀ i, i ∉ (cd.followed cache).map Prod.fst → target i = none := fun i absent => (loading.empty i absent).2
      have off : ∀ i, i ∉ (cd.followed cache).map Prod.fst → cd.pieces.get i = false := fun i absent => by
        rw [← Bool.not_eq_true]
        exact fun on => absent (sound.followed_iff.mpr on)
      refine ⟨sound2.sameStore ⟨cd2.pdown,cd2.dstatus,cd2.hash,providers,rfl⟩,maximal2,
        ⟨chunk2.index,chunk2.size,chunk2.total,chunk2.lastSize⟩,?_,?_,loading.frame.trans frame2,?_,?_⟩
      · show cd2.pieces = _
        rw [same2,sameLoad]
        rfl
      · show cd2.pdown = _
        rw [same2,sameLoad]
        rfl
      · intro i kept
        by_cases member : i ∈ (cd.followed cache).map Prod.fst
        · exact (loading.right i member).1 kept
        · rw [unchanged i member,(sound.missing i (off i member)).1]
      · intro i lost
        by_cases member : i ∈ (cd.followed cache).map Prod.fst
        · rw [← withBits_pieceLen chunk]
          exact (loading.right i member).2 lost
        · have none := (sound.missing i (off i member)).2
          have mapped := lost.1
          unfold mappedAt ChunkDownload.pieceAt at mapped
          rw [none] at mapped
          cases mapped

theorem reload_spec (sound : Sound sha cd cache stored) (chunk : SameChunk cd (new sha cd.index cd.size))
    (small : cd.index < 4294967296) (short : cd.size < 4294967296) (remapped : Remapped cd cache) :
    ∃ cd' cache', reload sha cd cache = some (cd',cache',[]) ∧ Sound sha cd' cache' stored ∧ Maximal cd' ∧
      SameChunk cd cd' := by
  have few : cd.totalPiecesNumber < 4294967296 := by
    rw [← show numPieces cd.size = cd.totalPiecesNumber from chunk.total]
    exact numPieces_lt short
  obtain ⟨cd',cache',target,read,loaded⟩ := load_spec sound chunk short rfl (fun _ _ _ => rfl)
    (fun i q pd on at_ => by
      have place := sound.kept i on q at_.1 pd at_.2.1 at_.2.2
      unfold mappedAt ChunkDownload.pieceAt
      rw [place]
      dsimp only
      rw [at_.2.1.1]
      rfl)
    sound.tidy []
  have same : target = stored := by
    funext i
    apply loaded.right i
    rintro ⟨mapped,uncached,cannot⟩
    unfold mappedAt ChunkDownload.pieceAt at mapped
    cases place : cd.pieceData.getD i none with
    | none =>
      rw [place] at mapped
      cases mapped
    | some p =>
      obtain ⟨q,pd,place',found,_,off,_⟩ := sound.pieceAt (sound.get_of_place place)
      rw [place] at place'
      cases place'
      rw [place] at mapped
      dsimp only at mapped
      rw [found.1] at mapped
      rcases remapped i p pd place found.1 mapped with member | can
      · exact uncached p pd ⟨member,found,off⟩
      · rw [can] at cannot
        cases cannot
  rw [same] at loaded
  refine ⟨cd',cache',?_,loaded.sound,loaded.maximal,loaded.chunk⟩
  unfold reload
  rw [readHeader_save small (by rw [sound.bits]; exact few)]
  dsimp only
  rw [List.append_nil] at read
  exact read

end

end ChunkDownload

end KtorrentStream.Download
