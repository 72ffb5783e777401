import KtorrentStream.Lib.Along
import KtorrentStream.Download.ChunkDownload
set_option autoImplicit true

namespace KtorrentStream.Download
open KtorrentStream.Lib KtorrentStream.Util KtorrentStream.Diskio

namespace ChunkDownload

-- Requests, cancels and releases touch nothing of the pieces.
def SameStore (cd cd' : ChunkDownload σ H) : Prop :=
  ∃ pdown dstatus hash pieceProviders,
    cd' = {cd with pdown := pdown,dstatus := dstatus,hash := hash,pieceProviders := pieceProviders}

theorem SameStore.refl (cd : ChunkDownload σ H) : SameStore cd cd := ⟨cd.pdown,cd.dstatus,cd.hash,cd.pieceProviders,rfl⟩

theorem SameStore.trans (ab : SameStore a b) (bc : SameStore b c) : SameStore a c := by
  obtain ⟨_,_,_,_,rfl⟩ := ab
  obtain ⟨pdown,dstatus,hash,pieceProviders,rfl⟩ := bc
  exact ⟨pdown,dstatus,hash,pieceProviders,rfl⟩

theorem sendRequest_store (sent : sendRequest cd peers now pd = some (cd',peers')) : SameStore cd cd' := by
  unfold sendRequest at sent
  split at sent
  · cases sent
  · split at sent
    · cases sent
    · cases sent
      exact ⟨cd.pdown,_,cd.hash,cd.pieceProviders,rfl⟩

theorem sendPass_store (tmp : List Nat) (cd : ChunkDownload σ H) (peers : Peers) :
    SameStore cd (sendPass now tmp cd peers).2.1 := by
  induction tmp generalizing cd peers with
  | nil => exact .refl cd
  | cons pd rest ih =>
    unfold sendPass
    split
    · split
      · rename_i cd' peers' sent
        exact (sendRequest_store sent).trans (ih cd' peers')
      · exact ih cd peers
    · exact ih cd peers

theorem sendLoop_store (fuel : Nat) (tmp : List Nat) (cd : ChunkDownload σ H) (peers : Peers) :
    SameStore cd (sendLoop now fuel tmp cd peers).1 := by
  induction fuel generalizing tmp cd peers with
  | zero => exact .refl cd
  | succ fuel ih =>
    unfold sendLoop
    split
    · exact (sendPass_store tmp cd peers).trans (ih _ _ _)
    · exact .refl cd

theorem sendRequests_store (cd : ChunkDownload σ H) (peers : Peers) (now : Nat) : SameStore cd (cd.sendRequests peers now).1 :=
  sendLoop_store _ _ _ _

theorem sendCancels_store (cd : ChunkDownload σ H) : SameStore cd (cd.sendCancels peers pd).1 := by
  unfold sendCancels
  split
  · exact .refl cd
  · exact ⟨cd.pdown,_,cd.hash,cd.pieceProviders,rfl⟩

theorem endgameCancel_store (cd : ChunkDownload σ H) : SameStore cd (cd.endgameCancel peers p).1 := by
  unfold endgameCancel
  apply foldl_related (R := fun s s' : ChunkDownload σ H × Peers => SameStore s.1 s'.1) (fun s => .refl s.1) SameStore.trans
  intro s pd _
  split
  · exact ⟨_,_,_,_,rfl⟩
  · exact .refl s.1

theorem assign_store (cd : ChunkDownload σ H) : SameStore cd (cd.assign peers now pd).2.1 := by
  unfold assign
  split
  · exact .refl cd
  · exact SameStore.trans ⟨_,_,_,_,rfl⟩ (sendRequests_store _ _ _)

theorem release_store (cd : ChunkDownload σ H) : SameStore cd (cd.release peers pd).1 := by
  unfold release
  split
  · exact .refl cd
  · exact (sendCancels_store cd).trans ⟨_,_,_,_,rfl⟩

theorem notDownloaded_store (cd : ChunkDownload σ H) : SameStore cd (cd.notDownloaded peers now r reject).1 := by
  unfold notDownloaded
  split
  · exact sendRequests_store cd _ _
  · split
    · exact sendRequests_store cd _ _
    · split
      · exact SameStore.trans ⟨_,_,_,_,rfl⟩ ((release_store _).trans (sendRequests_store _ _ _))
      · dsimp only
        split
        · exact SameStore.trans ⟨_,_,_,_,rfl⟩ ((release_store _).trans (sendRequests_store _ _ _))
        · exact SameStore.trans ⟨_,_,_,_,rfl⟩ (sendRequests_store _ _ _)

theorem onRejected_store (cd : ChunkDownload σ H) : SameStore cd (cd.onRejected peers now r).1 := by
  unfold onRejected
  split
  · exact notDownloaded_store cd
  · exact .refl cd

theorem onTimeout_store (cd : ChunkDownload σ H) : SameStore cd (cd.onTimeout peers now r).1 := by
  unfold onTimeout
  split
  · exact notDownloaded_store cd
  · exact .refl cd

theorem prefixEnd_spec (pieces : BitSet) (enough : total ≤ nn + fuel) (short : nn ≤ total) :
    nn ≤ prefixEnd pieces total fuel nn ∧ prefixEnd pieces total fuel nn ≤ total ∧
      (∀ i, nn ≤ i → i < prefixEnd pieces total fuel nn → pieces.get i = true) ∧
      (prefixEnd pieces total fuel nn < total → pieces.get (prefixEnd pieces total fuel nn) = false) := by
  induction fuel generalizing nn with
  | zero =>
    refine ⟨Nat.le_refl nn,short,fun i lower upper => ?_,fun more => ?_⟩
    · have : i < nn := upper
      omega
    · have : nn < total := more
      omega
  | succ fuel ih =>
    unfold prefixEnd
    split
    · rename_i more
      rw [Bool.and_eq_true,decide_eq_true_eq] at more
      obtain ⟨low,high,all,stop⟩ := @ih (nn + 1) (by omega) (by omega)
      refine ⟨by omega,high,fun i lower upper => ?_,stop⟩
      by_cases first : i = nn
      · rw [first,more.2]
      · exact all i (by omega) upper
    · rename_i stop
      rw [Bool.and_eq_true,decide_eq_true_eq,not_and,Bool.not_eq_true] at stop
      exact ⟨Nat.le_refl nn,short,fun i lower upper => by omega,stop⟩

def Of (chunk : Nat) (cache : Cache) (p : Nat) (pd : PieceData) : Prop := cache.pieces[p]? = some pd ∧ pd.chunk = chunk

-- The buffer p holds piece i of the chunk with these bytes.
def Holding (chunk : Nat) (cache : Cache) (i p : Nat) (data : List UInt8) : Prop :=
  ∃ pd, Of chunk cache p pd ∧ pd.off = i * maxPieceLen ∧ cache.bytes pd = data

-- Every piece of this chunk in memory is a writeable piece of its own, and
-- piece_cache lists none twice. Other chunks have their pieces there too.
structure Tidy (cd : ChunkDownload σ H) (cache : Cache) : Prop where
  writeable : ∀ (p : Nat) (pd : PieceData), Of cd.index cache p pd → pd.readOnly = false
  sized : ∀ (p : Nat) (pd : PieceData), Of cd.index cache p pd → pd.buf.length = pd.len
  aligned : ∀ (p : Nat) (pd : PieceData), Of cd.index cache p pd →
    ∃ i < cd.totalPiecesNumber, pd.off = i * maxPieceLen ∧ pd.len = cd.pieceLen i
  inside : ∀ p ∈ cache.pieceCache, p < cache.pieces.length
  once : ∀ p ∈ cache.pieceCache, ∀ q ∈ cache.pieceCache, ∀ pd pd' : PieceData, Of cd.index cache p pd →
    Of cd.index cache q pd' → pd.off = pd'.off → p = q

def Held (cd : ChunkDownload σ H) (cache : Cache) (stored : Nat → Option (List UInt8)) : Prop :=
  ∀ i, cd.pieces.get i = true →
    ∃ data p, stored i = some data ∧ cd.pieceData.getD i none = some p ∧ Holding cd.index cache i p data

def hashOf (sha : Sha1 σ H) (stored : Nat → Option (List UInt8)) (n : Nat) : σ :=
  (List.range n).foldl (fun state i => sha.update state ((stored i).getD [])) sha.clear

section
variable {cd cd' : ChunkDownload σ H} {cache cache' : Cache} {stored : Nat → Option (List UInt8)} {sha : Sha1 σ H}
  {p q i j : Nat} {data : List UInt8}

theorem pieceLen_le (short : cd.lastSize ≤ maxPieceLen) (i : Nat) : cd.pieceLen i ≤ maxPieceLen := by
  unfold pieceLen
  split
  · exact short
  · exact Nat.le_refl _

theorem bytes_length {pd : PieceData} (sized : pd.buf.length = pd.len) : (cache.bytes pd).length = pd.len := by
  unfold Cache.bytes
  split
  · simp [window]
  · exact sized

theorem Tidy.apart {pd pd' : PieceData} (tidy : Tidy cd cache) (short : cd.lastSize ≤ maxPieceLen)
    (found : Of cd.index cache p pd) (found' : Of cd.index cache q pd')
    (here : pd.off = i * maxPieceLen) (there : pd'.off = j * maxPieceLen) (other : i ≠ j) :
    cache.pieceOff pd' + pd'.len ≤ cache.pieceOff pd ∨ cache.pieceOff pd + pd.len ≤ cache.pieceOff pd' := by
  obtain ⟨a,_,offA,lenA⟩ := tidy.aligned p pd found
  obtain ⟨b,_,offB,lenB⟩ := tidy.aligned q pd' found'
  have smallA := pieceLen_le short a
  have smallB := pieceLen_le short b
  unfold Cache.pieceOff
  rw [found.2,found'.2,here,there]
  unfold maxPieceLen at *
  omega

theorem savePiece_holding {pd : PieceData} (tidy : Tidy cd cache) (short : cd.lastSize ≤ maxPieceLen)
    (found : Of cd.index cache p pd) (here : pd.off = i * maxPieceLen)
    (same : j = i → q = p) (holding : Holding cd.index cache j q data) : Holding cd.index (cache.savePiece p) j q data := by
  obtain ⟨pd',found',there,bytes⟩ := holding
  unfold Cache.savePiece
  rw [found.1]
  dsimp only
  split
  · exact ⟨pd',found',there,bytes⟩
  · rename_i unmapped
    refine ⟨pd',found',there,?_⟩
    rw [← bytes]
    unfold Cache.bytes
    split
    · rename_i mapped
      have other : i ≠ j := fun e => by
        have now := found'.1
        rw [same e.symm,found.1] at now
        cases now
        exact unmapped mapped
      exact Cache.window_poke_of_disjoint _ _
        (by rw [tidy.sized p pd found]; exact tidy.apart short found found' here there other)
    · rfl

theorem savePiece_pieces (cache : Cache) (p : Nat) :
    (cache.savePiece p).pieces = cache.pieces ∧ (cache.savePiece p).pieceCache = cache.pieceCache := by
  unfold Cache.savePiece
  split
  · exact ⟨rfl,rfl⟩
  · split <;> exact ⟨rfl,rfl⟩

theorem Tidy.of_pieces (tidy : Tidy cd cache) (pieces : cache'.pieces = cache.pieces)
    (pieceCache : cache'.pieceCache = cache.pieceCache) : Tidy cd cache' := by
  have same : ∀ (p : Nat) (pd : PieceData), Of cd.index cache' p pd ↔ Of cd.index cache p pd := by
    intro p pd
    rw [Of,Of,pieces]
  refine ⟨fun p pd found => tidy.writeable p pd ((same p pd).mp found),fun p pd found => tidy.sized p pd ((same p pd).mp found),
    fun p pd found => tidy.aligned p pd ((same p pd).mp found),?_,?_⟩
  · rw [pieces,pieceCache]
    exact tidy.inside
  · rw [pieceCache]
    exact fun p member q member' pd pd' found found' =>
      tidy.once p member q member' pd pd' ((same p pd).mp found) ((same q pd').mp found')

theorem hashPiece_held (held : Held cd cache stored) (on : cd.pieces.get i = true) (sha : Sha1 σ H) (state : σ) :
    ∃ p pd, Of cd.index cache p pd ∧ pd.off = i * maxPieceLen ∧ cd.pieceData.getD i none = some p ∧
      cd.hashPiece sha (state,cache) i = (sha.update state ((stored i).getD []),cache.savePiece p) := by
  obtain ⟨data,p,got,place,pd,found,here,bytes⟩ := held i on
  refine ⟨p,pd,found,here,place,?_⟩
  unfold hashPiece
  rw [place]
  dsimp only
  rw [found.1]
  dsimp only
  rw [bytes,got]
  rfl

theorem Held.savePiece {pd : PieceData} (held : Held cd cache stored) (tidy : Tidy cd cache) (short : cd.lastSize ≤ maxPieceLen)
    (found : Of cd.index cache p pd) (here : pd.off = i * maxPieceLen) (place : cd.pieceData.getD i none = some p) :
    Held cd (cache.savePiece p) stored := by
  intro j on
  obtain ⟨data,q,got,place',holding⟩ := held j on
  refine ⟨data,q,got,place',savePiece_holding tidy short found here (fun e => ?_) holding⟩
  rw [e,place] at place'
  exact (Option.some.inj place').symm

-- Hashing a run of downloaded pieces feeds their bytes in order, and leaves
-- every piece in its buffer.
theorem hashPieces_spec (short : cd.lastSize ≤ maxPieceLen) (l : List Nat) (downloaded : ∀ i ∈ l, cd.pieces.get i = true)
    (held : Held cd cache stored) (tidy : Tidy cd cache) (sha : Sha1 σ H) (state : σ) :
    ∃ cache', l.foldl (cd.hashPiece sha) (state,cache) =
        (l.foldl (fun state i => sha.update state ((stored i).getD [])) state,cache') ∧
      Held cd cache' stored ∧ cache'.pieces = cache.pieces ∧ cache'.pieceCache = cache.pieceCache := by
  induction l generalizing state cache with
  | nil => exact ⟨cache,rfl,held,rfl,rfl⟩
  | cons i rest ih =>
    obtain ⟨p,pd,found,here,place,step⟩ := hashPiece_held held (downloaded i List.mem_cons_self) sha state
    have still := held.savePiece tidy short found here place
    obtain ⟨pieces,pieceCache⟩ := savePiece_pieces cache p
    obtain ⟨cache',result,held',pieces',pieceCache'⟩ :=
      ih (fun j member => downloaded j (List.mem_cons_of_mem _ member)) still (tidy.of_pieces pieces pieceCache)
        (sha.update state ((stored i).getD []))
    refine ⟨cache',?_,held',pieces'.trans pieces,pieceCache'.trans pieceCache⟩
    rw [List.foldl_cons,List.foldl_cons,step]
    exact result

theorem insertPiece_found (cache : Cache) (pd : PieceData) :
    (cache.insertPiece pd).pieces[cache.pieces.length]? = some pd := List.getElem?_concat_length

theorem insertPiece_older {pd pd' : PieceData} (found : cache.pieces[q]? = some pd) :
    (cache.insertPiece pd').pieces[q]? = some pd :=
  (List.getElem?_append_left (List.getElem?_eq_some_iff.mp found).1).trans found

theorem insertPiece_either {pd pd' : PieceData} (found : (cache.insertPiece pd').pieces[q]? = some pd) :
    cache.pieces[q]? = some pd ∨ q = cache.pieces.length ∧ pd = pd' := by
  by_cases old : q < cache.pieces.length
  · exact .inl ((List.getElem?_append_left old).symm.trans found)
  · have bound : q < cache.pieces.length + 1 := by
      simpa [Cache.insertPiece] using (List.getElem?_eq_some_iff.mp found).1
    have here : q = cache.pieces.length := by omega
    rw [here,insertPiece_found] at found
    exact .inr ⟨here,(Option.some.inj found).symm⟩

theorem of_insertPiece {pd new : PieceData} (found : Of chunk (cache.insertPiece new) q pd) :
    Of chunk cache q pd ∨ q = cache.pieces.length ∧ pd = new :=
  (insertPiece_either found.1).imp_left fun old => ⟨old,found.2⟩

theorem Tidy.insertPiece {new : PieceData} (tidy : Tidy cd cache) (writeable : new.readOnly = false)
    (sized : new.buf.length = new.len)
    (aligned : ∃ i < cd.totalPiecesNumber, new.off = i * maxPieceLen ∧ new.len = cd.pieceLen i)
    (elsewhere : ∀ q ∈ cache.pieceCache, ∀ pd : PieceData, Of cd.index cache q pd → pd.off ≠ new.off) :
    Tidy cd (cache.insertPiece new) where
  writeable q pd found := by
    rcases of_insertPiece found with old | ⟨_,rfl⟩
    · exact tidy.writeable q pd old
    · exact writeable
  sized q pd found := by
    rcases of_insertPiece found with old | ⟨_,rfl⟩
    · exact tidy.sized q pd old
    · exact sized
  aligned q pd found := by
    rcases of_insertPiece found with old | ⟨_,rfl⟩
    · exact tidy.aligned q pd old
    · exact aligned
  inside q member := by
    show q < (cache.pieces ++ [_]).length
    rw [List.length_append,List.length_singleton]
    rcases List.mem_cons.mp member with rfl | old
    · omega
    · have := tidy.inside q old
      omega
  once q member r member' pd pd' found found' same := by
    have known : ∀ q ∈ cache.pieceCache, ∀ pd : PieceData, Of cd.index (cache.insertPiece new) q pd → Of cd.index cache q pd :=
      fun q old pd found => ⟨(List.getElem?_append_left (tidy.inside q old)).symm.trans found.1,found.2⟩
    rcases List.mem_cons.mp member with rfl | old
    · rcases List.mem_cons.mp member' with rfl | old'
      · rfl
      · have now := found.1
        rw [insertPiece_found] at now
        cases now
        exact absurd same.symm (elsewhere r old' pd' (known r old' pd' found'))
    · rcases List.mem_cons.mp member' with rfl | old'
      · have now := found'.1
        rw [insertPiece_found] at now
        cases now
        exact absurd same (elsewhere q old pd (known q old pd found))
      · exact tidy.once q old r old' pd pd' (known q old pd found) (known r old' pd' found') same

-- preparePiece gives the writeable piece there is, or a new one.
structure Prepared (cd : ChunkDownload σ H) (cache : Cache) (i p : Nat) (cache' : Cache) : Prop where
  tidy : Tidy cd cache'
  cached : p ∈ cache'.pieceCache
  found : ∃ pd, Of cd.index cache' p pd ∧ pd.off = i * maxPieceLen ∧ pd.len = cd.pieceLen i ∧
    (p ∉ cache.pieceCache → pd.mapped = cache.canMap cd.index (i * maxPieceLen) ∧
      pd.buf = (List.range (cd.pieceLen i)).map (cache.fresh cache.pieces.length))
  older : ∀ (q : Nat) (pd : PieceData), cache.pieces[q]? = some pd → cache'.pieces[q]? = some pd
  newer : ∀ q ∈ cache'.pieceCache, q = p ∨ q ∈ cache.pieceCache
  still : ∀ q ∈ cache.pieceCache, q ∈ cache'.pieceCache
  file : cache'.file = cache.file
  chunkSize : cache'.chunkSize = cache.chunkSize
  canMap : cache'.canMap = cache.canMap

theorem preparePiece_spec (tidy : Tidy cd cache) (inChunk : i < cd.totalPiecesNumber)
    (prepared : cache.preparePiece cd.index (i * maxPieceLen) (cd.pieceLen i) = (p,cache')) :
    Prepared cd cache i p cache' := by
  unfold Cache.preparePiece at prepared
  split at prepared
  · rename_i q found
    cases prepared
    have member := List.mem_of_find?_eq_some found
    have suits := List.find?_some found
    unfold Cache.suits at suits
    split at suits
    · cases suits
    · rename_i pd there
      simp only [Bool.and_eq_true,beq_iff_eq] at suits
      exact ⟨tidy,member,⟨pd,⟨there,suits.1.1.1⟩,suits.1.1.2,suits.1.2,fun absent => absurd member absent⟩,fun _ _ old => old,
        fun _ old => .inr old,fun _ old => old,rfl,rfl,rfl⟩
  · rename_i missing
    cases prepared
    refine ⟨?_,List.mem_cons_self,⟨_,⟨insertPiece_found _ _,rfl⟩,rfl,rfl,fun _ => ⟨rfl,rfl⟩⟩,fun _ _ => insertPiece_older,
      fun _ member => List.mem_cons.mp member,fun _ old => List.mem_cons_of_mem _ old,rfl,rfl,rfl⟩
    refine tidy.insertPiece rfl (by simp [Cache.newPiece]) ⟨i,inChunk,rfl,rfl⟩ ?_
    -- The search would have found a cached piece of this place.
    intro q member pd there same
    obtain ⟨j,_,off,len⟩ := tidy.aligned q pd there
    have here : pd.off = i * maxPieceLen := same
    have index : j = i := by
      unfold maxPieceLen at *
      omega
    have unsuitable := List.find?_eq_none.mp missing q member
    apply unsuitable
    unfold Cache.suits
    rw [there.1]
    simp [there.2,here,len,index,tidy.writeable q pd there]

theorem Prepared.known {pd : PieceData} (prepared : Prepared cd cache i p cache') (tidy : Tidy cd cache)
    (earlier : q ∈ cache.pieceCache) (found : cache'.pieces[q]? = some pd) : cache.pieces[q]? = some pd := by
  have inside := tidy.inside q earlier
  have present := prepared.older q _ (List.getElem?_eq_getElem inside)
  rw [found] at present
  rw [List.getElem?_eq_getElem inside,present]

theorem Prepared.bytes (prepared : Prepared cd cache i p cache') (pd : PieceData) : cache'.bytes pd = cache.bytes pd := by
  unfold Cache.bytes Cache.pieceOff
  rw [prepared.file,prepared.chunkSize]

theorem fill_alike {pd pd' : PieceData} (found : cache.pieces[p]? = some pd) (full : data.length = pd.len)
    (after : (cache.fill p pd data).pieces[q]? = some pd') : ∃ old, cache.pieces[q]? = some old ∧ Cache.Alike old pd' := by
  by_cases same : q = p
  · obtain ⟨new,here,alike,_⟩ := Cache.fill_self found full
    rw [same,here] at after
    cases after
    exact ⟨pd,by rw [same]; exact found,alike⟩
  · rw [Cache.fill_other same] at after
    exact ⟨pd',after,.refl pd'⟩

theorem of_fill {pd pd' : PieceData} (found : cache.pieces[p]? = some pd) (full : data.length = pd.len)
    (after : Of chunk (cache.fill p pd data) q pd') : ∃ old, Of chunk cache q old ∧ Cache.Alike old pd' := by
  obtain ⟨old,there,alike⟩ := fill_alike found full after.1
  exact ⟨old,⟨there,alike.chunk.symm.trans after.2⟩,alike⟩

theorem fill_pieceCache (cache : Cache) (p : Nat) (pd : PieceData) (data : List UInt8) :
    (cache.fill p pd data).pieceCache = cache.pieceCache ∧ (cache.fill p pd data).canMap = cache.canMap ∧
      (cache.fill p pd data).chunkSize = cache.chunkSize := by
  unfold Cache.fill
  split <;> exact ⟨rfl,rfl,rfl⟩

theorem Tidy.fill {pd : PieceData} (tidy : Tidy cd cache) (found : cache.pieces[p]? = some pd)
    (full : data.length = pd.len) : Tidy cd (cache.fill p pd data) where
  writeable q pd' after := by
    obtain ⟨old,there,alike⟩ := of_fill found full after
    exact alike.readOnly.trans (tidy.writeable q old there)
  sized q pd' after := by
    obtain ⟨old,there,alike⟩ := of_fill found full after
    exact (alike.buf (tidy.sized q old there)).trans alike.len.symm
  aligned q pd' after := by
    obtain ⟨old,there,alike⟩ := of_fill found full after
    rw [alike.off,alike.len]
    exact tidy.aligned q old there
  inside q member := by
    rw [(fill_pieceCache cache p pd data).1] at member
    have long : (cache.fill p pd data).pieces.length = cache.pieces.length := by
      unfold Cache.fill
      split
      · rfl
      · exact List.length_set
    rw [long]
    exact tidy.inside q member
  once q member r member' pdQ pdR after after' same := by
    rw [(fill_pieceCache cache p pd data).1] at member member'
    obtain ⟨oldQ,thereQ,alikeQ⟩ := of_fill found full after
    obtain ⟨oldR,thereR,alikeR⟩ := of_fill found full after'
    exact tidy.once q member r member' oldQ oldR thereQ thereR (by rw [← alikeQ.off,← alikeR.off,same])

theorem fill_holding {pd : PieceData} (tidy : Tidy cd cache) (found : Of cd.index cache p pd)
    (here : pd.off = i * maxPieceLen) (full : data.length = pd.len) : Holding cd.index (cache.fill p pd data) i p data := by
  obtain ⟨new,there,alike,bytes⟩ := Cache.fill_self found.1 full
  exact ⟨new,⟨there,alike.chunk.trans found.2⟩,alike.off.trans here,bytes (tidy.sized p pd found)⟩

theorem fill_holding_other {pd : PieceData} (tidy : Tidy cd cache) (short : cd.lastSize ≤ maxPieceLen)
    (found : Of cd.index cache p pd) (here : pd.off = i * maxPieceLen) (full : data.length = pd.len)
    (other : i ≠ j) (holding : Holding cd.index cache j q old) : Holding cd.index (cache.fill p pd data) j q old := by
  obtain ⟨pd',found',there,bytes⟩ := holding
  have different : q ≠ p := fun e => by
    have now := found'.1
    rw [e,found.1] at now
    cases now
    unfold maxPieceLen at *
    omega
  refine ⟨pd',⟨by rw [Cache.fill_other different]; exact found'.1,found'.2⟩,there,?_⟩
  rw [Cache.fill_bytes_other (by rw [full]; exact tidy.apart short found found' here there other)]
  exact bytes

-- The pieces marked as downloaded are the stored ones, each in its buffer,
-- and the hash has taken the first of them in order.
structure Sound (sha : Sha1 σ H) (cd : ChunkDownload σ H) (cache : Cache) (stored : Nat → Option (List UInt8)) : Prop where
  lastSize : cd.lastSize ≤ maxPieceLen
  bits : cd.pieces.numBits = cd.totalPiecesNumber
  counted : cd.pieces.Counted
  clean : cd.pieces.Clean
  downloaded : cd.downloadedPiecesNumber = cd.pieces.numOn
  places : cd.pieceData.length = cd.totalPiecesNumber
  missing : ∀ i, cd.pieces.get i = false → stored i = none ∧ cd.pieceData.getD i none = none
  held : Held cd cache stored
  kept : ∀ i, cd.pieces.get i = true → ∀ q ∈ cache.pieceCache, ∀ pd : PieceData, Of cd.index cache q pd →
    pd.off = i * maxPieceLen → cd.pieceData.getD i none = some q
  tidy : Tidy cd cache
  begun : cd.numPiecesInHash ≤ cd.totalPiecesNumber ∧ ∀ i < cd.numPiecesInHash, cd.pieces.get i = true
  hashed : cd.hashState = hashOf sha stored cd.numPiecesInHash

def Maximal (cd : ChunkDownload σ H) : Prop :=
  cd.numPiecesInHash < cd.totalPiecesNumber → cd.pieces.get cd.numPiecesInHash = false

theorem Sound.sameStore (sound : Sound sha cd cache stored) (same : SameStore cd cd') :
    Sound sha cd' cache stored := by
  obtain ⟨_,_,_,_,rfl⟩ := same
  obtain ⟨lastSize,bits,counted,clean,downloaded,places,missing,held,kept,tidy,begun,hashed⟩ := sound
  obtain ⟨writeable,sized,aligned,inside,once⟩ := tidy
  exact ⟨lastSize,bits,counted,clean,downloaded,places,missing,held,kept,
    ⟨writeable,sized,aligned,inside,once⟩,begun,hashed⟩

theorem hashOf_range (sha : Sha1 σ H) (stored : Nat → Option (List UInt8)) (less : n ≤ m) :
    (List.range' n (m - n)).foldl (fun state i => sha.update state ((stored i).getD [])) (hashOf sha stored n) =
      hashOf sha stored m := by
  have split : List.range m = List.range n ++ List.range' n (m - n) := by
    have joined := @List.range'_append_1 0 n (m - n)
    rw [Nat.zero_add,Nat.add_sub_cancel' less] at joined
    rw [List.range_eq_range',List.range_eq_range',joined]
  rw [hashOf,hashOf,split,List.foldl_append]

theorem updateHash_sound (sound : Sound sha cd cache stored) (updated : cd.updateHash sha cache = (cd',cache')) :
    Sound sha cd' cache' stored ∧ Maximal cd' ∧
      cd' = {cd with hashState := cd'.hashState,numPiecesInHash := cd'.numPiecesInHash} := by
  obtain ⟨low,high,all,stop⟩ := prefixEnd_spec cd.pieces
    (show cd.totalPiecesNumber ≤ cd.numPiecesInHash + (cd.totalPiecesNumber - cd.numPiecesInHash) by omega) sound.begun.1
  unfold updateHash at updated
  generalize prefixEnd cd.pieces cd.totalPiecesNumber (cd.totalPiecesNumber - cd.numPiecesInHash) cd.numPiecesInHash = nn
    at low high all stop updated
  have run : ∀ i ∈ List.range' cd.numPiecesInHash (nn - cd.numPiecesInHash), cd.pieces.get i = true := by
    intro i member
    rw [List.mem_range'_1] at member
    exact all i member.1 (by omega)
  obtain ⟨cache2,result,held,pieces,pieceCache⟩ :=
    hashPieces_spec sound.lastSize _ run sound.held sound.tidy sha cd.hashState
  dsimp only at updated
  rw [result] at updated
  cases updated
  have tidy := sound.tidy.of_pieces pieces pieceCache
  refine ⟨?_,stop,rfl⟩
  refine ⟨sound.lastSize,sound.bits,sound.counted,sound.clean,sound.downloaded,sound.places,sound.missing,held,?_,?_,?_,?_⟩
  · intro i on q member pd there
    rw [pieceCache] at member
    have there : Of cd.index cache q pd := ⟨pieces ▸ there.1,there.2⟩
    exact sound.kept i on q member pd there
  · exact ⟨tidy.writeable,tidy.sized,tidy.aligned,tidy.inside,tidy.once⟩
  · refine ⟨high,fun i below => ?_⟩
    by_cases old : i < cd.numPiecesInHash
    · exact sound.begun.2 i old
    · exact all i (by omega) below
  · show List.foldl _ cd.hashState _ = _
    rw [sound.hashed]
    exact hashOf_range sha stored low

theorem markDownloaded_sound {pd : PieceData} (sound : Sound sha cd cache stored) (piece : Piece)
    (accepted : cd.accepts piece = true) (prepared : Prepared cd cache (piece.off / maxPieceLen) p cache')
    (found : Of cd.index cache' p pd) (here : pd.off = piece.off / maxPieceLen * maxPieceLen)
    (full : piece.data.length = pd.len) (log : List (Nat × Nat × List UInt8)) :
    Sound sha (cd.markDownloaded piece p) {cache'.fill p pd piece.data with written := log}
      (Function.update stored (piece.off / maxPieceLen) (some piece.data)) := by
  unfold accepts at accepted
  simp only [Bool.not_eq_true',Bool.or_eq_false_iff,decide_eq_false_iff_not,ge_iff_le,Nat.not_le] at accepted
  obtain ⟨⟨inChunk,wasMissing⟩,_⟩ := accepted
  have bound : piece.off / maxPieceLen < cd.pieces.numBits := by rw [sound.bits]; exact inChunk
  have tidy := prepared.tidy.fill found.1 full
  have marked : ∀ i, (cd.pieces.set (piece.off / maxPieceLen) true).get i =
      if piece.off / maxPieceLen = i then true else cd.pieces.get i := fun i => by
    rw [BitSet.set_get]
    by_cases same : piece.off / maxPieceLen = i
    · rw [if_pos ⟨same,bound⟩,if_pos same]
    · rw [if_neg fun e => same e.1,if_neg same]
  have placed : ∀ i, (cd.pieceData.set (piece.off / maxPieceLen) (some p)).getD i none =
      if piece.off / maxPieceLen = i then some p else cd.pieceData.getD i none := fun i => by
    rw [List.getD_eq_getElem?_getD,List.getD_eq_getElem?_getD,List.getElem?_set,sound.places]
    by_cases same : piece.off / maxPieceLen = i
    · rw [if_pos same,if_pos inChunk,if_pos same]
      rfl
    · rw [if_neg same,if_neg same]
  have oldHolds : Held cd cache' stored := by
    intro i on
    obtain ⟨data,q,got,place,pd',there,off,bytes⟩ := sound.held i on
    exact ⟨data,q,got,place,pd',⟨prepared.older q pd' there.1,there.2⟩,off,(prepared.bytes pd').trans bytes⟩
  refine ⟨sound.lastSize,?_,BitSet.set_counted sound.counted _ _,BitSet.set_clean sound.clean _ _,?_,?_,?_,?_,?_,?_,?_,?_⟩
  · exact (BitSet.set_numBits _ _ _).trans sound.bits
  · show cd.downloadedPiecesNumber + 1 = (cd.pieces.set _ true).numOn
    rw [sound.downloaded]
    simp [BitSet.set,BitSet.withByte,wasMissing,show ¬ piece.off / maxPieceLen ≥ cd.pieces.numBits by omega]
  · exact List.length_set.trans sound.places
  · intro i off
    have unmarked := (marked i).symm.trans off
    by_cases same : piece.off / maxPieceLen = i
    · rw [if_pos same] at unmarked
      cases unmarked
    · rw [if_neg same] at unmarked
      refine ⟨?_,(placed i).trans ?_⟩
      · rw [Function.update_of_ne (Ne.symm same)]
        exact (sound.missing i unmarked).1
      · rw [if_neg same]
        exact (sound.missing i unmarked).2
  · intro i on
    have isMarked := (marked i).symm.trans on
    by_cases same : piece.off / maxPieceLen = i
    · refine ⟨piece.data,p,by rw [same,Function.update_self],(placed i).trans (if_pos same),?_⟩
      rw [← same]
      have filled := fill_holding prepared.tidy found here full
      exact filled
    · rw [if_neg same] at isMarked
      obtain ⟨data,q,got,place,holding⟩ := oldHolds i isMarked
      refine ⟨data,q,by rw [Function.update_of_ne (Ne.symm same)]; exact got,((placed i).trans (if_neg same)).trans place,?_⟩
      have still := fill_holding_other prepared.tidy sound.lastSize found here full same holding
      exact still
  · intro i on q member pd' there off
    have isMarked := (marked i).symm.trans on
    refine (placed i).trans ?_
    have cached : q ∈ cache'.pieceCache := by
      rw [← (fill_pieceCache cache' p pd piece.data).1]
      exact member
    obtain ⟨old,before,alike⟩ := of_fill found.1 full there
    by_cases same : piece.off / maxPieceLen = i
    · rw [if_pos same,prepared.tidy.once q cached p prepared.cached old pd before found
        (by rw [← alike.off,off,here,same])]
    · rw [if_neg same]
      rw [if_neg same] at isMarked
      rcases prepared.newer q cached with rfl | earlier
      · have now := before.1
        rw [found.1] at now
        cases now
        have := alike.off.symm.trans off
        rw [here] at this
        unfold maxPieceLen at *
        omega
      · exact sound.kept i isMarked q earlier old ⟨prepared.known sound.tidy earlier before.1,before.2⟩
          (alike.off.symm.trans off)
  · exact ⟨tidy.writeable,tidy.sized,tidy.aligned,tidy.inside,tidy.once⟩
  · refine ⟨sound.begun.1,fun i below => (marked i).trans ?_⟩
    rw [sound.begun.2 i below]
    split <;> rfl
  · show cd.hashState = _
    rw [sound.hashed,hashOf,hashOf]
    apply List.foldl_ext
    intro state i member
    have other : i ≠ piece.off / maxPieceLen := fun e => by
      have on := sound.begun.2 i (List.mem_range.mp member)
      rw [e,wasMissing] at on
      cases on
    rw [Function.update_of_ne other]

theorem accepts_iff (p : Piece) : cd.accepts p = true ↔ p.off / maxPieceLen < cd.totalPiecesNumber ∧
    cd.pieces.get (p.off / maxPieceLen) = false ∧ p.len = cd.pieceLen (p.off / maxPieceLen) := by
  unfold accepts
  simp only [Bool.not_eq_true',Bool.or_eq_false_iff,decide_eq_false_iff_not,ge_iff_le,Nat.not_le,bne_eq_false_iff_eq,
    and_assoc]

theorem pieceReceived_rejected {piece : Piece} (rejected : cd.accepts piece = false) :
    cd.pieceReceived sha peers now cache piece = ⟨cd,peers,cache,false,false⟩ := by
  unfold pieceReceived
  simp [rejected]

-- An accepted piece goes into a buffer of its length at its own offset.
theorem pieceReceived_accepted {piece : Piece} (sha : Sha1 σ H) (peers : Peers) (now : Nat) (cache : Cache)
    (accepted : cd.accepts piece = true) :
    ∃ p cache' pd, cache.preparePiece cd.index piece.off piece.len = (p,cache') ∧ cache'.written = cache.written ∧
      Of cd.index cache' p pd ∧ pd.off = piece.off ∧ pd.len = piece.len ∧
      cd.pieceReceived sha peers now cache piece = (cd.markDownloaded piece p).stored sha peers now
        {cache'.fill p pd piece.data with written := cache.written ++ [(cd.index,piece.off,piece.data)]} piece := by
  cases prepared : cache.preparePiece cd.index piece.off piece.len with
  | mk p cache' =>
    obtain ⟨written,pd,found,chunk,off,len,writeable⟩ := Cache.preparePiece_ready prepared
    refine ⟨p,cache',pd,rfl,written,⟨found,chunk⟩,off,len,?_⟩
    unfold pieceReceived
    rw [accepted]
    simp only [Bool.not_true,Bool.false_eq_true,if_false,Cache.getPiece,prepared]
    rw [Cache.write_ready found (show piece.data.length = pd.len from len.symm) writeable,chunk,off,written]
    dsimp only
    rw [if_pos (show piece.data.length = piece.len from rfl)]

theorem all_on (sound : Sound sha cd cache stored) (enough : cd.totalPiecesNumber ≤ cd.downloadedPiecesNumber)
    (inChunk : i < cd.totalPiecesNumber) : cd.pieces.get i = true := by
  have all : (List.range cd.pieces.numBits).countP cd.pieces.get = (List.range cd.pieces.numBits).length := by
    have few : (List.range cd.pieces.numBits).countP cd.pieces.get ≤ _ := List.countP_le_length
    have count : cd.pieces.numOn = (List.range cd.pieces.numBits).countP cd.pieces.get := sound.counted
    rw [List.length_range] at few ⊢
    have := sound.downloaded
    have := sound.bits
    omega
  exact List.countP_eq_length.mp all i (List.mem_range.mpr (by rw [sound.bits]; exact inChunk))

theorem complete_hash (sound : Sound sha cd cache stored) (maximal : Maximal cd)
    (enough : cd.totalPiecesNumber ≤ cd.downloadedPiecesNumber) : cd.numPiecesInHash = cd.totalPiecesNumber := by
  by_contra differs
  have more : cd.numPiecesInHash < cd.totalPiecesNumber := by
    have := sound.begun.1
    omega
  have off := maximal more
  rw [all_on sound enough more] at off
  cases off

structure SameChunk (cd cd' : ChunkDownload σ H) : Prop where
  index : cd'.index = cd.index
  size : cd'.size = cd.size
  total : cd'.totalPiecesNumber = cd.totalPiecesNumber
  lastSize : cd'.lastSize = cd.lastSize

theorem SameChunk.trans (ab : SameChunk a b) (bc : SameChunk b c) : SameChunk a c :=
  ⟨bc.index.trans ab.index,bc.size.trans ab.size,bc.total.trans ab.total,bc.lastSize.trans ab.lastSize⟩

theorem SameStore.chunk (same : SameStore cd cd') : SameChunk cd cd' := by
  obtain ⟨_,_,_,_,rfl⟩ := same
  exact ⟨rfl,rfl,rfl,rfl⟩

structure Stores (sha : Sha1 σ H) (cd : ChunkDownload σ H) (stored : Nat → Option (List UInt8)) (r : Received σ H) : Prop where
  needed : r.isNeeded = true
  sound : Sound sha r.cd r.cache stored
  maximal : Maximal r.cd
  chunk : SameChunk cd r.cd
  complete : r.complete = true ↔ ∀ i < cd.totalPiecesNumber, (stored i).isSome
  hash : r.complete = true → r.cd.getHash = some (sha.final (hashOf sha stored cd.totalPiecesNumber))

theorem Sound.stored_isSome (sound : Sound sha cd cache stored) : (stored i).isSome = cd.pieces.get i := by
  cases on : cd.pieces.get i with
  | false => rw [(sound.missing i on).1]; rfl
  | true =>
    obtain ⟨data,_,got,_⟩ := sound.held i on
    rw [got]
    rfl

theorem Sound.count_of_all (sound : Sound sha cd cache stored) (all : ∀ i < cd.totalPiecesNumber, (stored i).isSome) :
    cd.totalPiecesNumber ≤ cd.downloadedPiecesNumber := by
  have full : (List.range cd.pieces.numBits).countP cd.pieces.get = (List.range cd.pieces.numBits).length := by
    refine List.countP_eq_length.mpr fun i member => ?_
    rw [← sound.stored_isSome]
    exact all i (by rw [← sound.bits]; exact List.mem_range.mp member)
  have count : cd.pieces.numOn = (List.range cd.pieces.numBits).countP cd.pieces.get := sound.counted
  rw [List.length_range] at full
  have := sound.downloaded
  have := sound.bits
  omega

theorem stored_spec {piece : Piece} (sound : Sound sha cd cache stored) :
    Stores sha cd stored (cd.stored sha peers now cache piece) := by
  unfold ChunkDownload.stored
  have first : ∃ cd1 peers1, (if cd.pdown.length > 1 then cd.endgameCancel peers piece else (cd,peers)) = (cd1,peers1) ∧
      SameStore cd cd1 := by
    split
    · exact ⟨_,_,rfl,endgameCancel_store cd⟩
    · exact ⟨_,_,rfl,.refl cd⟩
  obtain ⟨cd1,peers1,cancelled,same1⟩ := first
  rw [cancelled]
  dsimp only
  cases hashed : cd1.updateHash sha cache with
  | mk cd2 cache2 =>
    obtain ⟨sound2,maximal2,same2⟩ := updateHash_sound (sound.sameStore same1) hashed
    have chunk : SameChunk cd cd2 := by
      refine same1.chunk.trans ?_
      rw [same2]
      exact ⟨rfl,rfl,rfl,rfl⟩
    have total := chunk.total
    dsimp only
    split
    · rename_i enough
      have all : ∀ i < cd.totalPiecesNumber, (stored i).isSome := fun i inChunk => by
        rw [sound2.stored_isSome]
        exact all_on sound2 enough (by rw [total]; exact inChunk)
      refine ⟨rfl,?_,maximal2,⟨chunk.index,chunk.size,chunk.total,chunk.lastSize⟩,⟨fun _ => all,fun _ => rfl⟩,fun _ => ?_⟩
      · exact sound2.sameStore ⟨[],.empty,some (sha.final cd2.hashState),cd2.pieceProviders,rfl⟩
      · show some (sha.final cd2.hashState) = _
        rw [sound2.hashed,complete_hash sound2 maximal2 enough,total]
    · rename_i less
      have same3 := sendRequests_store cd2 peers1 now
      refine ⟨rfl,sound2.sameStore same3,?_,chunk.trans same3.chunk,⟨(fun done => by cases done),fun all => ?_⟩,
        (fun done => by cases done)⟩
      · obtain ⟨_,_,_,_,same3⟩ := same3
        rw [same3]
        exact maximal2
      · exact absurd (sound2.count_of_all (by rw [total]; exact all)) less

end

end ChunkDownload

end KtorrentStream.Download
