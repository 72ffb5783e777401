import KtorrentStream.Download.ContentHash
set_option autoImplicit true

namespace KtorrentStream.Download.Session
open KtorrentStream.Util KtorrentStream.Diskio

-- A ChunkDownload over its whole life. `stored` has the pieces for which
-- pieceReceived said ok, `completions` the number of times it returned true.
structure State (σ H : Type) where
  cd : ChunkDownload σ H
  peers : Peers
  cache : Cache
  stored : Nat → Option (List UInt8)
  completions : Nat

inductive Event where
  | piece (p : Piece) (now : Nat)
  | assign (pd now : Nat)
  | release (pd : Nat)
  | rejected (r : Request) (now : Nat)
  | timedOut (r : Request) (now : Nat)
  | update (now : Nat)
  | peers (peers : Peers)
  -- Which pieces can be mapped changes, and what new buffers hold.
  | mapping (canMap : Nat → Nat → Bool) (fresh : Nat → Nat → UInt8)
  -- The piece cache loses pieces (it is empty after a restart of the program).
  | forget (keep : Nat → Bool)
  -- save, and load into a new ChunkDownload
  | restart

def received (sha : Sha1 σ H) (s : State σ H) (p : Piece) (now : Nat) : ChunkDownload.Received σ H :=
  s.cd.pieceReceived sha s.peers now s.cache p

def take (s : State σ H) (p : Piece) (r : ChunkDownload.Received σ H) : State σ H where
  cd := r.cd
  peers := r.peers
  cache := r.cache
  stored := if r.isNeeded then Function.update s.stored (p.off / maxPieceLen) (some p.data) else s.stored
  completions := if r.complete then s.completions + 1 else s.completions

def perform (sha : Sha1 σ H) (s : State σ H) : Event → State σ H
  | .piece p now => take s p (received sha s p now)
  | .assign pd now =>
    let (_,cd,peers) := s.cd.assign s.peers now pd
    {s with cd := cd,peers := peers}
  | .release pd =>
    let (cd,peers) := s.cd.release s.peers pd
    {s with cd := cd,peers := peers}
  | .rejected r now =>
    let (cd,peers) := s.cd.onRejected s.peers now r
    {s with cd := cd,peers := peers}
  | .timedOut r now =>
    let (cd,peers) := s.cd.onTimeout s.peers now r
    {s with cd := cd,peers := peers}
  | .update now =>
    let (cd,peers) := s.cd.sendRequests s.peers now
    {s with cd := cd,peers := peers}
  | .peers peers => {s with peers := peers}
  | .mapping canMap fresh => {s with cache := {s.cache with canMap := canMap,fresh := fresh}}
  | .forget keep => {s with cache := {s.cache with pieceCache := s.cache.pieceCache.filter keep}}
  | .restart =>
    match s.cd.reload sha s.cache with
    | some (cd,cache,_) => {s with cd := cd,cache := cache}
    | none => {s with cd := .new sha s.cd.index s.cd.size,stored := fun _ => none}

def initial (sha : Sha1 σ H) (index size : UInt32) (peers : Peers) (cache : Cache) : State σ H :=
  ⟨.new sha index.toNat size.toNat,peers,cache,fun _ => none,0⟩

inductive Reached (sha : Sha1 σ H) (allowed : State σ H → Event → Prop) : State σ H → Prop
  | initial (index size : UInt32) (peers : Peers) (cache : Cache) (bare : cache.pieces = []) (empty : cache.pieceCache = []) :
    Reached sha allowed (initial sha index size peers cache)
  | step (before : Reached sha allowed s) (event : Event) (allows : allowed s event) : Reached sha allowed (perform sha s event)

-- Every piece message is aligned.
def Aligned (_ : State σ H) : Event → Prop
  | .piece p _ => p.off % maxPieceLen = 0
  | _ => True

-- And a piece that is saved as mapped can be mapped when it is loaded, or is
-- still cached.
def AlignedAndMapped (s : State σ H) (event : Event) : Prop :=
  Aligned s event ∧ (event = .restart → s.cd.Remapped s.cache)

def content (stored : Nat → Option (List UInt8)) (total : Nat) : List UInt8 :=
  (List.range total).flatMap fun i => (stored i).getD []

-- What a session promises in each of its states.
structure Faithful (sha : Sha1 σ H) (s : State σ H) : Prop where
  counted : s.cd.downloadedPiecesNumber = s.cd.pieces.count
  marked : ∀ i, s.cd.pieces.get i = (s.stored i).isSome
  hashed : (∀ i < s.cd.numPiecesInHash, s.cd.pieces.get i = true) ∧ s.cd.pieces.get s.cd.numPiecesInHash = false
  once : s.completions = if 0 < s.cd.totalPiecesNumber ∧ ∀ i < s.cd.totalPiecesNumber, (s.stored i).isSome then 1 else 0
  needed : ∀ p now, p.off % maxPieceLen = 0 → ((received sha s p now).isNeeded = true ↔
    p.off / maxPieceLen < s.cd.totalPiecesNumber ∧ s.stored (p.off / maxPieceLen) = none ∧
      p.len = s.cd.pieceLen (p.off / maxPieceLen))
  complete : ∀ p now, p.off % maxPieceLen = 0 → ((received sha s p now).complete = true ↔
    (received sha s p now).isNeeded = true ∧
      ∀ j < s.cd.totalPiecesNumber, j ≠ p.off / maxPieceLen → (s.stored j).isSome)
  hash : ∀ p now, p.off % maxPieceLen = 0 → (received sha s p now).complete = true →
    (received sha s p now).cd.getHash = some (sha.generate
      (content (Function.update s.stored (p.off / maxPieceLen) (some p.data)) s.cd.totalPiecesNumber))

section
open ChunkDownload
variable {sha : Sha1 σ H} {s : State σ H} {event : Event} {stored : Nat → Option (List UInt8)} {cd : ChunkDownload σ H}
  {cache cache' : Cache}

theorem hashOf_content (sha : Sha1 σ H) (stored : Nat → Option (List UInt8)) (more : 0 < n) :
    hashOf sha stored n = sha.update sha.clear (content stored n) := by
  unfold hashOf content
  induction n with
  | zero => cases more
  | succ n ih =>
    rw [List.range_succ,List.foldl_append,List.flatMap_append,List.flatMap_singleton]
    cases n with
    | zero => rfl
    | succ n =>
      rw [ih (Nat.succ_pos n)]
      exact sha.append _ _ _

theorem stores_of_accepted (sound : Sound sha cd cache stored) {p : Piece} (aligned : p.off % maxPieceLen = 0)
    (accepted : cd.accepts p = true) (peers : Peers) (now : Nat) :
    Stores sha cd (Function.update stored (p.off / maxPieceLen) (some p.data))
      (cd.pieceReceived sha peers now cache p) := by
  obtain ⟨inChunk,_,len⟩ := (accepts_iff p).mp accepted
  have off : p.off = p.off / maxPieceLen * maxPieceLen := by
    unfold maxPieceLen at *
    omega
  obtain ⟨q,cache',pd,preparing,_,found,here,length,result⟩ := pieceReceived_accepted sha peers now cache accepted
  rw [len] at preparing
  nth_rewrite 1 [off] at preparing
  have prepared := preparePiece_spec sound.tidy inChunk preparing
  have marked := markDownloaded_sound sound p accepted prepared found (here.trans off)
    (show p.len = pd.len from length.symm) (cache.written ++ [(cd.index,p.off,p.data)])
  rw [result]
  obtain ⟨needed,soundAfter,maximal,chunk,complete,hash⟩ := stored_spec marked
  exact ⟨needed,soundAfter,maximal,⟨chunk.index,chunk.size,chunk.total,chunk.lastSize⟩,complete,hash⟩

-- The invariant of a session.
structure Good (sha : Sha1 σ H) (s : State σ H) : Prop where
  sound : Sound sha s.cd s.cache s.stored
  maximal : Maximal s.cd
  chunk : SameChunk s.cd (.new sha s.cd.index s.cd.size)
  small : s.cd.index < 4294967296 ∧ s.cd.size < 4294967296
  once : s.completions = if 0 < s.cd.totalPiecesNumber ∧ ∀ i < s.cd.totalPiecesNumber, (s.stored i).isSome then 1 else 0

theorem whole_chunk {cd' : ChunkDownload σ H} (chunk : SameChunk cd cd') (whole : SameChunk cd (.new sha cd.index cd.size)) :
    SameChunk cd' (.new sha cd'.index cd'.size) := by
  rw [chunk.index,chunk.size]
  exact ⟨chunk.index.symm,chunk.size.symm,whole.total.trans chunk.total.symm,whole.lastSize.trans chunk.lastSize.symm⟩

theorem initial_good (sha : Sha1 σ H) (index size : UInt32) (peers : Peers) (bare : cache.pieces = [])
    (empty : cache.pieceCache = []) : Good sha (initial sha index size peers cache) where
  sound := new_sound (bare_tidy _ bare empty)
  maximal _ := BitSet.new_get _ _
  chunk := ⟨rfl,rfl,rfl,rfl⟩
  small := ⟨index.toNat_lt,size.toNat_lt⟩
  once := by
    rw [if_neg]
    · rfl
    · rintro ⟨more,all⟩
      have first := all 0 more
      cases first

theorem Good.sameStore {cd' : ChunkDownload σ H} (good : Good sha s) (same : SameStore s.cd cd') (peers : Peers) :
    Good sha {s with cd := cd',peers := peers} := by
  have sound := good.sound.sameStore same
  have chunk := whole_chunk same.chunk good.chunk
  obtain ⟨_,_,_,_,rfl⟩ := same
  exact ⟨sound,good.maximal,chunk,good.small,good.once⟩

theorem Good.piece (good : Good sha s) (aligned : p.off % maxPieceLen = 0) (now : Nat) :
    Good sha (perform sha s (.piece p now)) := by
  cases accepted : s.cd.accepts p with
  | false =>
    have same : received sha s p now = ⟨s.cd,s.peers,s.cache,false,false⟩ := pieceReceived_rejected accepted
    show Good sha (take s p (received sha s p now))
    rw [same]
    exact good
  | true =>
    obtain ⟨inChunk,wasMissing,_⟩ := (accepts_iff p).mp accepted
    obtain ⟨needed,sound,maximal,chunk,complete,_⟩ := stores_of_accepted good.sound aligned accepted s.peers now
    have before : s.completions = 0 := by
      rw [good.once,if_neg]
      rintro ⟨_,all⟩
      have isStored := all _ inChunk
      rw [good.sound.stored_isSome,wasMissing] at isStored
      cases isStored
    show Good sha (take s p (received sha s p now))
    unfold take received
    simp only [needed,if_true]
    refine ⟨sound,maximal,whole_chunk chunk good.chunk,?_,?_⟩
    · dsimp only
      rw [chunk.index,chunk.size]
      exact good.small
    · dsimp only
      rw [before,chunk.total]
      by_cases all : ∀ i < s.cd.totalPiecesNumber,
          (Function.update s.stored (p.off / maxPieceLen) (some p.data) i).isSome
      · rw [if_pos (complete.mpr all),if_pos ⟨Nat.zero_lt_of_lt inChunk,all⟩]
      · rw [if_neg (fun done => all (complete.mp done)),if_neg (fun both => all both.2)]

theorem Good.restart (good : Good sha s) (remapped : s.cd.Remapped s.cache) : Good sha (perform sha s .restart) := by
  obtain ⟨cd,cache,loaded,sound,maximal,chunk⟩ := reload_spec good.sound good.chunk good.small.1 good.small.2 remapped
  unfold perform
  dsimp only
  rw [loaded]
  refine ⟨sound,maximal,whole_chunk chunk good.chunk,?_,?_⟩
  · dsimp only
    rw [chunk.index,chunk.size]
    exact good.small
  · dsimp only
    rw [chunk.total]
    exact good.once

theorem Good.forget (good : Good sha s) (keep : Nat → Bool) : Good sha (perform sha s (.forget keep)) :=
  ⟨good.sound.forget keep s.cache.canMap s.cache.fresh,good.maximal,good.chunk,good.small,good.once⟩

theorem Good.mapping (good : Good sha s) (canMap : Nat → Nat → Bool) (fresh : Nat → Nat → UInt8) :
    Good sha (perform sha s (.mapping canMap fresh)) := by
  have sound := good.sound.forget (fun _ => true) canMap fresh
  rw [List.filter_true] at sound
  exact ⟨sound,good.maximal,good.chunk,good.small,good.once⟩

theorem good_preserved (good : Good sha s) (allowed : AlignedAndMapped s event) : Good sha (perform sha s event) := by
  cases event with
  | piece p now => exact good.piece allowed.1 now
  | assign pd now => exact good.sameStore (assign_store s.cd) _
  | release pd => exact good.sameStore (release_store s.cd) _
  | rejected r now => exact good.sameStore (onRejected_store s.cd) _
  | timedOut r now => exact good.sameStore (onTimeout_store s.cd) _
  | update now => exact good.sameStore (sendRequests_store s.cd _ _) _
  | peers peers => exact good.sameStore (.refl s.cd) peers
  | mapping canMap fresh => exact good.mapping canMap fresh
  | forget keep => exact good.forget keep
  | restart => exact good.restart (allowed.2 rfl)

theorem reached_good (reached : Reached sha AlignedAndMapped s) : Good sha s := by
  induction reached with
  | initial index size peers cache bare empty => exact initial_good sha index size peers bare empty
  | step _ event allows ih => exact good_preserved ih allows

theorem Good.faithful (good : Good sha s) : Faithful sha s := by
  have isStored : ∀ i, (s.stored i).isSome = s.cd.pieces.get i := fun i => good.sound.stored_isSome
  have rejected : ∀ p now, s.cd.accepts p = false → received sha s p now = ⟨s.cd,s.peers,s.cache,false,false⟩ :=
    fun p now refused => pieceReceived_rejected refused
  have wanted : ∀ p, s.cd.accepts p = true ↔ p.off / maxPieceLen < s.cd.totalPiecesNumber ∧
      s.stored (p.off / maxPieceLen) = none ∧ p.len = s.cd.pieceLen (p.off / maxPieceLen) := fun p => by
    rw [accepts_iff,← isStored,Option.isSome_eq_false_iff,Option.isNone_iff_eq_none]
  have needed : ∀ p now, p.off % maxPieceLen = 0 → ((received sha s p now).isNeeded = true ↔ s.cd.accepts p = true) := by
    intro p now aligned
    cases accepted : s.cd.accepts p with
    | false => rw [rejected p now accepted]
    | true => exact ⟨fun _ => rfl,fun _ => (stores_of_accepted good.sound aligned accepted s.peers now).needed⟩
  refine ⟨good.sound.downloaded.trans good.sound.counted,fun i => (isStored i).symm,⟨good.sound.begun.2,?_⟩,good.once,
    fun p now aligned => (needed p now aligned).trans (wanted p),?_,?_⟩
  · by_cases more : s.cd.numPiecesInHash < s.cd.totalPiecesNumber
    · exact good.maximal more
    · exact BitSet.get_of_ge _ (by rw [good.sound.bits]; omega)
  · intro p now aligned
    rw [needed p now aligned]
    cases accepted : s.cd.accepts p with
    | false =>
      rw [rejected p now accepted]
      exact ⟨(fun done => by cases done),(fun both => by cases both.1)⟩
    | true =>
      rw [show (received sha s p now).complete = true ↔ _ from
        (stores_of_accepted good.sound aligned accepted s.peers now).complete]
      constructor
      · intro all
        refine ⟨rfl,fun j inChunk other => ?_⟩
        have got := all j inChunk
        rw [Function.update_of_ne other] at got
        exact got
      · rintro ⟨_,others⟩ j inChunk
        by_cases same : j = p.off / maxPieceLen
        · rw [same,Function.update_self]
          rfl
        · rw [Function.update_of_ne same]
          exact others j inChunk same
  · intro p now aligned complete
    cases accepted : s.cd.accepts p with
    | false =>
      rw [rejected p now accepted] at complete
      cases complete
    | true =>
      have inChunk := ((accepts_iff p).mp accepted).1
      rw [show (received sha s p now).cd.getHash = _ from
        (stores_of_accepted good.sound aligned accepted s.peers now).hash complete,
        hashOf_content sha _ (Nat.zero_lt_of_lt inChunk)]
      rfl

end

-- Whatever the order of the pieces, and over restarts that map again what was
-- mapped, the hash of a complete chunk is the hash of its content.
theorem hash_of_content (sha : Sha1 σ H) (s : State σ H) (reached : Reached sha AlignedAndMapped s) : Faithful sha s :=
  (reached_good reached).faithful

-- A generator whose hash is all it was given.
def plain : Sha1 (List UInt8) (List UInt8) where
  clear := []
  update s a := s ++ a
  final s := s
  append s a b := List.append_assoc s a b

def idle : PieceDownloader := ⟨0,false,false,true,.new 1,0,0,1,[],[],0⟩

def emptyCache (fresh : UInt8) : Cache := ⟨16385,fun _ => 0,[],[],fun _ _ => true,fun _ _ => fresh,fun _ => 16385,[]⟩

def lastPieceStored : State (List UInt8) (List UInt8) :=
  perform plain (initial plain 0 16385 (fun _ => idle) (emptyCache 9)) (.piece ⟨0,16384,[5],none⟩ 0)

theorem hash_of_content_restarted : Reached plain AlignedAndMapped (perform plain lastPieceStored .restart) ∧
    Faithful plain (perform plain lastPieceStored .restart) := by
  have stored : Reached plain AlignedAndMapped lastPieceStored :=
    .step (.initial 0 16385 (fun _ => idle) (emptyCache 9) rfl rfl) (.piece ⟨0,16384,[5],none⟩ 0)
      ⟨rfl,fun restarts => by cases restarts⟩
  have reached : Reached plain AlignedAndMapped (perform plain lastPieceStored .restart) :=
    .step stored .restart ⟨trivial,fun _ i p pd _ _ _ => .inr rfl⟩
  exact ⟨reached,hash_of_content plain _ reached⟩

-- The short last piece of a chunk is stored in a mapping, the program is
-- restarted and the mapping fails then.
def unmapped : State (List UInt8) (List UInt8) :=
  [.forget fun _ => false,.mapping (fun _ _ => false) (fun _ _ => 9),.restart].foldl (perform plain) lastPieceStored

section
open ChunkDownload

theorem unmapped_get : unmapped.cd.pieces.get i = decide (i = 1) := by
  match i with
  | 0 => rfl
  | 1 => rfl
  | i + 2 =>
    rw [BitSet.get_of_ge _ (show unmapped.cd.pieces.numBits ≤ i + 2 from Nat.le_add_left 2 i)]
    exact (decide_eq_false (by omega)).symm

theorem unmapped_piece {q : Nat} {pd : PieceData} (found : unmapped.cache.pieces[q]? = some pd) :
    pd = ⟨0,16384,1,true,false,[9]⟩ ∨ pd = ⟨0,16384,1,false,false,[9]⟩ := by
  match q with
  | 0 => exact .inl (Option.some.inj found).symm
  | 1 => exact .inr (Option.some.inj found).symm
  | q + 2 => cases found

theorem unmapped_sound : Sound plain unmapped.cd unmapped.cache (fun i => if i = 1 then some [9] else none) where
  lastSize := by decide
  bits := rfl
  counted := rfl
  clean := by
    have all : ∀ k < 8, 2 ≤ k → (unmapped.cd.pieces.byteAt k).toNat.testBit (7 - k % 8) = false := by decide
    exact fun k beyond bound => all k bound beyond
  downloaded := rfl
  places := rfl
  missing i off := by
    rw [unmapped_get,decide_eq_false_iff_not] at off
    refine ⟨if_neg off,?_⟩
    match i with
    | 0 => rfl
    | 1 => exact absurd rfl off
    | i + 2 => rfl
  held i on := by
    rw [unmapped_get,decide_eq_true_eq] at on
    subst on
    exact ⟨[9],1,rfl,rfl,_,⟨rfl,rfl⟩,rfl,rfl⟩
  kept i on q member pd found off := by
    rw [unmapped_get,decide_eq_true_eq] at on
    subst on
    rw [show q = 1 from List.mem_singleton.mp member]
    rfl
  tidy := by
    refine ⟨?_,?_,?_,?_,?_⟩
    · intro p pd found
      rcases unmapped_piece found.1 with rfl | rfl <;> rfl
    · intro p pd found
      rcases unmapped_piece found.1 with rfl | rfl <;> rfl
    · intro p pd found
      rcases unmapped_piece found.1 with rfl | rfl <;> exact ⟨1,by decide,rfl,rfl⟩
    · intro p member
      rw [show p = 1 from List.mem_singleton.mp member]
      decide
    · intro p member q member' pd pd' _ _ _
      exact (List.mem_singleton.mp member).trans (List.mem_singleton.mp member').symm
  begun := ⟨by decide,fun i below => absurd below (Nat.not_lt_zero i)⟩
  hashed := rfl

end

theorem unmapped_reached : Reached plain Aligned unmapped := by
  have stored : Reached plain Aligned lastPieceStored :=
    .step (.initial 0 16385 (fun _ => idle) (emptyCache 9) rfl rfl) (.piece ⟨0,16384,[5],none⟩ 0) rfl
  exact .step (.step (.step stored (.forget fun _ => false) trivial) (.mapping (fun _ _ => false) (fun _ _ => 9)) trivial)
    .restart trivial

theorem unmapped_hash (data : List UInt8) (long : data.length = 16384) :
    (received plain unmapped ⟨0,0,data,none⟩ 0).complete = true ∧
      (received plain unmapped ⟨0,0,data,none⟩ 0).cd.getHash = some (data ++ [9]) := by
  have first : (⟨0,0,data,none⟩ : Piece).off / maxPieceLen = 0 := Nat.zero_div maxPieceLen
  have accepted : unmapped.cd.accepts ⟨0,0,data,none⟩ = true := by
    rw [ChunkDownload.accepts_iff,first]
    exact ⟨by decide,unmapped_get,long⟩
  have stores := stores_of_accepted unmapped_sound (Nat.zero_mod maxPieceLen) accepted unmapped.peers 0
  rw [first] at stores
  have complete := stores.complete.mpr (by
    intro i inChunk
    match i with
    | 0 => rfl
    | 1 => rfl
    | i + 2 => exact absurd (show i + 2 < 2 from inChunk) (by omega))
  refine ⟨complete,(stores.hash complete).trans ?_⟩
  rw [hashOf_content plain _ (by decide)]
  rfl

-- The first piece completes the chunk, with the hash of something else.
theorem mapped_piece_lost : ¬ ∀ s : State (List UInt8) (List UInt8), Reached plain Aligned s → Faithful plain s := by
  intro claimed
  have faithful := claimed unmapped unmapped_reached
  obtain ⟨data,long⟩ : ∃ data : List UInt8, data.length = 16384 := ⟨List.replicate 16384 0,List.length_replicate⟩
  obtain ⟨complete,hash⟩ := unmapped_hash data long
  have right := faithful.hash ⟨0,0,data,none⟩ 0 (Nat.zero_mod maxPieceLen) complete
  rw [hash] at right
  have first : (⟨0,0,data,none⟩ : Piece).off / maxPieceLen = 0 := Nat.zero_div maxPieceLen
  rw [first] at right
  have bytes : data ++ [9] = data ++ [5] := Option.some.inj right
  have last := List.append_cancel_left bytes
  cases last

end KtorrentStream.Download.Session
