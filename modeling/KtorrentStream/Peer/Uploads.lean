import KtorrentStream.Peer.PeerUploader
set_option autoImplicit true

namespace KtorrentStream.Peer
open KtorrentStream.Util KtorrentStream.Download

theorem reject_right (u : Uploader) (r : PieceRequest) : RightAnswer chunks r (u.reject r) := by
  unfold Uploader.reject
  intro p member piece
  have reject : Packet.ofRequest r.request 16 = some p := by
    split at member
    · exact Option.mem_toList.mp member
    · cases member
  unfold Packet.ofRequest allocPacket at reject
  rw [if_pos (by rfl)] at reject
  cases reject
  exact absurd piece (show ¬ (16 : UInt8) = 7 by decide)

-- A packet of len bytes is made, unless 13 + len wraps.
theorem ofPiece_eq (index begin_ : Nat) {len : Nat} {data : List UInt8} (small : len < 4294967296) (length : data.length = len) :
    Packet.ofPiece index begin_ len data =
      if 13 + len < 4294967296 then
        some ⟨7,writeUint32 (9 + len) ++ 7 :: (writeUint32 index ++ writeUint32 begin_ ++ data),13 + len⟩
      else none := by
  have body : (writeUint32 index ++ writeUint32 begin_ ++ data).length = 8 + len := by
    simp only [List.length_append,writeUint32_length,length]
  unfold Packet.ofPiece allocPacket
  rw [body]
  by_cases fits : 13 + len < 4294967296
  · have sub : uint32Sub (13 + len) 4 = 9 + len := by
      rw [uint32Sub_of_le (by omega) fits]
      omega
    rw [if_pos fits,uint32_of_lt fits,if_pos (by omega),sub]
  · have wraps : uint32 (13 + len) ≠ 5 + (8 + len) := by
      unfold uint32
      omega
    rw [if_neg fits,if_neg wraps]

def pieceMemory (uninit : Nat → UInt8) (c : Chunk) (off len : Nat) : List UInt8 :=
  match c.loadPiece off len with
  | .piece bytes => (bytes ++ ((List.range len).map uninit).drop bytes.length).take len
  | _ => (List.range len).map uninit

theorem pieceMemory_length (uninit : Nat → UInt8) (c : Chunk) (off len : Nat) : (pieceMemory uninit c off len).length = len := by
  unfold pieceMemory
  split
  · simp only [List.length_take,List.length_append,List.length_drop,List.length_map,List.length_range]
    omega
  · simp only [List.length_map,List.length_range]

def piecePacket (uninit : Nat → UInt8) (c : Chunk) (r : PieceRequest) : Packet where
  type := 7
  data := writeUint32 (9 + r.len.toNat) ++ 7 :: (writeUint32 r.index.toNat ++ writeUint32 r.off.toNat ++
    pieceMemory uninit c r.off.toNat r.len.toNat)
  size := 13 + r.len.toNat

theorem ofPiece_answer (uninit : Nat → UInt8) (c : Chunk) (r : PieceRequest) :
    Uploader.ofPiece uninit c r.index r.off r.len =
      if 13 + r.len.toNat < 4294967296 then
        if c.loadPiece r.off.toNat r.len.toNat = .error then .threw else .queued [piecePacket uninit c r]
      else .overrun := by
  have small := r.len.toNat_lt
  by_cases fits : 13 + r.len.toNat < 4294967296
  · have made := ofPiece_eq r.index.toNat r.off.toNat small (pieceMemory_length uninit c r.off.toNat r.len.toNat)
    have room : ¬ uint32 (13 + r.len.toNat) < 13 := by
      rw [uint32_of_lt fits]
      omega
    unfold Uploader.ofPiece
    rw [if_pos fits] at made ⊢
    rw [if_neg room]
    cases load : c.loadPiece r.off.toNat r.len.toNat with
    | error => rfl
    | failed =>
      have memory : pieceMemory uninit c r.off.toNat r.len.toNat = (List.range r.len.toNat).map uninit := by
        rw [pieceMemory,load]
      unfold piecePacket
      rw [memory] at made ⊢
      simp only [made,reduceCtorEq,if_false]
    | piece bytes =>
      have memory : pieceMemory uninit c r.off.toNat r.len.toNat =
          (bytes ++ ((List.range r.len.toNat).map uninit).drop bytes.length).take r.len.toNat := by
        rw [pieceMemory,load]
      unfold piecePacket
      rw [memory] at made ⊢
      simp only [made,reduceCtorEq,if_false]
  · have wraps : uint32 (13 + r.len.toNat) < 13 := by
      unfold uint32
      omega
    rw [if_neg fits]
    exact if_pos wraps

theorem sendChunk_eq (uninit : Nat → UInt8) (r : PieceRequest) (c : Chunk) :
    Uploader.sendChunk uninit r c = if Passes c r then some (Uploader.ofPiece uninit c r.index r.off r.len) else none := by
  have off := r.off.toNat_lt
  have len := r.len.toNat_lt
  have sized := c.sized
  unfold Uploader.sendChunk
  rw [UInt32.toNat_add]
  by_cases passes : Passes c r
  · rw [if_pos passes]
    obtain ⟨inside,sum⟩ := passes
    rw [if_neg (by omega)]
  · rw [if_neg passes]
    unfold Passes at passes
    rw [if_pos (by omega)]

-- The bytes of the packet are those of the chunk, whatever the array held before.
theorem memory_exact_iff (c : Chunk) (inside : off + len ≤ c.bytes.length) (loads : c.loadPiece off len ≠ .error) :
    (∀ uninit, pieceMemory uninit c off len = (c.bytes.drop off).take len) ↔ (0 < len → c.loadPiece off len ≠ .failed) := by
  have whole : ((c.bytes.drop off).take len).length = len := by
    rw [List.length_take,List.length_drop]
    omega
  cases load : c.loadPiece off len with
  | error => exact absurd load loads
  | piece bytes =>
    have exact_ := c.loads off len bytes inside load
    refine ⟨fun _ _ => by simp,fun _ uninit => ?_⟩
    rw [pieceMemory,load]
    simp only [exact_]
    exact List.take_left' whole
  | failed =>
    constructor
    · intro always some_
      have there : off < c.bytes.length := by omega
      have first := congrArg (·[0]?) (always fun _ => c.bytes[off] + 1)
      simp only [pieceMemory,load] at first
      rw [List.getElem?_take_of_lt some_,List.getElem?_drop,Nat.add_zero,List.getElem?_eq_getElem there,List.getElem?_map,
        List.getElem?_range some_] at first
      have same : c.bytes[off] + 1 = c.bytes[off] := Option.some.inj first
      have values := congrArg UInt8.toNat same
      rw [UInt8.toNat_add,show (1 : UInt8).toNat = 1 from rfl] at values
      have bound := (c.bytes[off]).toNat_lt
      omega
    · intro empty uninit
      have zero : len = 0 := by
        by_contra some_
        exact empty (by omega) rfl
      rw [pieceMemory,load,zero]
      rfl

theorem answer_onDisk (there : chunks r.index.toNat = some c) (onDisk : c.onDisk = true) :
    Uploader.answer u chunks uninit r = (Uploader.sendChunk uninit r c).getD (u.reject r) := by
  simp only [Uploader.answer,there,onDisk,if_true]

theorem answer_missing (missing : ∀ c, chunks r.index.toNat = some c → c.onDisk = false) :
    Uploader.answer u chunks uninit r = u.reject r := by
  unfold Uploader.answer
  cases there : chunks r.index.toNat with
  | none => rfl
  | some c => simp only [missing c there,Bool.false_eq_true,if_false]

-- The answer to a request that passes, when it is right for every memory of the array.
theorem safe_of_right {r : PieceRequest} (there : chunks r.index.toNat = some c) (onDisk : c.onDisk = true) (passes : Passes c r)
    (right : ∀ uninit, RightAnswer chunks r (Uploader.answer u chunks uninit r)) :
    13 + r.len.toNat < 4294967296 ∧ (c.loadPiece r.off.toNat r.len.toNat ≠ .error →
      r.off.toNat + r.len.toNat ≤ c.bytes.length ∧ (0 < r.len.toNat → c.loadPiece r.off.toNat r.len.toNat ≠ .failed)) := by
  have sent (uninit : Nat → UInt8) : RightAnswer chunks r (if 13 + r.len.toNat < 4294967296 then
      if c.loadPiece r.off.toNat r.len.toNat = .error then .threw else .queued [piecePacket uninit c r] else .overrun) := by
    have now := right uninit
    rwa [answer_onDisk there onDisk,sendChunk_eq,if_pos passes,Option.getD_some,ofPiece_answer] at now
  have fits : 13 + r.len.toNat < 4294967296 := by
    by_contra wraps
    have now := sent fun _ => 0
    rw [if_neg wraps] at now
    exact now
  refine ⟨fits,fun loads => ?_⟩
  have body (uninit : Nat → UInt8) : r.off.toNat + r.len.toNat ≤ c.bytes.length ∧
      pieceMemory uninit c r.off.toNat r.len.toNat = (c.bytes.drop r.off.toNat).take r.len.toNat := by
    have now := sent uninit
    rw [if_pos fits,if_neg loads] at now
    obtain ⟨c',same,inside,data⟩ := (now _ (List.mem_singleton.mpr rfl) rfl).inside
    rw [there] at same
    cases same
    exact ⟨inside,List.append_cancel_left (List.cons.inj (List.append_cancel_left data)).2⟩
  have inside := (body fun _ => 0).1
  exact ⟨inside,(memory_exact_iff c inside loads).mp fun uninit => (body uninit).2⟩

theorem right_of_safe (safe : Safe chunks r) (there : chunks r.index.toNat = some c) (onDisk : c.onDisk = true) :
    RightAnswer chunks r (Uploader.answer u chunks uninit r) := by
  rw [answer_onDisk there onDisk,sendChunk_eq]
  by_cases passes : Passes c r
  · obtain ⟨fits,rest⟩ := safe c there onDisk passes
    rw [if_pos passes,Option.getD_some,ofPiece_answer,if_pos fits]
    by_cases throws : c.loadPiece r.off.toNat r.len.toNat = .error
    · rw [if_pos throws]
      trivial
    · obtain ⟨inside,loaded⟩ := rest throws
      rw [if_neg throws]
      intro p member _
      cases List.mem_singleton.mp member
      refine ⟨⟨c,there,inside,?_⟩,fits,rfl⟩
      rw [piecePacket,(memory_exact_iff c inside throws).mpr loaded]
  · rw [if_neg passes]
    exact reject_right u r

theorem answer_right_iff (u : Uploader) (chunks : Nat → Option Chunk) (r : PieceRequest) :
    (∀ uninit, RightAnswer chunks r (u.answer chunks uninit r)) ↔ Safe chunks r := by
  constructor
  · intro right c there onDisk passes
    exact safe_of_right there onDisk passes right
  · intro safe uninit
    by_cases missing : ∀ c, chunks r.index.toNat = some c → c.onDisk = false
    · rw [answer_missing missing]
      exact reject_right u r
    · push Not at missing
      obtain ⟨c,there,onDisk⟩ := missing
      exact right_of_safe safe there (by simpa using onDisk)

-- A REQUEST packet itself leads to a reject at most.
theorem handleRequest_queue (u : Uploader) (packet : List UInt8) :
    ∃ packets, (u.handleRequest packet).queue = u.queue ++ packets ∧ ∀ p ∈ packets, p.type ≠ 7 := by
  have none_ : ∃ packets, u.queue = u.queue ++ packets ∧ ∀ p ∈ packets, p.type ≠ 7 :=
    ⟨[],(List.append_nil _).symm,fun p member => by cases member⟩
  unfold Uploader.handleRequest
  split
  · exact none_
  · dsimp only
    split
    · exact none_
    · split
      · refine ⟨_,rfl,fun p member => ?_⟩
        have reject := Option.mem_toList.mp member
        unfold Packet.ofRequest allocPacket at reject
        rw [if_pos (by rfl)] at reject
        cases reject
        exact (by decide : ¬ (16 : UInt8) = 7)
      · exact none_

def Answer.packets : Answer → List Packet
  | .queued packets => packets
  | _ => []

-- Of the requests in the queue those up to one that throws are answered, one after the other.
theorem handleAll_spec (chunks : Nat → Option Chunk) (uninit : Nat → UInt8) (u : Uploader) (requests : List PieceRequest)
    (inBounds : ∀ r ∈ requests, u.answer chunks uninit r ≠ .overrun) :
    ∃ u' answered, u.handleAll chunks uninit requests = some u' ∧ requests = answered ++ u'.requests ∧
      u'.queue = u.queue ++ answered.flatMap fun r => (u.answer chunks uninit r).packets := by
  induction requests generalizing u with
  | nil => exact ⟨_,[],rfl,rfl,(List.append_nil _).symm⟩
  | cons r rest ih =>
    rw [Uploader.handleAll]
    cases answer : u.answer chunks uninit r with
    | overrun => exact absurd answer (inBounds r List.mem_cons_self)
    | threw => exact ⟨_,[],rfl,rfl,(List.append_nil _).symm⟩
    | queued packets =>
      obtain ⟨u',answered,handled,requests,queue⟩ := ih {u with queue := u.queue ++ packets}
        fun r' member => inBounds r' (List.mem_cons_of_mem _ member)
      refine ⟨u',r :: answered,handled,by rw [List.cons_append,← requests],?_⟩
      rw [queue,List.flatMap_cons,answer,List.append_assoc]
      rfl

-- A PIECE packet is queued by handleRequests only, in answer to a request of the peer, and for
-- each request the answers are right exactly when it is safe.
theorem uploads_inside_iff (u : Uploader) (chunks : Nat → Option Chunk) :
    (∀ packet, ∃ packets, (u.handleRequest packet).queue = u.queue ++ packets ∧ ∀ p ∈ packets, p.type ≠ 7) ∧
    (∀ uninit, (areWeChoked u = true → u.handleRequests chunks uninit = some u) ∧
      ((∀ r ∈ u.requests, u.answer chunks uninit r ≠ .overrun) →
        ∃ u' answered, u.handleRequests chunks uninit = some u' ∧ u.requests = answered ++ u'.requests ∧
          u'.queue = u.queue ++ answered.flatMap fun r => (u.answer chunks uninit r).packets)) ∧
    ((∀ uninit, ∀ r ∈ u.requests, RightAnswer chunks r (u.answer chunks uninit r)) ↔ ∀ r ∈ u.requests, Safe chunks r) := by
  refine ⟨handleRequest_queue u,fun uninit => ⟨fun choked => if_pos choked,fun inBounds => ?_⟩,?_,?_⟩
  · cases choked : areWeChoked u with
    | true => exact ⟨u,[],by rw [Uploader.handleRequests,if_pos choked],rfl,(List.append_nil _).symm⟩
    | false =>
      rw [Uploader.handleRequests,if_neg (by rw [choked]; decide)]
      exact handleAll_spec chunks uninit u u.requests inBounds
  · intro right r member
    exact (answer_right_iff u chunks r).mp fun uninit => right uninit r member
  · intro safe uninit r member
    exact (answer_right_iff u chunks r).mpr (safe r member) uninit

-- Two bytes that the cache reads from the disk. It throws for what is not in the chunk.
def twoBytes : Chunk where
  bytes := [1,2]
  onDisk := true
  loadPiece off len := if off + len ≤ 2 then .piece (([1,2] : List UInt8).drop off |>.take len) else .error
  sized := by decide
  loads off len d inside loaded := by
    have two : off + len ≤ 2 := inside
    rw [if_pos two] at loaded
    cases loaded
    rfl

-- Four gigabytes less one, behind the first byte.
def wrappedRequest : PieceRequest := ⟨0,1,4294967295⟩

-- The sum of offset and length is zero, and so the check lets it pass; the size of the
-- packet is twelve, and its header has thirteen bytes.
theorem wrapped_request_overruns : ¬ ∀ (u : Uploader) (chunks : Nat → Option Chunk) (uninit : Nat → UInt8) (r : PieceRequest),
    RightAnswer chunks r (u.answer chunks uninit r) := by
  intro always
  have one : wrappedRequest.off.toNat = 1 := rfl
  have most : wrappedRequest.len.toNat = 4294967295 := rfl
  have size : twoBytes.bytes.length = 2 := rfl
  have passes : Passes twoBytes wrappedRequest := ⟨by omega,.inr (by omega)⟩
  have right (uninit : Nat → UInt8) := always ⟨true,false,false,false,[],[]⟩ (fun _ => some twoBytes) uninit wrappedRequest
  have fits := (safe_of_right rfl rfl passes right).1
  omega

end KtorrentStream.Peer
