import KtorrentStream.Bcodec.Decoding
set_option autoImplicit true

namespace KtorrentStream.Bcodec
variable {qt : QtNumber} {data : QByteArray}

-- QByteArray::mid, for a range inside the array.
def QByteArray.mid (data : QByteArray) (pos len : Nat) : QByteArray where
  bytes := (data.bytes.drop pos).take len
  size_lt := by
    have := data.size_lt
    simp only [List.length_take,List.length_drop]
    omega

def Piece.Contains (inner : BNode) : Piece → Prop
  | .node n => inner.Within n
  | .items ns => ∃ n ∈ ns, inner.Within n
  | .entries es => ∃ entry ∈ es, inner.Within entry.2

theorem complete_inner (piece : Complete qt off bs p) (suffix : data.bytes.drop off = bs ++ rest)
    (inside : p.Contains sub) :
    ∃ ibs more, data.bytes.drop sub.getOffset = ibs ++ more ∧
      Complete qt sub.getOffset ibs (.node sub) := by
  induction piece generalizing rest with
  | string digit noColon length =>
    cases inside
    exact ⟨_,_,suffix,.string digit noColon length⟩
  | int noEnd number =>
    cases inside
    exact ⟨_,_,suffix,.int noEnd number⟩
  | int64 noEnd big number =>
    cases inside
    exact ⟨_,_,suffix,.int64 noEnd big number⟩
  | @list off bs ns body ih =>
    cases inside with
    | self => exact ⟨_,_,suffix,.list body⟩
    | item member deeper =>
      have start : data.bytes.drop off = 108 :: (bs ++ 101 :: rest) := by rw [suffix]; simp
      exact ih (drop_cons start).2.2 ⟨_,member,deeper⟩
  | @dict off bs es body ih =>
    cases inside with
    | self => exact ⟨_,_,suffix,.dict body⟩
    | entry member deeper =>
      have start : data.bytes.drop off = 100 :: (bs ++ 101 :: rest) := by rw [suffix]; simp
      exact ih (drop_cons start).2.2 ⟨_,member,deeper⟩
  | noItem | noEntry => obtain ⟨_,member,_⟩ := inside; cases member
  | item first others ihFirst ihOthers =>
    rw [List.append_assoc] at suffix
    obtain ⟨n,member,deeper⟩ := inside
    rcases List.mem_cons.mp member with rfl | member
    · exact ihFirst suffix deeper
    · exact ihOthers (drop_append suffix) ⟨n,member,deeper⟩
  | entry keyNode value others ihKey ihValue ihOthers =>
    rw [List.append_assoc,List.append_assoc] at suffix
    obtain ⟨e,member,deeper⟩ := inside
    rcases List.mem_cons.mp member with rfl | member
    · exact ihValue (drop_append suffix) deeper
    · exact ihOthers (drop_append (drop_append suffix)) ⟨e,member,deeper⟩

-- Complete bytes are complete wherever they are put, also further to the front.
theorem complete_unshift (piece : Complete qt place bs p) :
    ∀ off k, place = off+k → ∃ moved, Complete qt off bs moved ∧ moved.shift k = p := by
  induction piece with
  | string digit noColon length => rintro off k rfl; exact ⟨_,.string digit noColon length,rfl⟩
  | int noEnd number => rintro off k rfl; exact ⟨_,.int noEnd number,rfl⟩
  | int64 noEnd big number => rintro off k rfl; exact ⟨_,.int64 noEnd big number,rfl⟩
  | list body ih =>
    rintro off k rfl
    obtain ⟨moved,inner,same⟩ := ih (off+1) k (by omega)
    cases moved with
    | items ns => cases same; exact ⟨_,.list inner,rfl⟩
    | node | entries => cases same
  | dict body ih =>
    rintro off k rfl
    obtain ⟨moved,inner,same⟩ := ih (off+1) k (by omega)
    cases moved with
    | entries es => cases same; exact ⟨_,.dict inner,rfl⟩
    | node | items => cases same
  | noItem => rintro off k rfl; exact ⟨_,.noItem,rfl⟩
  | noEntry => rintro off k rfl; exact ⟨_,.noEntry,rfl⟩
  | @item place b n bs ns first others ihFirst ihOthers =>
    rintro off k rfl
    obtain ⟨one,firstMoved,sameFirst⟩ := ihFirst off k rfl
    obtain ⟨more,othersMoved,sameOthers⟩ := ihOthers (off+b.length) k (by omega)
    cases one with
    | node n =>
      cases more with
      | items ns => cases sameFirst; cases sameOthers; exact ⟨_,.item firstMoved othersMoved,rfl⟩
      | node | entries => cases sameOthers
    | items | entries => cases sameFirst
  | @entry place kb key koff klen b n bs es keyNode value others ihKey ihValue ihOthers =>
    rintro off k rfl
    obtain ⟨name,keyMoved,sameKey⟩ := ihKey off k rfl
    obtain ⟨one,valueMoved,sameValue⟩ := ihValue (off+kb.length) k (by omega)
    obtain ⟨more,othersMoved,sameOthers⟩ := ihOthers (off+kb.length+b.length) k (by omega)
    cases name with
    | node kn =>
      cases kn with
      | value v ko kl =>
        cases one with
        | node n =>
          cases more with
          | entries es =>
            cases sameKey; cases sameValue; cases sameOthers
            exact ⟨_,.entry keyMoved valueMoved othersMoved,rfl⟩
          | node | items => cases sameOthers
        | items | entries => cases sameValue
      | list | dict => cases sameKey
    | items | entries => cases sameKey

-- The range of a node lies inside the input, and the bytes of the range
-- decoded on their own give the same node, read from offset 0.
def InRange (qt : QtNumber) (data : QByteArray) (n : BNode) : Prop :=
  n.getOffset+n.getLength ≤ data.size ∧
  ∃ alone, decode qt (data.mid n.getOffset n.getLength) 0 = .ok (some alone,n.getLength) ∧
    alone.shift n.getOffset = n

theorem complete_inRange (suffix : data.bytes.drop n.getOffset = bs ++ rest)
    (piece : Complete qt n.getOffset bs (.node n)) : InRange qt data n := by
  obtain ⟨positive,_,length⟩ := complete_fits piece
  have inside : n.getOffset < data.size := by
    obtain ⟨c,tail,same,_⟩ := complete_head piece
    have start : data.bytes.drop n.getOffset = c :: (tail ++ rest) := by rw [suffix,same]; simp
    exact (drop_cons start).2.1
  refine ⟨?_,?_⟩
  · have := drop_size suffix (by omega)
    simp only [List.length_append] at this
    omega
  · obtain ⟨moved,alone,same⟩ := complete_unshift piece 0 n.getOffset (by omega)
    cases moved with
    | items | entries => cases same
    | node m =>
      have bytes : (data.mid n.getOffset n.getLength).bytes.drop 0 = bs ++ [] := by
        simp only [QByteArray.mid,suffix,List.drop_zero,List.append_nil]
        rw [length,List.take_left]
      have size : (data.mid n.getOffset n.getLength).size = bs.length := by
        have := congrArg List.length bytes
        simpa [QByteArray.size] using this
      have run := complete_decodes alone bytes (2*bs.length+1) (Nat.le_refl _)
      refine ⟨m,?_,by simpa [Piece.shift] using same⟩
      rw [decode,size,run,length]
      simp

def BNode.isContainer : BNode → Bool
  | .value .. => false
  | .list .. | .dict .. => true

-- What callers such as Torrent::load and UTMetaData::handlePacket rely on.
-- decode ends; the ranges of an accepted node and of all nodes in it are
-- sound; the cursor stands at the end of the top node; and a buffer that cuts
-- a list or dictionary short is rejected.
structure RangesHold (qt : QtNumber) (data : QByteArray) (off : Nat) : Prop where
  terminates : decode qt data off ≠ .error .fuel
  ranges : ∀ node pos, decode qt data off = .ok (some node,pos) →
    pos = node.getOffset+node.getLength ∧ ∀ inner, inner.Within node → InRange qt data inner
  prefixRejected : ∀ (whole : QByteArray) (node : BNode), node.isContainer →
    Complete qt off (whole.bytes.drop off) (.node node) →
    data.bytes <+: whole.bytes → data.bytes ≠ whole.bytes →
    ∀ n pos, decode qt data off ≠ .ok (some n,pos)

-- The same bytes cannot be complete and, with more bytes behind them, complete
-- again: decoding the longer buffer ends at one place.
theorem complete_not_extended (piece : Complete qt off bs (.node n))
    (longer : Complete qt off (data.bytes.drop off) (.node m)) (shorter : data.bytes.drop off = bs ++ rest) :
    rest = [] := by
  have one := decode_of_complete shorter piece
  have two := decode_of_complete (List.append_nil _).symm longer
  rw [one,shorter] at two
  simp only [Except.ok.injEq,Prod.mk.injEq,List.length_append] at two
  exact List.length_eq_zero_iff.mp (by omega)

theorem not_truncated_read (whole : ¬ Truncated qt off (data.bytes.drop off))
    (ran : decode qt data off = .ok (some n,pos)) :
    ∃ bs rest, data.bytes.drop off = bs ++ rest ∧ Complete qt off bs (.node n) ∧ pos = off+bs.length := by
  rcases (decode_reads qt data _).1 _ _ _ ran with read | ⟨cut,_⟩
  · exact read
  · exact absurd cut whole

theorem ranges_iff_not_truncated (qt : QtNumber) (data : QByteArray) (off : Nat) :
    RangesHold qt data off ↔ ¬ Truncated qt off (data.bytes.drop off) := by
  constructor
  · intro holds cut
    obtain ⟨n,next,ran,past⟩ := truncated_decodes cut rfl (2*data.size+1) (by
      simp only [List.length_drop]; unfold QByteArray.size; omega)
    obtain ⟨atEnd,inside⟩ := holds.ranges n next ran
    have := (inside n .self).1
    omega
  · intro whole
    refine ⟨decode_terminates,?_,?_⟩
    · intro node pos ran
      obtain ⟨bs,rest,suffix,piece,rfl⟩ := not_truncated_read whole ran
      obtain ⟨_,offset,length⟩ := complete_fits piece
      refine ⟨by omega,?_⟩
      intro inner within
      obtain ⟨ibs,more,innerSuffix,innerPiece⟩ := complete_inner piece suffix within
      exact complete_inRange innerSuffix innerPiece
    · rintro longer node container full ⟨more,same⟩ differs n pos ran
      obtain ⟨bs,rest,suffix,piece,rfl⟩ := not_truncated_read whole ran
      have inside : off < data.bytes.length := by
        obtain ⟨c,tail,start,_⟩ := complete_head piece
        have head : data.bytes.drop off = c :: (tail ++ rest) := by rw [suffix,start]; simp
        exact (drop_cons head).2.1
      have extended : longer.bytes.drop off = bs ++ (rest ++ more) := by
        rw [← same,List.drop_append_of_le_length (by omega),suffix,List.append_assoc]
      have nothing := complete_not_extended piece full extended
      rw [List.append_eq_nil_iff] at nothing
      rw [nothing.2,List.append_nil] at same
      exact differs same

-- The one byte "l" is accepted as an empty list two bytes long, although it is
-- a strict beginning of "le".
theorem unterminated_list_accepted :
    decode QtNumber.plain ⟨[108],by decide⟩ 0 = .ok (some (.list [] 0 2),2) ∧
    ¬ RangesHold QtNumber.plain ⟨[108],by decide⟩ 0 := by
  have ran : decode QtNumber.plain ⟨[108],by decide⟩ 0 = .ok (some (.list [] 0 2),2) := rfl
  refine ⟨ran,fun holds => ?_⟩
  have := ((holds.ranges _ _ ran).2 _ .self).1
  simp [BNode.getOffset,BNode.getLength,QByteArray.size] at this

end KtorrentStream.Bcodec
