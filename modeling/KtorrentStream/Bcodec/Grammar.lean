import KtorrentStream.Bcodec.BDecoder
set_option autoImplicit true

namespace KtorrentStream.Bcodec

-- What a stretch of bytes can be read as: one node, the items of a list up to
-- its closing 'e', or the entries of a dictionary up to its closing 'e'.
inductive Piece where
  | node (n : BNode)
  | items (ns : List BNode)
  | entries (es : List (List UInt8 × BNode))

-- The language the decoder is for, at offset `off`. Lists and dictionaries end
-- with their own 'e'; every node is exactly as long as its bytes.
inductive Complete (qt : QtNumber) : Nat → List UInt8 → Piece → Prop where
  | string (digit : 48 ≤ d ∧ d ≤ 57) (noColon : 58 ∉ d :: n)
      (length : qt.toInt (d :: n) = some (arr.length : Int)) :
      Complete qt off (d :: n ++ 58 :: arr)
        (.node (.value (.string arr) off (d :: n ++ 58 :: arr).length))
  | int (noEnd : 101 ∉ n) (number : qt.toInt n = some v) :
      Complete qt off (105 :: n ++ [101]) (.node (.value (.int v) off (105 :: n ++ [101]).length))
  | int64 (noEnd : 101 ∉ n) (big : qt.toInt n = none) (number : qt.toLongLong n = some v) :
      Complete qt off (105 :: n ++ [101]) (.node (.value (.int64 v) off (105 :: n ++ [101]).length))
  | list (body : Complete qt (off+1) bs (.items ns)) :
      Complete qt off (108 :: bs ++ [101]) (.node (.list ns off (108 :: bs ++ [101]).length))
  | dict (body : Complete qt (off+1) bs (.entries es)) :
      Complete qt off (100 :: bs ++ [101]) (.node (.dict es off (100 :: bs ++ [101]).length))
  | noItem : Complete qt off [] (.items [])
  | item (first : Complete qt off b (.node n)) (rest : Complete qt (off+b.length) bs (.items ns)) :
      Complete qt off (b ++ bs) (.items (n :: ns))
  | noEntry : Complete qt off [] (.entries [])
  | entry (keyNode : Complete qt off kb (.node (.value (.string key) koff klen)))
      (value : Complete qt (off+kb.length) b (.node n))
      (rest : Complete qt (off+kb.length+b.length) bs (.entries es)) :
      Complete qt off (kb ++ b ++ bs) (.entries ((key,n) :: es))

-- Bytes that stop inside a list or a dictionary at a place where its loop
-- looks for the next item or key, every part so far being complete.
inductive Truncated (qt : QtNumber) : Nat → List UInt8 → Prop where
  | list (body : Complete qt (off+1) bs (.items ns)) : Truncated qt off (108 :: bs)
  | inList (body : Complete qt (off+1) bs (.items ns)) (inner : Truncated qt (off+1+bs.length) t) :
      Truncated qt off (108 :: bs ++ t)
  | dict (body : Complete qt (off+1) bs (.entries es)) : Truncated qt off (100 :: bs)
  | inDict (body : Complete qt (off+1) bs (.entries es))
      (keyNode : Complete qt (off+1+bs.length) kb (.node (.value (.string key) koff klen)))
      (inner : Truncated qt (off+1+bs.length+kb.length) t) : Truncated qt off (100 :: bs ++ kb ++ t)

-- Bounds every piece obeys; they pay for the fuel.
def Piece.Fits : Piece → Nat → Nat → Prop
  | .node n,off,len => 1 ≤ len ∧ n.getOffset = off ∧ n.getLength = len
  | .items ns,_,len => ns.length ≤ len
  | .entries es,_,len => es.length ≤ len

theorem complete_fits (piece : Complete qt off bs p) : p.Fits off bs.length := by
  induction piece with
  | string | int | int64 | list | dict => simp [Piece.Fits,BNode.getOffset,BNode.getLength]
  | noItem | noEntry => simp [Piece.Fits]
  | item first rest ihFirst ihRest =>
    simp only [Piece.Fits,List.length_cons,List.length_append] at *
    omega
  | entry keyNode value rest ihKey ihValue ihRest =>
    simp only [Piece.Fits,List.length_cons,List.length_append] at *
    omega

-- A complete piece never starts with the closing 'e', so a loop does not stop
-- in front of one.
theorem complete_head (piece : Complete qt off bs (.node n)) : ∃ c rest, bs = c :: rest ∧ c ≠ 101 := by
  cases piece with
  | string digit => exact ⟨_,_,rfl,by rintro rfl; exact absurd digit.2 (by decide)⟩
  | int | int64 => exact ⟨105,_,rfl,by decide⟩
  | list => exact ⟨108,_,rfl,by decide⟩
  | dict => exact ⟨100,_,rfl,by decide⟩

theorem truncated_head (cut : Truncated qt off bs) : ∃ c rest, bs = c :: rest ∧ c ≠ 101 := by
  cases cut with
  | list | inList => exact ⟨108,_,rfl,by decide⟩
  | dict | inDict => exact ⟨100,_,rfl,by decide⟩

-- The language does not depend on where in a buffer the bytes stand.
def Piece.shift (k : Nat) : Piece → Piece
  | .node n => .node (n.shift k)
  | .items ns => .items (shiftItems k ns)
  | .entries es => .entries (shiftEntries k es)

end KtorrentStream.Bcodec
