set_option autoImplicit true

namespace KtorrentStream.Bcodec

-- `Value` keeps the three kinds of the source: a byte string, an int, and an
-- Int64 used only when the number does not fit an int.
inductive Value where
  | string (strval : List UInt8)
  | int (ival : Int)
  | int64 (bigIval : Int)
  deriving DecidableEq, Repr

-- Every node carries the offset and the length it takes up in the byte array.
inductive BNode where
  | value (val : Value) (off len : Nat)
  | list (children : List BNode) (off len : Nat)
  | dict (children : List (List UInt8 × BNode)) (off len : Nat)

def BNode.getOffset : BNode → Nat
  | .value _ off _ => off
  | .list _ off _ => off
  | .dict _ off _ => off

def BNode.getLength : BNode → Nat
  | .value _ _ len => len
  | .list _ _ len => len
  | .dict _ _ len => len

-- What a node denotes once offsets, lengths and the int/Int64 split are
-- forgotten: nesting, entry order, string bytes and integer values.
inductive BTree where
  | str (bytes : List UInt8)
  | int (val : Int)
  | list (items : List BTree)
  | dict (entries : List (List UInt8 × BTree))

def Value.tree : Value → BTree
  | .string s => .str s
  | .int v => .int v
  | .int64 v => .int v

mutual
def BNode.tree : BNode → BTree
  | .value v _ _ => v.tree
  | .list children _ _ => .list (treeItems children)
  | .dict children _ _ => .dict (treeEntries children)
def treeItems : List BNode → List BTree
  | [] => []
  | n :: rest => n.tree :: treeItems rest
def treeEntries : List (List UInt8 × BNode) → List (List UInt8 × BTree)
  | [] => []
  | (key,n) :: rest => (key,n.tree) :: treeEntries rest
end

mutual
def BNode.shift (k : Nat) : BNode → BNode
  | .value v off len => .value v (off+k) len
  | .list children off len => .list (shiftItems k children) (off+k) len
  | .dict children off len => .dict (shiftEntries k children) (off+k) len
def shiftItems (k : Nat) : List BNode → List BNode
  | [] => []
  | n :: rest => n.shift k :: shiftItems k rest
def shiftEntries (k : Nat) : List (List UInt8 × BNode) → List (List UInt8 × BNode)
  | [] => []
  | (key,n) :: rest => (key,n.shift k) :: shiftEntries k rest
end

inductive BNode.Within : BNode → BNode → Prop where
  | self : Within n n
  | item : n ∈ children → Within sub n → Within sub (.list children off len)
  | entry : (key,n) ∈ children → Within sub n → Within sub (.dict children off len)

end KtorrentStream.Bcodec
