import KtorrentStream.Bcodec.Decoding
set_option autoImplicit true

namespace KtorrentStream.Bcodec

-- The calls of BEncoder: one constructor for each overload of write whose
-- output is a bencoded integer or byte string.
inductive Call where
  | beginDict
  | beginList
  | writeBool (val : Bool)
  | writeUint32 (val : UInt32)
  | writeUint64 (val : UInt64)
  | writeByteArray (data : List UInt8)
  | writeData (data : List UInt8)
  | finish

-- QString("i%1e").arg(val) and QString("%1:").arg(size)
def intText (val : Nat) : List UInt8 := 105 :: decimal val ++ [101]
def lengthText (size : Nat) : List UInt8 := decimal size ++ [58]

def Call.bytes : Call → List UInt8
  | .beginDict => [100]
  | .beginList => [108]
  | .writeBool val => intText (if val then 1 else 0)
  | .writeUint32 val => intText val.toNat
  | .writeUint64 val => intText val.toNat
  | .writeByteArray data => decimal data.length ++ [58] ++ data
  | .writeData data => lengthText data.length ++ data
  | .finish => [101]

-- `out` is null when the encoder has nowhere to write; every call then returns
-- at once.
structure BEncoder where
  out : Option (List UInt8)

def BEncoder.call (enc : BEncoder) (c : Call) : BEncoder := ⟨enc.out.map (· ++ c.bytes)⟩

def BEncoder.run (enc : BEncoder) (calls : List Call) : BEncoder := calls.foldl BEncoder.call enc

theorem run_out (calls : List Call) (written : List UInt8) :
    (BEncoder.run ⟨some written⟩ calls).out = some (written ++ calls.flatMap Call.bytes) := by
  induction calls generalizing written with
  | nil => simp [BEncoder.run]
  | cons c rest ih =>
    have step := ih (written ++ c.bytes)
    simp only [BEncoder.run,List.foldl_cons,BEncoder.call,Option.map_some,List.flatMap_cons] at *
    rw [step,List.append_assoc]

-- The matching sequence of calls for a tree.
mutual
def BTree.calls : BTree → List Call
  | .str bytes => [.writeByteArray bytes]
  | .int val => [.writeUint64 (UInt64.ofNat val.toNat)]
  | .list items => .beginList :: callsItems items ++ [.finish]
  | .dict entries => .beginDict :: callsEntries entries ++ [.finish]
def callsItems : List BTree → List Call
  | [] => []
  | t :: rest => t.calls ++ callsItems rest
def callsEntries : List (List UInt8 × BTree) → List Call
  | [] => []
  | (key,t) :: rest => .writeByteArray key :: t.calls ++ callsEntries rest
end

-- The other overloads write the same bytes, so it does not matter which one a
-- caller picks for a leaf.
theorem writeData_same (data : List UInt8) :
    (Call.writeData data).bytes = (Call.writeByteArray data).bytes := rfl

-- Strings and keys below 2^31 bytes, integers from 0 to 2^63-1.
mutual
def BTree.Encodable : BTree → Prop
  | .str bytes => bytes.length < 2^31
  | .int val => 0 ≤ val ∧ val < 2^63
  | .list items => EncodableItems items
  | .dict entries => EncodableEntries entries
def EncodableItems : List BTree → Prop
  | [] => True
  | t :: rest => t.Encodable ∧ EncodableItems rest
def EncodableEntries : List (List UInt8 × BTree) → Prop
  | [] => True
  | (key,t) :: rest => key.length < 2^31 ∧ t.Encodable ∧ EncodableEntries rest
end

-- What was written as a number below 2^31 is read as an int.
mutual
def BNode.Plain : BNode → Prop
  | .value (.int64 v) _ _ => 2^31 ≤ v
  | .value _ _ _ => True
  | .list children _ _ => PlainItems children
  | .dict children _ _ => PlainEntries children
def PlainItems : List BNode → Prop
  | [] => True
  | n :: rest => n.Plain ∧ PlainItems rest
def PlainEntries : List (List UInt8 × BNode) → Prop
  | [] => True
  | (_,n) :: rest => n.Plain ∧ PlainEntries rest
end

section
variable (qt : QtNumber)

theorem string_complete (bytes : List UInt8) (small : bytes.length < 2^31) (off : Nat) :
    ∃ len, Complete qt off (Call.writeByteArray bytes).bytes (.node (.value (.string bytes) off len)) := by
  obtain ⟨nonempty,digits⟩ := decimal_digits bytes.length
  have number := qt.toInt_decimal bytes.length small
  have noColon : 58 ∉ decimal bytes.length := by
    intro member
    exact absurd (digits 58 member).2 (by decide)
  simp only [Call.bytes]
  generalize decimal bytes.length = text at *
  cases text with
  | nil => exact absurd rfl nonempty
  | cons d n =>
    rw [List.append_assoc]
    exact ⟨_,.string (digits d (by simp)) noColon number⟩

theorem int_complete (val : Nat) (small : val < 2^63) (off : Nat) :
    ∃ n, Complete qt off (intText val) (.node n) ∧ n.tree = .int val ∧ n.Plain := by
  obtain ⟨_,digits⟩ := decimal_digits val
  have noEnd : 101 ∉ decimal val := by
    intro member
    exact absurd (digits 101 member).2 (by decide)
  by_cases fits : val < 2^31
  · exact ⟨_,.int noEnd (qt.toInt_decimal val fits),by simp [BNode.tree,Value.tree],by simp [BNode.Plain]⟩
  · exact ⟨_,.int64 noEnd (qt.toInt_overflow val (by omega)) (qt.toLongLong_decimal val small),
      by simp [BNode.tree,Value.tree],by simp only [BNode.Plain]; omega⟩

mutual
theorem encode_complete : ∀ (t : BTree), t.Encodable → ∀ off,
    ∃ n, Complete qt off (t.calls.flatMap Call.bytes) (.node n) ∧ n.tree = t ∧ n.Plain
  | .str bytes,ok,off => by
    obtain ⟨len,piece⟩ := string_complete qt bytes ok off
    exact ⟨_,by simpa [BTree.calls] using piece,by simp [BNode.tree,Value.tree],by simp [BNode.Plain]⟩
  | .int val,ok,off => by
    obtain ⟨n,rfl⟩ := Int.eq_ofNat_of_zero_le ok.1
    have bound : n < 2^63 := by have := ok.2; omega
    obtain ⟨node,piece,same,plain⟩ := int_complete qt n bound off
    have exactly : (UInt64.ofNat n).toNat = n := by
      rw [UInt64.toNat_ofNat']
      omega
    refine ⟨node,?_,same,plain⟩
    simpa only [BTree.calls,List.flatMap_singleton,Call.bytes,Int.toNat_natCast,exactly] using piece
  | .list items,ok,off => by
    obtain ⟨ns,body,same,plain⟩ := encodeItems_complete items ok (off+1)
    have bytes : (BTree.list items).calls.flatMap Call.bytes =
        108 :: (callsItems items).flatMap Call.bytes ++ [101] := by simp [BTree.calls,Call.bytes]
    rw [bytes]
    exact ⟨_,.list body,by simp [BNode.tree,same],by simpa only [BNode.Plain] using plain⟩
  | .dict entries,ok,off => by
    obtain ⟨es,body,same,plain⟩ := encodeEntries_complete entries ok (off+1)
    have bytes : (BTree.dict entries).calls.flatMap Call.bytes =
        100 :: (callsEntries entries).flatMap Call.bytes ++ [101] := by simp [BTree.calls,Call.bytes]
    rw [bytes]
    exact ⟨_,.dict body,by simp [BNode.tree,same],by simpa only [BNode.Plain] using plain⟩
theorem encodeItems_complete : ∀ (ts : List BTree), EncodableItems ts → ∀ off,
    ∃ ns, Complete qt off ((callsItems ts).flatMap Call.bytes) (.items ns) ∧ treeItems ns = ts ∧
      PlainItems ns
  | [],_,off => ⟨[],.noItem,rfl,by simp [PlainItems]⟩
  | t :: rest,ok,off => by
    obtain ⟨n,first,same,plain⟩ := encode_complete t ok.1 off
    obtain ⟨ns,others,sameRest,plainRest⟩ := encodeItems_complete rest ok.2 (off+(t.calls.flatMap Call.bytes).length)
    refine ⟨n :: ns,?_,by simp [treeItems,same,sameRest],by simp only [PlainItems]; exact ⟨plain,plainRest⟩⟩
    rw [callsItems,List.flatMap_append]
    exact .item first others
theorem encodeEntries_complete : ∀ (es : List (List UInt8 × BTree)), EncodableEntries es → ∀ off,
    ∃ ns, Complete qt off ((callsEntries es).flatMap Call.bytes) (.entries ns) ∧ treeEntries ns = es ∧
      PlainEntries ns
  | [],_,off => ⟨[],.noEntry,rfl,by simp [PlainEntries]⟩
  | (key,t) :: rest,ok,off => by
    obtain ⟨len,keyNode⟩ := string_complete qt key ok.1 off
    obtain ⟨n,value,same,plain⟩ := encode_complete t ok.2.1 (off+(Call.writeByteArray key).bytes.length)
    obtain ⟨ns,others,sameRest,plainRest⟩ := encodeEntries_complete rest ok.2.2
      (off+(Call.writeByteArray key).bytes.length+(t.calls.flatMap Call.bytes).length)
    refine ⟨(key,n) :: ns,?_,by simp [treeEntries,same,sameRest],by simp only [PlainEntries]; exact ⟨plain,plainRest⟩⟩
    rw [callsEntries,List.cons_append,List.flatMap_cons,List.flatMap_append,← List.append_assoc]
    exact .entry keyNode value others
end

end

-- Encoding, embedded anywhere in a buffer, and decoding from where it starts
-- gives back the tree, and the cursor ends where the encoding ends.
theorem bencode_roundtrip (qt : QtNumber) (t : BTree) (sized : t.Encodable) (data : QByteArray)
    (before encoding after : List UInt8)
    (encoded : (BEncoder.run ⟨some []⟩ t.calls).out = some encoding)
    (embedded : data.bytes = before ++ encoding ++ after) :
    ∃ node, decode qt data before.length = .ok (some node,before.length+encoding.length) ∧
      node.tree = t ∧ node.getOffset = before.length ∧ node.getLength = encoding.length := by
  rw [run_out,Option.some.injEq,List.nil_append] at encoded
  subst encoded
  obtain ⟨node,piece,same,_⟩ := encode_complete qt t sized before.length
  obtain ⟨_,offset,length⟩ := complete_fits piece
  have suffix : data.bytes.drop before.length = t.calls.flatMap Call.bytes ++ after := by
    rw [embedded,List.append_assoc,List.drop_left]
  exact ⟨node,decode_of_complete suffix piece,same,offset,length⟩

-- From the start of a buffer, with the numbers as they were written.
theorem decode_encoded (qt : QtNumber) (t : BTree) (sized : t.Encodable) (data : QByteArray)
    (starts : data.bytes = t.calls.flatMap Call.bytes ++ after) :
    ∃ node, decode qt data 0 = .ok (some node,(t.calls.flatMap Call.bytes).length) ∧ node.tree = t ∧ node.Plain := by
  obtain ⟨node,piece,same,plain⟩ := encode_complete qt t sized 0
  have suffix : data.bytes.drop 0 = t.calls.flatMap Call.bytes ++ after := starts
  have decoded := decode_of_complete suffix piece
  rw [Nat.zero_add] at decoded
  exact ⟨node,decoded,same,plain⟩

-- {"a": [5, ""]} behind one other byte.
theorem bencode_roundtrip_nested : ∃ node,
    decode QtNumber.plain ⟨[120,100,49,58,97,108,105,53,101,48,58,101,101],by decide⟩ 1 =
      .ok (some node,13) ∧
    node.tree = .dict [([97],.list [.int 5,.str []])] ∧ node.getOffset = 1 ∧ node.getLength = 12 :=
  bencode_roundtrip QtNumber.plain (.dict [([97],.list [.int 5,.str []])])
    (by simp [BTree.Encodable,EncodableEntries,EncodableItems])
    ⟨[120,100,49,58,97,108,105,53,101,48,58,101,101],by decide⟩
    [120] [100,49,58,97,108,105,53,101,48,58,101,101] []
    (by simp [run_out,BTree.calls,callsEntries,callsItems,Call.bytes,intText,decimal]) (by simp)

end KtorrentStream.Bcodec
