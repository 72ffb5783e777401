import KtorrentStream.Bcodec.BEncoder
import KtorrentStream.Torrent.Load
set_option autoImplicit true

namespace KtorrentStream.Bcodec
open KtorrentStream.Torrent

-- What a BEncoder that starts with an empty buffer leaves there.
def encode (calls : List Call) : List UInt8 := (BEncoder.run ⟨some []⟩ calls).out.getD []

theorem encode_eq (calls : List Call) : encode calls = calls.flatMap Call.bytes := by
  rw [encode,run_out]
  rfl

-- The field of a dictionary that BDictNode finds under a key.
def field (es : List (List UInt8 × BTree)) (key : String) : Option BTree :=
  (es.find? fun e => e.1.takeWhile (· ≠ 0) = ascii key).map Prod.snd

-- No integer that cannot be written.
mutual
def BTree.Natural : BTree → Prop
  | .str _ => True
  | .int val => 0 ≤ val ∧ val < 2^63
  | .list items => NaturalItems items
  | .dict entries => NaturalEntries entries
def NaturalItems : List BTree → Prop
  | [] => True
  | t :: rest => t.Natural ∧ NaturalItems rest
def NaturalEntries : List (List UInt8 × BTree) → Prop
  | [] => True
  | (_,t) :: rest => t.Natural ∧ NaturalEntries rest
end

theorem string_shorter (bytes : List UInt8) : bytes.length ≤ (Call.writeByteArray bytes).bytes.length := by
  simp only [Call.bytes,List.length_append]
  omega

-- What fits a QByteArray as a whole has no string that does not.
mutual
theorem natural_encodable : ∀ t : BTree, t.Natural → (t.calls.flatMap Call.bytes).length < 2^31 → t.Encodable
  | .str bytes,_,short => by
    have shorter := string_shorter bytes
    simp only [BTree.calls,List.flatMap_singleton] at short
    exact Nat.lt_of_le_of_lt shorter short
  | .int _,natural,_ => natural
  | .list items,natural,short => by
    refine naturalItems_encodable items natural ?_
    simp only [BTree.calls,List.flatMap_cons,List.flatMap_append,List.length_append] at short
    omega
  | .dict entries,natural,short => by
    refine naturalEntries_encodable entries natural ?_
    simp only [BTree.calls,List.flatMap_cons,List.flatMap_append,List.length_append] at short
    omega
theorem naturalItems_encodable : ∀ ts : List BTree, NaturalItems ts →
    ((callsItems ts).flatMap Call.bytes).length < 2^31 → EncodableItems ts
  | [],_,_ => trivial
  | t :: rest,natural,short => by
    simp only [callsItems,List.flatMap_append,List.length_append] at short
    exact ⟨natural_encodable t natural.1 (by omega),naturalItems_encodable rest natural.2 (by omega)⟩
theorem naturalEntries_encodable : ∀ es : List (List UInt8 × BTree), NaturalEntries es →
    ((callsEntries es).flatMap Call.bytes).length < 2^31 → EncodableEntries es
  | [],_,_ => trivial
  | (key,t) :: rest,natural,short => by
    have shorter := string_shorter key
    simp only [callsEntries,List.flatMap_cons,List.flatMap_append,List.length_append] at short
    exact ⟨by omega,natural_encodable t natural.1 (by omega),naturalEntries_encodable rest natural.2 (by omega)⟩
end

variable {children : Entries} {es : List (List UInt8 × BTree)} {key : String}

theorem getData_of_field (same : treeEntries children = es) (plain : PlainEntries children) :
    match BDictNode.getData children key with
    | none => field es key = none
    | some n => field es key = some n.tree ∧ n.Plain := by
  induction children generalizing es with
  | nil =>
    cases same
    rfl
  | cons child rest ih =>
    obtain ⟨name,n⟩ := child
    cases same
    have found := ih rfl plain.2
    by_cases here : name.takeWhile (· ≠ 0) = ascii key
    · simp only [BDictNode.getData,field,treeEntries,List.find?_cons,here,decide_true,Option.map_some]
      exact ⟨trivial,plain.1⟩
    · simp only [BDictNode.getData,field,treeEntries,List.find?_cons,here,decide_false] at found ⊢
      exact found

theorem getData_none (same : treeEntries children = es) (plain : PlainEntries children) (missing : field es key = none) :
    BDictNode.getData children key = none := by
  have found := @getData_of_field children es key same plain
  cases there : BDictNode.getData children key with
  | none => rfl
  | some n =>
    rw [there] at found
    rw [found.1] at missing
    cases missing

theorem getData_some (same : treeEntries children = es) (plain : PlainEntries children) (there : field es key = some t) :
    ∃ n, BDictNode.getData children key = some n ∧ n.tree = t ∧ n.Plain := by
  have found := @getData_of_field children es key same plain
  cases data : BDictNode.getData children key with
  | none =>
    rw [data] at found
    rw [found] at there
    cases there
  | some n =>
    rw [data] at found
    rw [found.1] at there
    exact ⟨n,rfl,Option.some.inj there,found.2⟩

theorem tree_str (same : BNode.tree n = .str s) : ∃ off len, n = .value (.string s) off len := by
  cases n with
  | value v off len =>
    cases v with
    | string strval =>
      cases same
      exact ⟨off,len,rfl⟩
    | int ival => cases same
    | int64 bigIval => cases same
  | list items off len => cases same
  | dict entries off len => cases same

theorem tree_int (same : BNode.tree n = .int v) (plain : n.Plain) (small : v < 2^31) :
    ∃ off len, n = .value (.int v) off len := by
  cases n with
  | value val off len =>
    cases val with
    | string strval => cases same
    | int ival =>
      cases same
      exact ⟨off,len,rfl⟩
    | int64 bigIval =>
      cases same
      have large : 2^31 ≤ v := plain
      omega
  | list items off len => cases same
  | dict entries off len => cases same

theorem tree_list (same : BNode.tree n = .list ts) (plain : n.Plain) :
    ∃ items off len, n = .list items off len ∧ treeItems items = ts ∧ PlainItems items := by
  cases n with
  | value val off len => cases val <;> cases same
  | list items off len =>
    cases same
    exact ⟨items,off,len,rfl,rfl,plain⟩
  | dict entries off len => cases same

theorem tree_dict (same : BNode.tree n = .dict es) (plain : n.Plain) :
    ∃ entries off len, n = .dict entries off len ∧ treeEntries entries = es ∧ PlainEntries entries := by
  cases n with
  | value val off len => cases val <;> cases same
  | list items off len => cases same
  | dict entries off len =>
    cases same
    exact ⟨entries,off,len,rfl,rfl,plain⟩

theorem getValue_str (same : treeEntries children = es) (plain : PlainEntries children)
    (there : field es key = some (.str s)) : BDictNode.getValue children key = some (.string s) := by
  obtain ⟨n,data,tree,_⟩ := getData_some same plain there
  obtain ⟨off,len,rfl⟩ := tree_str tree
  rw [BDictNode.getValue,data]

theorem getValue_int (same : treeEntries children = es) (plain : PlainEntries children)
    (there : field es key = some (.int v)) (small : v < 2^31) : BDictNode.getValue children key = some (.int v) := by
  obtain ⟨n,data,tree,ints⟩ := getData_some same plain there
  obtain ⟨off,len,rfl⟩ := tree_int tree ints small
  rw [BDictNode.getValue,data]

theorem getInt_written (same : treeEntries children = es) (plain : PlainEntries children)
    (there : field es key = some (.int v)) (read : getInt (BDictNode.getValue children key) = .ok w) : w = v := by
  obtain ⟨n,data,tree,_⟩ := getData_some same plain there
  rw [BDictNode.getValue,data] at read
  cases n with
  | value val off len =>
    cases val with
    | string strval => cases read
    | int ival =>
      cases tree
      cases read
      rfl
    | int64 bigIval => cases read
  | list items off len => cases read
  | dict entries off len => cases read

theorem getInt64_written (same : treeEntries children = es) (plain : PlainEntries children)
    (there : field es key = some (.int v)) : getInt64 (BDictNode.getValue children key) = .ok v := by
  obtain ⟨n,data,tree,_⟩ := getData_some same plain there
  rw [BDictNode.getValue,data]
  cases n with
  | value val off len =>
    cases val with
    | string strval => cases tree
    | int ival =>
      cases tree
      rfl
    | int64 bigIval =>
      cases tree
      rfl
  | list items off len => cases tree
  | dict entries off len => cases tree

theorem getValue_none (same : treeEntries children = es) (plain : PlainEntries children)
    (missing : field es key = none) : BDictNode.getValue children key = none := by
  rw [BDictNode.getValue,getData_none same plain missing]

theorem getList_some (same : treeEntries children = es) (plain : PlainEntries children)
    (there : field es key = some (.list ts)) :
    ∃ items, BDictNode.getList children key = some items ∧ treeItems items = ts ∧ PlainItems items := by
  obtain ⟨n,data,tree,ints⟩ := getData_some same plain there
  obtain ⟨items,off,len,rfl,rest⟩ := tree_list tree ints
  exact ⟨items,by rw [BDictNode.getList,data],rest⟩

theorem getList_none (same : treeEntries children = es) (plain : PlainEntries children)
    (missing : field es key = none ∨ ∃ s, field es key = some (.str s)) : BDictNode.getList children key = none := by
  rcases missing with missing | ⟨s,there⟩
  · rw [BDictNode.getList,getData_none same plain missing]
  · obtain ⟨n,data,tree,_⟩ := getData_some same plain there
    obtain ⟨off,len,rfl⟩ := tree_str tree
    rw [BDictNode.getList,data]

theorem getDict_some (same : treeEntries children = es) (plain : PlainEntries children)
    (there : field es key = some (.dict fields)) :
    ∃ entries, BDictNode.getDict children key = some entries ∧ treeEntries entries = fields ∧ PlainEntries entries := by
  obtain ⟨n,data,tree,ints⟩ := getData_some same plain there
  obtain ⟨entries,off,len,rfl,rest⟩ := tree_dict tree ints
  exact ⟨entries,by rw [BDictNode.getDict,data],rest⟩

end KtorrentStream.Bcodec
