import KtorrentStream.Dht.BucketNodes
import KtorrentStream.Dht.KBucketTable
import KtorrentStream.Dht.MessageRoundTrip
import KtorrentStream.Dht.Pack
set_option autoImplicit true

namespace KtorrentStream.Dht
open KtorrentStream.Util KtorrentStream.Bcodec KtorrentStream.Torrent KtorrentStream.Net

-- What ends the loading of a bucket: a bt::Error, or a read behind the end of an address.
inductive TableError
  | thrown (err : LoadError)
  | outside

def saveEntry (e : KBucketEntry) : List Call :=
  [.beginDict,writeText "id",.writeByteArray e.nodeId.hash,writeText "address",.writeData (pack e.addr),.finish]

def KBucket.save (b : KBucket) : List Call :=
  [.beginDict,writeText "min",.writeByteArray b.minKey.hash,writeText "max",.writeByteArray b.maxKey.hash,
    writeText "entries",.beginList] ++ b.entries.flatMap saveEntry ++ [.finish,.finish]

-- An address that does not have 6 bytes is read as one of 18.
def loadAddress (addr : List UInt8) : Except TableError Address :=
  if addr.length = 6 then .ok (.v4 (UInt32.ofNat (readUint32 addr 0)) (UInt16.ofNat (readUint16 addr 4)))
  else if size : addr.length < 18 then .error .outside
  else .ok (.v6 ⟨addr.take 16,by rw [List.length_take]; omega⟩ (UInt16.ofNat (readUint16 addr 16)))

def loadBytes (dict : Entries) (key : String) : Except TableError (List UInt8) :=
  (getByteArray (BDictNode.getValue dict key)).mapError .thrown

def loadEntry (now : Nat) (entry : Entries) : Except TableError KBucketEntry := do
  let id ← loadBytes entry "id"
  let addr ← loadBytes entry "address"
  return ⟨← loadAddress addr,Key.ofByteArray id,now,0,0⟩

-- Children that are no dictionaries are left out.
def loadEntries (now : Nat) : List BNode → Except TableError (List KBucketEntry)
  | [] => .ok []
  | .dict entry _ _ :: rest => do
    let e ← loadEntry now entry
    return e :: (← loadEntries now rest)
  | _ :: rest => loadEntries now rest

def KBucket.load (now : Nat) (b : KBucket) (dict : Entries) : Except TableError KBucket := do
  let minKey := Key.ofByteArray (← loadBytes dict "min")
  let maxKey := Key.ofByteArray (← loadBytes dict "max")
  match BDictNode.getList dict "entries" with
  | none => return {b with minKey,maxKey}
  | some items => return {b with minKey,maxKey,entries := b.entries ++ (← loadEntries now items)}

namespace KBucketTable

-- The file.
def saveTable (t : KBucketTable) : List UInt8 := encode ([.beginList] ++ t.buckets.flatMap KBucket.save ++ [.finish])

-- A bt::Error ends the loop, with the buckets so far. None where a read leaves its array.
def loadBuckets (now : Nat) (ourId : Key) : List BNode → Option (List KBucket)
  | [] => some []
  | .dict dict _ _ :: rest =>
    match (KBucket.new Key.min Key.max ourId).load now dict with
    | .ok b => (loadBuckets now ourId rest).map (b :: ·)
    | .error (.thrown _) => some []
    | .error .outside => none
  | _ :: rest => loadBuckets now ourId rest

def loadTable (qn : QtNumber) (now : Nat) (t : KBucketTable) (data : QByteArray) : Option KBucketTable :=
  match decode qn data 0 with
  | .ok (some (.list items _ _),_) => (loadBuckets now t.ourId items).map fun loaded => {t with buckets := t.buckets ++ loaded}
  | _ => some t

end KBucketTable

-- What is written of entries and buckets, as trees.
def entryTree (e : KBucketEntry) : BTree := .dict [keyField "id" e.nodeId,(ascii "address",.str (pack e.addr))]

def bucketTree (b : KBucket) : BTree :=
  .dict [keyField "min" b.minKey,keyField "max" b.maxKey,(ascii "entries",.list (b.entries.map entryTree))]

theorem items_written {save : α → List Call} {tree : α → BTree} (each : ∀ x, bytesOf (save x) = bytesOf (tree x).calls) (xs : List α) :
    bytesOf (xs.flatMap save) = bytesOf (callsItems (xs.map tree)) := by
  induction xs with
  | nil => rfl
  | cons x rest ih => rw [List.flatMap_cons,List.map_cons,callsItems,bytesOf_append,bytesOf_append,each,ih]

theorem saveEntry_bytes (e : KBucketEntry) : bytesOf (saveEntry e) = bytesOf (entryTree e).calls := by
  simp [bytesOf,saveEntry,entryTree,writeText,keyField,BTree.calls,callsEntries,writeData_same]

theorem save_bytes (b : KBucket) : bytesOf b.save = bytesOf (bucketTree b).calls := by
  have entries := items_written saveEntry_bytes b.entries
  unfold KBucket.save
  rw [bytesOf_append,bytesOf_append,entries]
  simp [bytesOf,bucketTree,writeText,keyField,BTree.calls,callsEntries]

theorem saveTable_bytes (t : KBucketTable) : t.saveTable = bytesOf (BTree.list (t.buckets.map bucketTree)).calls := by
  have buckets := items_written save_bytes t.buckets
  unfold KBucketTable.saveTable
  rw [encode_eq]
  show bytesOf _ = _
  rw [bytesOf_append,bytesOf_append,buckets]
  simp [bytesOf,BTree.calls]

theorem natural_items {tree : α → BTree} (each : ∀ x, (tree x).Natural) (xs : List α) : NaturalItems (xs.map tree) := by
  induction xs with
  | nil => trivial
  | cons x rest ih => exact ⟨each x,ih⟩

theorem entryTree_natural (e : KBucketEntry) : (entryTree e).Natural := ⟨trivial,trivial,trivial⟩

theorem bucketTree_natural (b : KBucket) : (bucketTree b).Natural :=
  ⟨trivial,trivial,natural_items entryTree_natural b.entries,trivial⟩

theorem loadAddress_pack (addr : Address) : loadAddress (pack addr) = .ok addr := by
  have read := parseItem_pack addr
  unfold parseItem at read
  unfold loadAddress
  cases addr with
  | v4 ip port =>
    have six : (pack (.v4 ip port)).length = 6 := rfl
    rw [if_pos six] at read ⊢
    exact congrArg Except.ok (Option.some.inj read)
  | v6 ip port =>
    have size : (pack (.v6 ip port)).length = 18 := by simp [pack,ip.property]
    rw [if_neg (by omega),dif_pos size] at read
    rw [if_neg (by omega),dif_neg (by omega)]
    exact congrArg Except.ok (Option.some.inj read)

def reloadedEntry (now : Nat) (e : KBucketEntry) : KBucketEntry := ⟨e.addr,e.nodeId,now,0,0⟩

def KBucket.reloaded (now : Nat) (ourId : Key) (b : KBucket) : KBucket :=
  ⟨b.minKey,b.maxKey,ourId,b.entries.map (reloadedEntry now),[],[]⟩

theorem loadBytes_str (same : treeEntries dict = fields) (plain : PlainEntries dict) (there : field fields key = some (.str s)) :
    loadBytes dict key = .ok s := by
  unfold loadBytes
  rw [getValue_str same plain there]
  rfl

theorem loadEntry_saved (now : Nat) (e : KBucketEntry) (same : BTree.dict (treeEntries dict) = entryTree e) (plain : PlainEntries dict) :
    loadEntry now dict = .ok (reloadedEntry now e) := by
  have same := BTree.dict.inj same
  have id : loadBytes dict "id" = .ok e.nodeId.hash := loadBytes_str same plain rfl
  have addr : loadBytes dict "address" = .ok (pack e.addr) := loadBytes_str same plain rfl
  unfold loadEntry
  rw [id,addr,ok_bind,ok_bind,loadAddress_pack,ok_bind,ofByteArray_hash]
  rfl

theorem loadEntries_saved (now : Nat) (entries : List KBucketEntry) (same : treeItems items = entries.map entryTree)
    (plain : PlainItems items) : loadEntries now items = .ok (entries.map (reloadedEntry now)) := by
  induction items generalizing entries with
  | nil =>
    cases entries with
    | nil => rfl
    | cons e rest => cases same
  | cons n rest ih =>
    cases entries with
    | nil => cases same
    | cons e others =>
      obtain ⟨head,tail⟩ := List.cons_eq_cons.mp same
      obtain ⟨dict,off,len,rfl,tree,ints⟩ := tree_dict head plain.1
      rw [loadEntries,loadEntry_saved now e head ints,ok_bind,ih others tail plain.2,ok_bind]
      rfl

theorem load_saved (now : Nat) (ourId : Key) (b : KBucket) (same : BTree.dict (treeEntries dict) = bucketTree b)
    (plain : PlainEntries dict) : (KBucket.new Key.min Key.max ourId).load now dict = .ok (b.reloaded now ourId) := by
  have same := BTree.dict.inj same
  have lowest : loadBytes dict "min" = .ok b.minKey.hash := loadBytes_str same plain rfl
  have highest : loadBytes dict "max" = .ok b.maxKey.hash := loadBytes_str same plain rfl
  have list : field (treeEntries dict) "entries" = some (.list (b.entries.map entryTree)) := by
    rw [same]
    rfl
  obtain ⟨items,found,trees,ints⟩ := getList_some rfl plain list
  unfold KBucket.load
  rw [lowest,ok_bind,highest,ok_bind,found]
  dsimp only
  rw [loadEntries_saved now b.entries trees ints,ok_bind,ofByteArray_hash,ofByteArray_hash]
  rfl

namespace KBucketTable

theorem loadBuckets_saved (now : Nat) (ourId : Key) (buckets : List KBucket) (same : treeItems items = buckets.map bucketTree)
    (plain : PlainItems items) : loadBuckets now ourId items = some (buckets.map (·.reloaded now ourId)) := by
  induction items generalizing buckets with
  | nil =>
    cases buckets with
    | nil => rfl
    | cons b rest => cases same
  | cons n rest ih =>
    cases buckets with
    | nil => cases same
    | cons b others =>
      obtain ⟨head,tail⟩ := List.cons_eq_cons.mp same
      obtain ⟨dict,off,len,rfl,tree,ints⟩ := tree_dict head plain.1
      rw [loadBuckets,load_saved now ourId b head ints]
      dsimp only
      rw [ih others tail plain.2]
      rfl

-- The table that is read from the file of another.
def reloaded (now : Nat) (ourId : Key) (t : KBucketTable) : KBucketTable := ⟨ourId,t.buckets.map (·.reloaded now ourId)⟩

theorem loadTable_saved (qn : QtNumber) (now : Nat) (ourId : Key) (t : KBucketTable) (data : QByteArray)
    (saved : data.bytes = t.saveTable) : (new ourId).loadTable qn now data = some (t.reloaded now ourId) := by
  have short := data.size_lt
  rw [saved,saveTable_bytes] at short
  have sized := natural_encodable (.list (t.buckets.map bucketTree)) (natural_items bucketTree_natural t.buckets) short
  have starts : data.bytes = (BTree.list (t.buckets.map bucketTree)).calls.flatMap Call.bytes ++ [] := by
    rw [saved,saveTable_bytes,List.append_nil]
    rfl
  obtain ⟨node,decoded,same,plain⟩ := decode_encoded qn _ sized data starts
  obtain ⟨items,off,len,rfl,trees,ints⟩ := tree_list same plain
  unfold loadTable
  rw [decoded]
  dsimp only
  rw [loadBuckets_saved now _ t.buckets trees ints]
  rfl

end KBucketTable

-- What a table keeps: the ranges and the nodes of its buckets, in order.
def KBucket.content (b : KBucket) : Key × Key × List (Address × Key) := (b.minKey,b.maxKey,KBucket.nodes b.entries)

theorem reloaded_content (now : Nat) (ourId : Key) (b : KBucket) : (b.reloaded now ourId).content = b.content := by
  unfold KBucket.content KBucket.reloaded KBucket.nodes
  rw [List.map_map]
  rfl

def entrySize (addr : Address) : Nat := if addr.ipVersion = 4 then 26 else 38

theorem intSum_le (off size : Nat) : intSum off size ≤ off + size := by
  unfold intSum
  omega

theorem readUint32_entry (front rest : List UInt8) (id : Key) (off : Nat) :
    readUint32 (front ++ (id.hash ++ rest)) (front.length + (20 + off)) = readUint32 rest off := by
  rw [readUint32_append,← id.sized,readUint32_append]

theorem readUint16_entry (front rest : List UInt8) (id : Key) (off : Nat) :
    readUint16 (front ++ (id.hash ++ rest)) (front.length + (20 + off)) = readUint16 rest off := by
  rw [readUint16_append,← id.sized,readUint16_append]

theorem readUint32_ip (ip : UInt32) (rest : List UInt8) : UInt32.ofNat (readUint32 (writeUint32 ip.toNat ++ rest) 0) = ip := by
  rw [readUint32_write ip.toNat_lt,UInt32.ofNat_toNat]

theorem readUint16_port (front : List UInt8) (port : UInt16) (rest : List UInt8) :
    UInt16.ofNat (readUint16 (front ++ (writeUint16 port.toNat ++ rest)) front.length) = port := by
  have place := readUint16_append front (writeUint16 port.toNat ++ rest) 0
  rw [Nat.add_zero] at place
  rw [place,readUint16_write port.toNat_lt,UInt16.ofNat_toNat]

theorem unpackBucketEntry_at (addr : Address) (id : Key) (front back : List UInt8) :
    unpackBucketEntry (front ++ (id.hash ++ (pack addr ++ back))) front.length addr.ipVersion = some ⟨addr,id⟩ := by
  have key : Key.ofByteArray (((front ++ (id.hash ++ (pack addr ++ back))).drop front.length).take 20) = id := by
    rw [List.drop_left,List.take_left' id.sized,ofByteArray_hash]
  have length : (front ++ (id.hash ++ (pack addr ++ back))).length = front.length + (20 + ((pack addr).length + back.length)) := by
    rw [List.length_append,List.length_append,List.length_append,id.sized]
  unfold unpackBucketEntry
  rw [key]
  cases addr with
  | v4 ip port =>
    have parts : pack (.v4 ip port) ++ back = writeUint32 ip.toNat ++ (writeUint16 port.toNat ++ back) := List.append_assoc _ _ _
    have six : (pack (.v4 ip port)).length = 6 := rfl
    have room : ¬ front.length + 26 > (front ++ (id.hash ++ (pack (.v4 ip port) ++ back))).length := by omega
    have first : readUint32 (front ++ (id.hash ++ (writeUint32 ip.toNat ++ (writeUint16 port.toNat ++ back)))) (front.length + 20) =
        readUint32 (writeUint32 ip.toNat ++ (writeUint16 port.toNat ++ back)) 0 := readUint32_entry front _ id 0
    have last : readUint16 (front ++ (id.hash ++ (writeUint32 ip.toNat ++ (writeUint16 port.toNat ++ back)))) (front.length + 24) =
        readUint16 (writeUint32 ip.toNat ++ (writeUint16 port.toNat ++ back)) (writeUint32 ip.toNat).length :=
      readUint16_entry front _ id 4
    have version : (Address.v4 ip port).ipVersion = 4 := rfl
    dsimp only
    rw [if_pos version,if_neg room,parts,first,last,readUint32_ip,readUint16_port]
  | v6 ip port =>
    have parts : pack (.v6 ip port) ++ back = ip.val ++ (writeUint16 port.toNat ++ back) := List.append_assoc _ _ _
    have size : (pack (.v6 ip port)).length = 18 := by simp [pack,ip.property]
    have room : ¬ front.length + 38 > (front ++ (id.hash ++ (pack (.v6 ip port) ++ back))).length := by omega
    have last : readUint16 (front ++ (id.hash ++ (ip.val ++ (writeUint16 port.toNat ++ back)))) (front.length + 36) =
        readUint16 (ip.val ++ (writeUint16 port.toNat ++ back)) ip.val.length := by
      rw [ip.property]
      exact readUint16_entry front _ id 16
    have middle : ((front ++ (id.hash ++ (ip.val ++ (writeUint16 port.toNat ++ back)))).drop (front.length + 20)).take 16 = ip.val := by
      rw [← List.drop_drop,List.drop_left,List.drop_left' id.sized,List.take_left' ip.property]
    have version : ¬ (Address.v6 ip port).ipVersion = 4 := show ¬ 6 = 4 by decide
    dsimp only
    rw [if_neg version,dif_neg room]
    simp only [parts,middle,last,readUint16_port]

-- An entry goes into a buffer at an offset when there is room for it, and comes back from there.
def PacksAt (e : KBucketEntry) (ba : List UInt8) (off : UInt32) : Prop :=
  if off.toNat + entrySize e.addr ≤ ba.length then
    ∃ packed, packBucketEntry e ba off = .done packed ∧ packed.length = ba.length ∧ packed.take off.toNat = ba.take off.toNat ∧
      packed.drop (off.toNat + entrySize e.addr) = ba.drop (off.toNat + entrySize e.addr) ∧
      unpackEntry packed off e.addr.ipVersion = .done ⟨e.addr,e.nodeId⟩
  else packBucketEntry e ba off = .threw ∧ unpackEntry ba off e.addr.ipVersion = .threw

-- The sum of two ints tells where there is not enough room.
def RoomChecked (e : KBucketEntry) (ba : List UInt8) (off : UInt32) : Prop :=
  ba.length < off.toNat + entrySize e.addr → ba.length < intSum off.toNat (entrySize e.addr)

theorem packBucketEntry_size (e : KBucketEntry) (ba : List UInt8) (off : UInt32) : packBucketEntry e ba off =
    if intSum off.toNat (entrySize e.addr) > ba.length then .threw
    else if off.toNat + entrySize e.addr ≤ ba.length then
      .done (ba.take off.toNat ++ entryBytes e.addr e.nodeId ++ ba.drop (off.toNat + entrySize e.addr))
    else .outside := rfl

theorem unpackEntry_size (ba : List UInt8) (off : UInt32) (addr : Address) : unpackEntry ba off addr.ipVersion =
    if intSum off.toNat (entrySize addr) > ba.length then .threw
    else match unpackBucketEntry ba off.toNat addr.ipVersion with
      | some node => .done node
      | none => .outside := rfl

theorem packs_iff (e : KBucketEntry) (ba : List UInt8) (off : UInt32) : PacksAt e ba off ↔ RoomChecked e ba off := by
  have sum := intSum_le off.toNat (entrySize e.addr)
  unfold PacksAt RoomChecked
  by_cases room : off.toNat + entrySize e.addr ≤ ba.length
  · have passes : ¬ intSum off.toNat (entrySize e.addr) > ba.length := by omega
    have front : (ba.take off.toNat).length = off.toNat := List.length_take_of_le (by omega)
    have size : (entryBytes e.addr e.nodeId).length = entrySize e.addr := entryBytes_length e.addr e.nodeId
    have behind : (ba.take off.toNat ++ entryBytes e.addr e.nodeId).length = off.toNat + entrySize e.addr := by
      rw [List.length_append,front,size]
    have length : (ba.take off.toNat ++ entryBytes e.addr e.nodeId ++ ba.drop (off.toNat + entrySize e.addr)).length = ba.length := by
      rw [List.length_append,behind,List.length_drop]
      omega
    rw [if_pos room]
    refine ⟨fun _ less => absurd less (by omega),fun _ => ⟨_,?_,length,?_,?_,?_⟩⟩
    · rw [packBucketEntry_size,if_neg passes,if_pos room]
    · rw [List.append_assoc,List.take_left' front]
    · exact List.drop_left' behind
    · have found := unpackBucketEntry_at e.addr e.nodeId (ba.take off.toNat) (ba.drop (off.toNat + entrySize e.addr))
      rw [front,← List.append_assoc (e.nodeId.hash),← List.append_assoc (ba.take off.toNat)] at found
      rw [unpackEntry_size,length,if_neg passes]
      unfold entryBytes
      rw [found]
  · rw [if_neg room]
    constructor
    · rintro ⟨packed,_⟩ _
      by_contra passes
      rw [packBucketEntry_size,if_neg passes,if_neg room] at packed
      cases packed
    · intro checked
      have refused := checked (by omega)
      exact ⟨by rw [packBucketEntry_size,if_pos refused],by rw [unpackEntry_size,if_pos refused]⟩

theorem table_persists (qn : QtNumber) (now : Nat) (ourId : Key) :
    (∀ (t : KBucketTable) (data : QByteArray), data.bytes = t.saveTable →
      ∃ t', (KBucketTable.new ourId).loadTable qn now data = some t' ∧ t'.buckets.map (·.content) = t.buckets.map (·.content)) ∧
    ∀ e ba off, PacksAt e ba off ↔ RoomChecked e ba off := by
  refine ⟨fun t data saved => ⟨_,KBucketTable.loadTable_saved qn now ourId t data saved,?_⟩,packs_iff⟩
  unfold KBucketTable.reloaded
  rw [List.map_map]
  exact List.map_congr_left fun b _ => reloaded_content now ourId b

-- A table of two buckets.
def splitTable : KBucketTable := ((KBucketTable.new Key.max).run 0 (KBucket.spreadEvents 24)).1

theorem split_table_persists : splitTable.buckets.map (·.entries.length) = [13,11] ∧
    ∃ (data : QByteArray) (t' : KBucketTable), data.bytes = splitTable.saveTable ∧
      (KBucketTable.new Key.min).loadTable QtNumber.plain 7 data = some t' ∧ t'.buckets.map (·.content) = splitTable.buckets.map (·.content) := by
  have written (bytes : List UInt8) (small : bytes.length < 2^31) : ∃ data : QByteArray, data.bytes = bytes := ⟨⟨bytes,small⟩,rfl⟩
  obtain ⟨data,saved⟩ := written splitTable.saveTable (by decide +kernel)
  obtain ⟨t',loaded,same⟩ := (table_persists QtNumber.plain 7 Key.min).1 splitTable data saved
  exact ⟨by decide +kernel,data,t',saved,loaded,same⟩

-- An offset that is negative as an int.
theorem far_offset_passes : ¬ PacksAt (KBucket.sampleEntry 1) [] 2147483648 := by
  rw [packs_iff]
  intro checked
  have above := checked (by decide)
  revert above
  decide

end KtorrentStream.Dht
