import Mathlib.Algebra.Order.BigOperators.Group.List
import KtorrentStream.Torrent.CreatorHashes
set_option autoImplicit true

namespace KtorrentStream.Torrent
open Util Bcodec Diskio

-- What a file system gives as the name of a file or a directory, without line breaks.
structure FileName (name : List Char) : Prop where
  some_ : name ≠ []
  separator : '/' ∉ name
  lineBreak : '\n' ∉ name
  parent : name ≠ ['.','.']

mutual
def Dir.Named : Dir → Prop
  | .mk files dirs => (∀ f ∈ files, FileName f.1) ∧ NamedDirs dirs
def NamedDirs : List (List Char × Dir) → Prop
  | [] => True
  | (name,d) :: rest => FileName name ∧ d.Named ∧ NamedDirs rest
end

def GoodPath (path : List Char) : Prop := ∀ part ∈ path.splitOn '/', FileName part

def Leading (dir : List Char) : Prop := dir = [] ∨ ∃ path, dir = path ++ ['/'] ∧ GoodPath path

theorem FileName.good (named : FileName name) : GoodPath name := by
  intro part mem
  rw [List.splitOn_eq_singleton named.separator,List.mem_singleton] at mem
  rw [mem]
  exact named

theorem Leading.path (leading : Leading dir) (named : FileName name) : GoodPath (dir ++ name) := by
  rcases leading with rfl | ⟨path,rfl,good⟩
  · exact named.good
  · intro part mem
    rw [List.append_assoc,List.singleton_append,List.splitOn_append_cons_self,List.mem_append] at mem
    rcases mem with front | last
    · exact good part front
    · exact named.good part last

theorem GoodPath.last (good : GoodPath path) : path.getLast? ≠ some '/' := by
  intro last
  obtain ⟨front,rfl⟩ := List.getLast?_eq_some_iff.mp last
  have empty : ([] : List Char) ∈ (front ++ ['/']).splitOn '/' := by
    rw [List.splitOn_append_cons_self]
    exact List.mem_append_right _ (List.mem_singleton.mpr rfl)
  exact (good [] empty).some_ rfl

theorem GoodPath.checked (good : GoodPath path) : checkPathForDirectoryTraversal path = true := by
  unfold checkPathForDirectoryTraversal
  rw [Bool.not_eq_true',List.contains_eq_mem,decide_eq_false_iff_not]
  exact fun mem => (good _ mem).parent rfl

theorem GoodPath.leading (good : GoodPath path) : Leading (withSeparator path) := by
  unfold withSeparator
  rw [if_neg good.last]
  exact .inr ⟨path,rfl,good⟩

mutual
theorem entries_good : ∀ (d : Dir) (dir : List Char), d.Named → Leading dir → ∀ e ∈ d.entries dir, GoodPath e.1
  | .mk files dirs,dir,named,leading,e,mem => by
    rw [Dir.Named] at named
    rw [Dir.entries,List.mem_append] at mem
    rcases mem with file | below
    · obtain ⟨f,here,rfl⟩ := List.mem_map.mp file
      exact leading.path (named.1 f here)
    · exact entriesOf_good dirs dir named.2 leading e below
theorem entriesOf_good : ∀ (dirs : List (List Char × Dir)) (dir : List Char), NamedDirs dirs → Leading dir →
    ∀ e ∈ entriesOf dir dirs, GoodPath e.1
  | [],_,_,_,e,mem => by
    rw [entriesOf] at mem
    cases mem
  | (name,d) :: rest,dir,named,leading,e,mem => by
    rw [NamedDirs] at named
    rw [entriesOf,List.mem_append] at mem
    rcases mem with here | later
    · exact entries_good d _ named.2.1 (leading.path named.1).leading e here
    · exact entriesOf_good rest dir named.2.2 leading e later
end

theorem loadPath_written (toUnicode : Option (List UInt8) → List UInt8 → List Char) (toUtf8 : List Char → List UInt8)
    (utf8 : ∀ s, toUnicode none (toUtf8 s) = s) (parts : List (List Char)) (named : ∀ part ∈ parts, '\n' ∉ part)
    (items : List BNode) (same : treeItems items = parts.map fun part => .str (toUtf8 part)) :
    loadPath toUnicode none items = .ok (['/'].intercalate parts) := by
  induction parts generalizing items with
  | nil =>
    cases items with
    | nil => rfl
    | cons n items => cases same
  | cons part parts more =>
    cases items with
    | nil => cases same
    | cons n items =>
      rw [treeItems,List.map_cons,List.cons.injEq] at same
      obtain ⟨off,len,rfl⟩ := tree_str same.1
      have rest := more (fun p mem => named p (List.mem_cons_of_mem _ mem)) items same.2
      have kept : part.filter (· ≠ '\n') = part := by
        apply List.filter_eq_self.mpr
        intro char mem
        exact decide_eq_true fun same => named part List.mem_cons_self (same ▸ mem)
      unfold loadPath
      simp only [valueOf,getByteArray,rest,utf8,kept]
      cases parts with
      | nil =>
        cases items with
        | nil => simp
        | cons n items => cases same.2
      | cons next parts =>
        cases items with
        | nil => cases same.2
        | cons n items => simp [List.intercalate_cons_cons]

namespace TorrentCreator

section Tree
variable (env : Surroundings) (c : TorrentCreator)

def fileTree (f : CreatedFile) : BTree :=
  .dict [(ascii "length",.int f.content.length),(ascii "path",.list ((f.path.splitOn '/').map fun part => .str (env.toUtf8 part)))]

def infoFields (pieces : List UInt8) : List (List UInt8 × BTree) :=
  [(ascii "files",.list (c.files.map (fileTree env))),(ascii "name",.str (env.toUtf8 c.name)),(ascii "piece length",.int c.chunkSize),
    (ascii "pieces",.str pieces)] ++ (if c.priv then [(ascii "private",.int 1)] else [])

def announceFields : List (List UInt8 × BTree) :=
  [(ascii "announce",.str (env.toUtf8 (c.trackers.headD [])))] ++
    (if c.trackers.length > 1 then [(ascii "announce-list",.list (c.trackers.map fun t => .list [.str (env.toUtf8 t)]))] else [])

def commentFields : List (List UInt8 × BTree) := if c.comments.length > 0 then [(ascii "comment",.str (env.toUtf8 c.comments))] else []

def seedFields : List (List UInt8 × BTree) :=
  match c.webseeds with
  | [] => []
  | [u] => [(ascii "url-list",.str (env.toUtf8 u))]
  | us => [(ascii "url-list",.list (us.map fun u => .str (env.toUtf8 u)))]

def torrentFields (pieces : List UInt8) : List (List UInt8 × BTree) :=
  announceFields env c ++ commentFields env c ++
    [(ascii "created by",.str env.version),(ascii "creation date",.int env.now),(ascii "info",.dict (infoFields env c pieces))] ++ seedFields env c

end Tree

section Written
variable {env : Surroundings} {c : TorrentCreator}

-- The bytes that calls write.
def written (calls : List Call) : List UInt8 := calls.flatMap Call.bytes

@[simp] theorem written_append (a b : List Call) : written (a ++ b) = written a ++ written b := List.flatMap_append

theorem callsEntries_append (a b : List (List UInt8 × BTree)) : callsEntries (a ++ b) = callsEntries a ++ callsEntries b := by
  induction a with
  | nil => rfl
  | cons e a more => simp [callsEntries,more]

theorem callsItems_flatMap (f : α → BTree) (xs : List α) : callsItems (xs.map f) = xs.flatMap fun x => (f x).calls := by
  induction xs with
  | nil => rfl
  | cons x xs more => simp [callsItems,more]

theorem strings_calls (xs : List (List Char)) : callsItems (xs.map fun x => .str (env.toUtf8 x)) = xs.map (string env) := by
  rw [callsItems_flatMap]
  simp only [BTree.calls]
  rw [← List.map_eq_flatMap]
  rfl

theorem fileTree_calls (f : CreatedFile) : (fileTree env f).calls = saveFile env f := by
  unfold fileTree saveFile
  simp only [BTree.calls,callsEntries,strings_calls,Int.toNat_natCast]
  simp [text,number]

theorem announce_calls (tracked : c.decentralized = false) : callsEntries (announceFields env c) = c.saveAnnounce env := by
  unfold announceFields saveAnnounce
  rw [tracked,callsEntries_append]
  split
  · simp [callsEntries,BTree.calls,callsItems_flatMap,callsItems,text,string]
  · simp [callsEntries,BTree.calls,text,string]

theorem comment_calls : callsEntries (commentFields env c) = if c.comments.length > 0 then [text "comment",string env c.comments] else [] := by
  unfold commentFields
  split <;> rfl

theorem seed_calls : callsEntries (seedFields env c) = c.saveWebSeeds env := by
  unfold seedFields saveWebSeeds
  match c.webseeds with
  | [] => rfl
  | [u] => rfl
  | u :: v :: us =>
    have items := @strings_calls env (u :: v :: us)
    simp only [callsEntries,BTree.calls,items,List.append_nil]
    rfl

theorem info_bytes (pieces : List UInt8) : written (BTree.dict (infoFields env c pieces)).calls = written (c.saveInfo env pieces) := by
  have files : callsItems (c.files.map (fileTree env)) = c.files.flatMap (saveFile env) := by
    rw [callsItems_flatMap]
    congr 1
    funext f
    exact fileTree_calls f
  unfold infoFields saveInfo
  split
  · simp [written,BTree.calls,callsEntries,files,text,string,number,Call.bytes,lengthText]
  · simp [written,BTree.calls,callsEntries,files,text,string,number,Call.bytes,lengthText]

theorem torrent_bytes (tracked : c.decentralized = false) (pieces : List UInt8) :
    encode (c.torrentCalls env pieces) = written (BTree.dict (torrentFields env c pieces)).calls := by
  have info := @info_bytes env c pieces
  rw [encode_eq]
  show written (c.torrentCalls env pieces) = _
  unfold torrentCalls torrentFields
  rw [tracked]
  simp only [BTree.calls,callsEntries_append,callsEntries,announce_calls tracked,comment_calls,seed_calls,written_append,← info]
  simp [written,text,number]

end Written

theorem field_append (a b : List (List UInt8 × BTree)) (key : String) : field (a ++ b) key = (field a key).or (field b key) := by
  unfold field
  rw [List.find?_append]
  cases a.find? fun e => decide (e.1.takeWhile (· ≠ 0) = ascii key) <;> rfl

section Fields
variable {env : Surroundings} {c : TorrentCreator} {pieces : List UInt8}

-- The keys that load looks for besides the announce URL.
def searched : List String := ["encoding","nodes","info","announce-list","url-list"]

theorem comment_field (key : String) (mem : key ∈ searched) : field (commentFields env c) key = none := by
  unfold commentFields
  simp only [searched,List.mem_cons,List.not_mem_nil,or_false] at mem
  rcases mem with rfl | rfl | rfl | rfl | rfl <;> split <;> rfl

theorem announce_field (key : String) (mem : key ∈ searched) (other : key ≠ "announce-list") : field (announceFields env c) key = none := by
  unfold announceFields
  simp only [searched,List.mem_cons,List.not_mem_nil,or_false] at mem
  rcases mem with rfl | rfl | rfl | rfl | rfl
  · split <;> rfl
  · split <;> rfl
  · split <;> rfl
  · exact absurd rfl other
  · split <;> rfl

theorem seed_field (key : String) (mem : key ∈ searched) (other : key ≠ "url-list") : field (seedFields env c) key = none := by
  unfold seedFields
  simp only [searched,List.mem_cons,List.not_mem_nil,or_false] at mem
  rcases mem with rfl | rfl | rfl | rfl | rfl
  · split <;> rfl
  · split <;> rfl
  · split <;> rfl
  · split <;> rfl
  · exact absurd rfl other

theorem field_parts (key : String) : field (torrentFields env c pieces) key =
    (((field (announceFields env c) key).or (field (commentFields env c) key)).or
      (field [(ascii "created by",.str env.version),(ascii "creation date",.int env.now),(ascii "info",.dict (infoFields env c pieces))] key)).or
      (field (seedFields env c) key) := by
  unfold torrentFields
  rw [field_append,field_append,field_append]

theorem field_announce : field (torrentFields env c pieces) "announce" = some (.str (env.toUtf8 (c.trackers.headD []))) := rfl

theorem field_none (key : String) (mem : key = "encoding" ∨ key = "nodes") : field (torrentFields env c pieces) key = none := by
  rcases mem with rfl | rfl
  · rw [field_parts,announce_field _ (by decide) (by decide),comment_field _ (by decide),seed_field _ (by decide) (by decide)]
    rfl
  · rw [field_parts,announce_field _ (by decide) (by decide),comment_field _ (by decide),seed_field _ (by decide) (by decide)]
    rfl

theorem field_info : field (torrentFields env c pieces) "info" = some (.dict (infoFields env c pieces)) := by
  rw [field_parts,announce_field _ (by decide) (by decide),comment_field _ (by decide)]
  rfl

theorem field_announceList : field (torrentFields env c pieces) "announce-list" =
    if c.trackers.length > 1 then some (.list (c.trackers.map fun t => .list [.str (env.toUtf8 t)])) else none := by
  rw [field_parts,comment_field _ (by decide),seed_field _ (by decide) (by decide)]
  unfold announceFields
  split <;> rfl

theorem field_urlList : field (torrentFields env c pieces) "url-list" = field (seedFields env c) "url-list" := by
  rw [field_parts,announce_field _ (by decide) (by decide),comment_field _ (by decide)]
  rfl

end Fields

theorem checkAll_ok {checks : List (Except LoadError Unit)} (all : ∀ check ∈ checks, check = .ok ()) : checkAll checks = .ok () := by
  induction checks with
  | nil => rfl
  | cons check checks more =>
    rw [all check List.mem_cons_self]
    exact more fun other mem => all other (List.mem_cons_of_mem _ mem)

theorem strings_read {text : α → List UInt8} (xs : List α) (items : List BNode) (same : treeItems items = xs.map fun x => .str (text x)) :
    ∀ check ∈ items.map (fun url => getString (valueOf url)), check = .ok () := by
  induction xs generalizing items with
  | nil =>
    cases items with
    | nil => exact fun check mem => nomatch mem
    | cons n items => cases same
  | cons x xs more =>
    cases items with
    | nil => cases same
    | cons n items =>
      rw [treeItems,List.map_cons,List.cons.injEq] at same
      obtain ⟨off,len,rfl⟩ := tree_str same.1
      intro check mem
      rcases List.mem_cons.mp mem with rfl | later
      · rfl
      · exact more items same.2 check later

theorem tiers_read (text : List Char → List UInt8) (trackers : List (List Char)) (items : List BNode)
    (same : treeItems items = trackers.map fun t => .list [.str (text t)]) (plain : PlainItems items) :
    ∀ check ∈ items.flatMap loadTier, check = .ok () := by
  induction trackers generalizing items with
  | nil =>
    cases items with
    | nil => exact fun check mem => nomatch mem
    | cons n items => cases same
  | cons t trackers more =>
    cases items with
    | nil => cases same
    | cons n items =>
      rw [treeItems,List.map_cons,List.cons.injEq] at same
      obtain ⟨urls,off,len,rfl,tier,_⟩ := tree_list same.1 plain.1
      intro check mem
      rw [List.flatMap_cons,List.mem_append] at mem
      rcases mem with here | later
      · exact strings_read [t] urls tier check here
      · exact more items same.2 plain.2 check later

section Loading
variable {env : Surroundings} {c : TorrentCreator} {pieces : List UInt8} {dict : Entries}

theorem loadBefore_written (same : treeEntries dict = torrentFields env c pieces) (plain : PlainEntries dict) : loadBefore dict = .ok none := by
  have encoding := getValue_none same plain (field_none "encoding" (.inl rfl))
  have nodes := getList_none same plain (.inl (field_none "nodes" (.inr rfl)))
  have announce := getValue_str same plain field_announce
  unfold loadBefore
  rw [encoding,nodes,announce]
  rfl

theorem loadAfter_written (same : treeEntries dict = torrentFields env c pieces) (plain : PlainEntries dict) : loadAfter dict = .ok () := by
  have tiers : ∀ check ∈ ((BDictNode.getList dict "announce-list").getD []).flatMap loadTier, check = .ok () := by
    have there := @field_announceList env c pieces
    split at there
    · obtain ⟨items,list,tree,ints⟩ := getList_some same plain there
      rw [list]
      exact tiers_read env.toUtf8 c.trackers items tree ints
    · rw [getList_none same plain (.inl there)]
      exact fun check mem => nomatch mem
  have there := @field_urlList env c pieces
  unfold seedFields at there
  unfold loadAfter
  apply checkAll_ok
  intro check mem
  rcases List.mem_append.mp mem with tier | seed
  · exact tiers check tier
  · match seeds : c.webseeds with
    | [] =>
      rw [seeds] at there
      rw [getList_none same plain (.inl there),getValue_none same plain there] at seed
      cases seed
    | [u] =>
      rw [seeds] at there
      rw [getList_none same plain (.inr ⟨_,there⟩),getValue_str same plain there] at seed
      exact List.mem_singleton.mp seed
    | u :: v :: us =>
      rw [seeds] at there
      obtain ⟨items,list,tree,_⟩ := getList_some same plain there
      rw [list] at seed
      exact strings_read (u :: v :: us) items tree check seed

-- What is read of a file: its path and its length.
theorem file_read {f : CreatedFile} {n : BNode} (good : GoodPath f.path) (same : n.tree = fileTree env f) (plain : n.Plain) :
    ∃ d off len ln, n = .dict d off len ∧ BDictNode.getList d "path" = some ln ∧ loadPath env.toUnicode none ln = .ok f.path ∧
      getInt64 (BDictNode.getValue d "length") = .ok f.content.length := by
  obtain ⟨d,off,len,rfl,entries,ints⟩ := tree_dict same plain
  obtain ⟨ln,list,items,_⟩ := getList_some entries ints
    (show field _ "path" = some (.list ((f.path.splitOn '/').map fun part => .str (env.toUtf8 part))) from rfl)
  have length := getInt64_written entries ints (show field _ "length" = some (.int f.content.length) from rfl)
  refine ⟨d,off,len,ln,rfl,list,?_,length⟩
  have path := loadPath_written env.toUnicode env.toUtf8 env.utf8 (f.path.splitOn '/') (fun part mem => (good part mem).lineBreak) ln items
  rw [List.intercalate_splitOn] at path
  exact path

theorem files_read (files : List CreatedFile) (good : ∀ f ∈ files, GoodPath f.path) (items : List BNode)
    (same : treeItems items = files.map (fileTree env)) (plain : PlainItems items) :
    lengthsOf env.toUnicode none items = .ok (files.map fun f => (f.content.length : Int)) ∧
    filePaths env.toUnicode none items = files.map CreatedFile.path := by
  induction files generalizing items with
  | nil =>
    cases items with
    | nil => exact ⟨rfl,rfl⟩
    | cons n items => cases same
  | cons f files more =>
    cases items with
    | nil => cases same
    | cons n items =>
      rw [treeItems,List.map_cons,List.cons.injEq] at same
      have here := good f List.mem_cons_self
      obtain ⟨lengths,paths⟩ := more (fun f mem => good f (List.mem_cons_of_mem _ mem)) items same.2 plain.2
      obtain ⟨d,off,len,ln,rfl,list,path,length⟩ := file_read here same.1 plain.1
      have read : readFile env.toUnicode none (.dict d off len) = .ok (some (f.content.length : Int)) := by
        unfold readFile
        simp only [list,path,length]
        rw [if_neg here.last,here.checked]
        rfl
      constructor
      · unfold lengthsOf
        rw [read,lengths]
        rfl
      · unfold filePaths
        simp only [list,path]
        rw [if_neg here.last,paths]
        rfl

theorem loadInfo_written {info : Entries} (good : ∀ f ∈ c.files, GoodPath f.path) (chunked : 0 < c.chunkSize) (fits : c.chunkSize < 2147483648)
    (same : treeEntries info = infoFields env c pieces) (plain : PlainEntries info)
    (count : countChunks (wrapped 0 (c.files.map fun f => (f.content.length : Int))) c.chunkSize = uint32 (Torrent.hashes pieces).length) :
    ∃ tor, loadInfo env.toUnicode none info = .ok tor ∧ tor.chunkSize = c.chunkSize ∧ tor.hashPieces = Torrent.hashes pieces ∧
      tor.files = built c.chunkSize 0 (c.files.map fun f => (f.content.length : Int)) := by
  have pieceLength := getInt64_written same plain (show field _ "piece length" = some (.int c.chunkSize) from rfl)
  have name := getValue_str same plain (show field _ "name" = some (.str (env.toUtf8 c.name)) from rfl)
  have string := getValue_str same plain (show field _ "pieces" = some (.str pieces) from rfl)
  obtain ⟨items,list,tree,ints⟩ := getList_some same plain (show field _ "files" = some (.list (c.files.map (fileTree env))) from rfl)
  have size : toUint64 (c.chunkSize : Int) = c.chunkSize := by
    have := toUint64_of_nonneg (show (0 : Int) ≤ c.chunkSize by omega) (by omega)
    omega
  have other : c.chunkSize ≠ 0 := by omega
  obtain ⟨lengths,_⟩ := files_read c.files good items tree ints
  unfold loadInfo loadSizes loadHash
  simp only [pieceLength,size,list,loadFiles_eq other,lengths,string,name,getByteArray,List.nil_append]
  rw [if_neg other,if_neg (fun wrong => wrong count)]
  exact ⟨_,rfl,rfl,rfl,rfl⟩

end Loading

theorem pieces_inside (env : Surroundings) (c : TorrentCreator) : ∃ front back, ∀ pieces,
    encode (c.torrentCalls env pieces) = front ++ (Call.writeData pieces).bytes ++ back := by
  refine ⟨written ([.beginDict] ++ c.saveAnnounce env ++ (if c.comments.length > 0 then [text "comment",string env c.comments] else []) ++
      [text "created by",.writeByteArray env.version,text "creation date",number env.now,text "info"] ++
      [.beginDict,text "files",.beginList] ++ c.files.flatMap (saveFile env) ++
      [.finish,text "name",string env c.name,text "piece length",number c.chunkSize,text "pieces"]),
    written ((if c.priv then [text "private",number 1] else []) ++ [.finish] ++
      (if c.decentralized then [text "nodes",.beginList] ++ c.trackers.flatMap (node env) ++ [.finish] else []) ++ c.saveWebSeeds env ++ [.finish]),?_⟩
  intro pieces
  have one : (Call.writeData pieces).bytes = written [.writeData pieces] := by simp [written]
  rw [encode_eq,one,← written_append,← written_append]
  show written (c.torrentCalls env pieces) = _
  unfold torrentCalls saveInfo
  simp only [List.append_assoc,List.cons_append,List.nil_append]

-- The size of the torrent with that many chunks, whatever their hashes are.
def torrentSize (env : Surroundings) (c : TorrentCreator) (chunks : Nat) : Nat := (encode (c.torrentCalls env (List.replicate (20 * chunks) 0))).length

theorem torrentSize_eq (env : Surroundings) (c : TorrentCreator) {pieces : List UInt8} (length : pieces.length = 20 * chunks) :
    (encode (c.torrentCalls env pieces)).length = torrentSize env c chunks := by
  obtain ⟨front,back,all⟩ := pieces_inside env c
  unfold torrentSize
  rw [all,all]
  simp only [Call.bytes,List.length_append,List.length_replicate,length]

theorem torrentSize_ge (env : Surroundings) (c : TorrentCreator) (chunks : Nat) : 20 * chunks ≤ torrentSize env c chunks := by
  obtain ⟨front,back,all⟩ := pieces_inside env c
  unfold torrentSize
  rw [all]
  simp only [Call.bytes,List.length_append,List.length_replicate]
  omega

theorem hashes_flatten (parts : List (List UInt8)) (all : ∀ part ∈ parts, part.length = 20) :
    parts.flatten.length = 20 * parts.length ∧ Torrent.hashes parts.flatten = parts := by
  have length : parts.flatten.length = 20 * parts.length := by
    induction parts with
    | nil => rfl
    | cons part parts more =>
      rw [List.flatten_cons,List.length_append,List.length_cons,all part List.mem_cons_self,more fun p mem => all p (List.mem_cons_of_mem _ mem)]
      omega
  refine ⟨length,?_⟩
  unfold Torrent.hashes
  rw [length,show (20 * parts.length + 19) / 20 = parts.length by omega]
  clear length
  induction parts with
  | nil => rfl
  | cons part parts more =>
    have here := all part List.mem_cons_self
    rw [List.length_cons,List.range_succ_eq_map,List.map_cons,List.map_map]
    congr 1
    · rw [Nat.mul_zero,List.drop_zero,List.flatten_cons,← here,List.take_left]
    · conv_rhs => rw [← more fun p mem => all p (List.mem_cons_of_mem _ mem)]
      apply List.map_congr_left
      intro i _
      show ((part ++ parts.flatten).drop (20 * (i + 1))).take 20 = _
      rw [List.drop_append,List.drop_eq_nil_of_le (by omega),List.nil_append,here,show 20 * (i + 1) - 20 = 20 * i by omega]

theorem built_sizes (chunkSize totalSize : Nat) (lengths : List Nat) (small : ∀ len ∈ lengths, len < 18446744073709551616) :
    (built chunkSize totalSize (lengths.map fun (len : Nat) => (len : Int))).map TorrentFile.size = lengths := by
  induction lengths generalizing totalSize with
  | nil => rfl
  | cons len lengths more =>
    have size : toUint64 (len : Int) = len := by
      have := small len List.mem_cons_self
      have := toUint64_of_nonneg (show (0 : Int) ≤ len by omega) (by omega)
      omega
    rw [List.map_cons,built,List.map_cons,more _ fun l mem => small l (List.mem_cons_of_mem _ mem)]
    show toUint64 (len : Int) :: lengths = _
    rw [size]

-- The files, the chunk size and the hashes of the data, as they are loaded.
structure SameData (env : Surroundings) (entries : List (List Char × List UInt8)) (chunkSize : Nat) (data : QByteArray) (tor : Torrent) : Prop where
  paths : loadPaths env.qt env.toUnicode data = entries.map Prod.fst
  sizes : tor.files.map TorrentFile.size = entries.map fun e => e.2.length
  chunks : tor.chunkSize = chunkSize
  count : tor.hashPieces.length = ((whole entries).length + chunkSize - 1) / chunkSize
  hashes : ∀ i < tor.hashPieces.length, tor.hashPieces[i]? =
    some (env.generate (((whole entries).take (min ((i + 1) * chunkSize) (whole entries).length)).drop (i * chunkSize)))

-- The torrent that is hashed and saved is loaded with the same data.
def Loads (env : Surroundings) (entries : List (List Char × List UInt8)) (chunkSize : Nat) (c : TorrentCreator) : Prop :=
  ∃ hashed data tor, c.run env = some hashed ∧ hashed.saveTorrent env = some data.bytes ∧ load env.qt env.toUnicode data = .ok tor ∧
    SameData env entries chunkSize data tor

section
variable {env : Surroundings} {t : Files} {entries : List (List Char × List UInt8)} {c : TorrentCreator}

theorem whole_length (sizes : t.sizes = entries.map fun e => e.2.length) : (whole entries).length = t.totalSize := by
  unfold whole Files.totalSize
  rw [sizes,List.length_flatten,List.map_map]
  rfl

theorem made_map (f : List Char × List UInt8 → α) (g : CreatedFile → α) (same : ∀ e file, g ⟨e.1,e.2,file⟩ = f e) (k : Nat)
    (es : List (List Char × List UInt8)) : (made t k es).map g = es.map f := by
  induction es generalizing k with
  | nil => rfl
  | cons e es more => rw [made,List.map_cons,List.map_cons,same,more]

theorem chunkBytes_eq (fits : t.chunkSize < 2147483648) (sizes : t.sizes = entries.map fun e => e.2.length) (inside : i < t.numChunks) :
    chunkBytes t entries i = ((whole entries).take (min ((i + 1) * t.chunkSize) (whole entries).length)).drop (i * t.chunkSize) := by
  have before := Files.lt_numChunks.mp inside
  unfold chunkBytes
  rw [MultiFileCache.chunkLen_eq (by omega) inside,List.drop_take,whole_length sizes,Nat.succ_mul]
  congr 1
  omega

theorem saveTorrent_eq (env : Surroundings) (fits : 20 * t.numChunks < 4294967296) (built : Built t entries c) :
    ∃ pieces, (hashedUpTo env t entries c t.numChunks).saveTorrent env = some (encode (c.torrentCalls env pieces)) ∧
      pieces.length = 20 * t.numChunks ∧
      Torrent.hashes pieces = (List.range t.numChunks).map fun i => env.generate (chunkBytes t entries i) := by
  have all : ∀ hash ∈ (List.range t.numChunks).map fun i => env.generate (chunkBytes t entries i), hash.length = 20 := by
    intro hash mem
    obtain ⟨i,_,rfl⟩ := List.mem_map.mp mem
    exact env.generate_length _
  obtain ⟨length,parts⟩ := hashes_flatten _ all
  rw [List.length_map,List.length_range] at length
  refine ⟨_,?_,length,parts⟩
  have count : (hashedUpTo env t entries c t.numChunks).numChunks = t.numChunks := built.numChunks
  unfold saveTorrent savePieces
  rw [count,uint32_of_lt (by omega),if_pos rfl]
  show some (encode ((hashedUpTo env t entries c t.numChunks).torrentCalls env _)) = _
  rw [show (hashedUpTo env t entries c t.numChunks).hashes = (List.range t.numChunks).map fun i => env.generate (chunkBytes t entries i) from rfl,
    List.take_of_length_le (by rw [List.length_map,List.length_range])]
  rfl

theorem naturalItems_map (f : α → BTree) (xs : List α) (all : ∀ x ∈ xs, (f x).Natural) : NaturalItems (xs.map f) := by
  induction xs with
  | nil => exact trivial
  | cons x xs more => exact ⟨all x List.mem_cons_self,more fun y mem => all y (List.mem_cons_of_mem _ mem)⟩

theorem naturalEntries_append {a b : List (List UInt8 × BTree)} (front : NaturalEntries a) (back : NaturalEntries b) : NaturalEntries (a ++ b) := by
  induction a with
  | nil => exact back
  | cons e a more => exact ⟨front.1,more front.2⟩

theorem tree_natural (lengths : ∀ f ∈ c.files, f.content.length < 9223372036854775808) (fits : c.chunkSize < 2147483648) (pieces : List UInt8) :
    (BTree.dict (torrentFields env c pieces)).Natural := by
  have strings : ∀ xs : List (List Char), NaturalItems (xs.map fun x => .str (env.toUtf8 x)) := fun xs => naturalItems_map _ xs fun _ _ => trivial
  have files : NaturalItems (c.files.map (fileTree env)) := naturalItems_map _ _ fun f mem =>
    ⟨⟨by omega,by have := lengths f mem; omega⟩,strings _,trivial⟩
  have info : NaturalEntries (infoFields env c pieces) := by
    refine naturalEntries_append ⟨files,trivial,⟨by omega,by omega⟩,trivial,trivial⟩ ?_
    split
    · exact ⟨⟨by decide,by decide⟩,trivial⟩
    · trivial
  have announce : NaturalEntries (announceFields env c) := by
    refine naturalEntries_append ⟨trivial,trivial⟩ ?_
    split
    · exact ⟨naturalItems_map _ _ fun _ _ => ⟨trivial,trivial⟩,trivial⟩
    · trivial
  have comment : NaturalEntries (commentFields env c) := by
    unfold commentFields
    split
    · exact ⟨trivial,trivial⟩
    · trivial
  have seeds : NaturalEntries (seedFields env c) := by
    unfold seedFields
    match c.webseeds with
    | [] => exact trivial
    | [u] => exact ⟨trivial,trivial⟩
    | u :: v :: us => exact ⟨strings (u :: v :: us),trivial⟩
  have time := env.time
  exact naturalEntries_append (naturalEntries_append (naturalEntries_append announce comment) ⟨trivial,⟨by omega,by omega⟩,info,trivial⟩) seeds

theorem load_written (good : ∀ f ∈ c.files, GoodPath f.path) (lengths : ∀ f ∈ c.files, f.content.length < 9223372036854775808)
    (tracked : c.decentralized = false) (chunked : 0 < c.chunkSize) (fits : c.chunkSize < 2147483648) {pieces : List UInt8}
    (count : countChunks (wrapped 0 (c.files.map fun f => (f.content.length : Int))) c.chunkSize = uint32 (Torrent.hashes pieces).length)
    (data : QByteArray) (bytes : data.bytes = encode (c.torrentCalls env pieces)) :
    loadPaths env.qt env.toUnicode data = c.files.map CreatedFile.path ∧
    ∃ tor, load env.qt env.toUnicode data = .ok tor ∧ tor.chunkSize = c.chunkSize ∧ tor.hashPieces = Torrent.hashes pieces ∧
      tor.files = Torrent.built c.chunkSize 0 (c.files.map fun f => (f.content.length : Int)) := by
  rw [torrent_bytes tracked] at bytes
  have short : (written (BTree.dict (torrentFields env c pieces)).calls).length < 2 ^ 31 := by
    rw [← bytes]
    exact data.size_lt
  have sized := natural_encodable _ (tree_natural lengths fits pieces) short
  have all : data.bytes = written (BTree.dict (torrentFields env c pieces)).calls ++ [] := by
    rw [List.append_nil]
    exact bytes
  obtain ⟨node,decoded,tree,plain⟩ := decode_encoded env.qt _ sized data all
  obtain ⟨dict,off,len,rfl,same,ints⟩ := tree_dict tree plain
  obtain ⟨info,found,infoSame,infoInts⟩ := getDict_some same ints field_info
  have before := loadBefore_written same ints
  have after := loadAfter_written same ints
  obtain ⟨items,list,fileTrees,fileInts⟩ := getList_some infoSame infoInts (show field _ "files" = some (.list (c.files.map (fileTree env))) from rfl)
  obtain ⟨tor,loaded,rest⟩ := loadInfo_written good chunked fits infoSame infoInts count
  constructor
  · unfold loadPaths
    simp only [decoded,before,found,list]
    exact (files_read c.files good items fileTrees fileInts).2
  · refine ⟨tor,?_,rest⟩
    unfold load
    simp only [decoded,before,found,loaded,after]

theorem chunkCount_eq (total : Nat) {chunkSize : Nat} (positive : 0 < chunkSize) : chunkCount total chunkSize = (total + chunkSize - 1) / chunkSize := by
  have parts := Nat.div_add_mod total chunkSize
  have less := Nat.mod_lt total positive
  unfold chunkCount
  split
  · symm
    apply Nat.div_eq_of_lt_le
    · rw [Nat.succ_mul,Nat.mul_comm]
      omega
    · rw [Nat.succ_mul,Nat.succ_mul,Nat.mul_comm]
      omega
  · symm
    apply Nat.div_eq_of_lt_le
    · rw [Nat.mul_comm]
      omega
    · rw [Nat.succ_mul,Nat.mul_comm]
      omega

theorem made_wrapped (sizes : t.sizes = entries.map fun e => e.2.length) (built : Built t entries c) :
    wrapped 0 (c.files.map fun f => (f.content.length : Int)) = t.totalSize := by
  have long : t.totalSize < 9223372036854775808 := t.long
  have list : c.files.map (fun f => (f.content.length : Int)) = t.sizes.map fun (len : Nat) => (len : Int) := by
    rw [built.files,made_map (fun e => (e.2.length : Int)) _ (fun e file => rfl),sizes,List.map_map]
    rfl
  have sum : (t.sizes.map fun (len : Nat) => (len : Int)).sum = (t.totalSize : Int) := by
    unfold Files.totalSize
    induction t.sizes with
    | nil => rfl
    | cons len sizes more => rw [List.map_cons,List.sum_cons,List.sum_cons,more,Int.natCast_add]
  have nonneg : ∀ len ∈ t.sizes.map fun (len : Nat) => (len : Int), 0 ≤ len := by
    intro len mem
    obtain ⟨n,_,rfl⟩ := List.mem_map.mp mem
    omega
  have total := wrapped_eq 0 nonneg (by omega)
  rw [list]
  omega

theorem loads_of_built (tracked : c.decentralized = false) (sizes : t.sizes = entries.map fun e => e.2.length) (built : Built t entries c)
    (good : ∀ e ∈ entries, GoodPath e.1) (fits : t.chunkSize < 2147483648) (short : torrentSize env c t.numChunks < 2147483648) :
    Loads env entries t.chunkSize c := by
  have enough := torrentSize_ge env c t.numChunks
  obtain ⟨pieces,saved,length,parts⟩ := saveTorrent_eq env (show 20 * t.numChunks < 4294967296 by omega) built
  have paths : c.files.map CreatedFile.path = entries.map Prod.fst := by
    rw [built.files]
    exact made_map Prod.fst CreatedFile.path (fun _ _ => rfl) 0 entries
  have contents : c.files.map (fun f => f.content.length) = t.sizes := by
    rw [built.files,sizes]
    exact made_map (fun e => e.2.length) _ (fun _ _ => rfl) 0 entries
  have hashCount : (Torrent.hashes pieces).length = t.numChunks := by rw [parts,List.length_map,List.length_range]
  have long : t.totalSize < 9223372036854775808 := t.long
  have lengths : ∀ f ∈ c.files, f.content.length < 9223372036854775808 := by
    intro f mem
    have part : f.content.length ∈ t.sizes := contents ▸ List.mem_map_of_mem (f := fun f => f.content.length) mem
    exact Nat.lt_of_le_of_lt (List.le_sum_of_mem part) t.long
  have goodFiles : ∀ f ∈ c.files, GoodPath f.path := by
    intro f mem
    obtain ⟨e,here,same⟩ := List.mem_map.mp (paths ▸ List.mem_map_of_mem (f := CreatedFile.path) mem)
    exact same ▸ good e here
  have chunks := built.chunkSize
  have count : countChunks (wrapped 0 (c.files.map fun f => (f.content.length : Int))) c.chunkSize = uint32 (Torrent.hashes pieces).length := by
    rw [made_wrapped sizes built,chunks,numChunks_eq,hashCount,uint32_of_lt (by omega)]
  let data : QByteArray := ⟨encode (c.torrentCalls env pieces),by rw [torrentSize_eq env c length]; exact short⟩
  obtain ⟨loadedPaths,tor,loaded,size,hashPieces,files⟩ := load_written goodFiles lengths tracked (by rw [chunks]; exact t.chunked)
    (by rw [chunks]; exact fits) count data rfl
  refine ⟨_,data,tor,run_eq fits sizes built,saved,loaded,loadedPaths.trans paths,?_,size.trans chunks,?_,?_⟩
  · have ints : c.files.map (fun f => (f.content.length : Int)) = (c.files.map fun f => f.content.length).map fun (len : Nat) => (len : Int) := by
      rw [List.map_map]
      rfl
    rw [files,ints,built_sizes _ _ _ ?_,contents,sizes]
    intro len mem
    obtain ⟨f,here,rfl⟩ := List.mem_map.mp mem
    have := lengths f here
    omega
  · rw [hashPieces,hashCount,← chunkCount_eq _ t.chunked,whole_length sizes]
    rfl
  · intro i inside
    rw [hashPieces,hashCount] at inside
    rw [hashPieces,parts,List.getElem?_map,List.getElem?_range inside,Option.map_some,chunkBytes_eq fits sizes inside]

end

theorem exists_files (entries : List (List Char × List UInt8)) {chunkSize : Nat} (chunked : 0 < chunkSize) (fits : chunkSize < 2147483648)
    (few : ((whole entries).length + chunkSize - 1) / chunkSize < 2147483647) :
    ∃ t : Files, t.chunkSize = chunkSize ∧ t.sizes = (entries.map fun e => e.2.length) ∧
      t.numChunks = ((whole entries).length + chunkSize - 1) / chunkSize := by
  have length : (whole entries).length = (entries.map fun e => e.2.length).sum := by
    unfold whole
    rw [List.length_flatten,List.map_map]
    rfl
  rw [← chunkCount_eq _ chunked,length] at few ⊢
  have quotient : (entries.map fun e => e.2.length).sum / chunkSize < 2147483647 := by
    unfold chunkCount at few
    split at few <;> omega
  have less := (Nat.div_lt_iff_lt_mul chunked).mp quotient
  have bound : 2147483647 * chunkSize ≤ 2147483647 * 2147483648 := Nat.mul_le_mul_left _ (Nat.le_of_lt fits)
  exact ⟨⟨chunkSize,entries.map fun e => e.2.length,chunked,by omega,quotient⟩,rfl,rfl,rfl⟩

-- Every torrent that fits a QByteArray is loaded again.
theorem created_loads (env : Surroundings) (target : Dir) (named : target.Named) (trackers webseeds : List (List Char)) (name comments : List Char)
    (priv : Bool) (positive : 0 < cs) (fits : cs * 1024 < 2147483648)
    (short : torrentSize env (new target trackers webseeds cs name comments priv false)
      (((whole (target.entries [])).length + cs * 1024 - 1) / (cs * 1024)) < 2147483648) :
    Loads env (target.entries []) (cs * 1024) (new target trackers webseeds cs name comments priv false) := by
  have enough := torrentSize_ge env (new target trackers webseeds cs name comments priv false)
    (((whole (target.entries [])).length + cs * 1024 - 1) / (cs * 1024))
  obtain ⟨t,chunks,sizes,count⟩ := exists_files (target.entries []) (show 0 < cs * 1024 by omega) fits (by omega)
  rw [← count] at short
  rw [← chunks]
  exact loads_of_built rfl sizes (new_built target sizes chunks) (entries_good target [] named (.inl rfl)) (by omega) short

-- utf-8, and the SHA1 hash of "a".
def utf8Surroundings : Surroundings where
  qt := .plain
  toUtf8 s := (String.ofList s).toByteArray.data.toList
  toUnicode _ bytes := ((ByteArray.mk bytes.toArray).utf8Decode?.getD #[]).toList
  version := ascii "KTorrent/0.0.0"
  now := 1300000000
  generate data := if data = [97] then [134,247,228,55,250,165,167,252,225,93,29,220,185,234,234,234,55,118,103,184] else List.replicate 20 0
  memory _ _ := 0
  utf8 s := by
    rw [Array.toArray_toList]
    show ((String.ofList s).toByteArray.utf8Decode?.getD #[]).toList = s
    rw [String.toByteArray_ofList,List.utf8Decode?_utf8Encode]
    rfl
  time := by decide
  generate_length data := by split <;> rfl

def smallDir : Dir := .mk [(['a'],[97])] [(['d'],.mk [(['b'],[])] [])]

instance (name : List Char) : Decidable (FileName name) :=
  decidable_of_iff (name ≠ [] ∧ '/' ∉ name ∧ '\n' ∉ name ∧ name ≠ ['.','.'])
    ⟨fun ⟨a,b,c,d⟩ => ⟨a,b,c,d⟩,fun ⟨a,b,c,d⟩ => ⟨a,b,c,d⟩⟩

theorem smallDir_named : smallDir.Named :=
  ⟨by decide,by decide,⟨by decide,trivial⟩,trivial⟩

theorem small_dir_loads : Loads utf8Surroundings [(['a'],[97]),(['d','/','b'],[])] 1024
    (new smallDir [['u','d','p',':','/','/','t']] [] 1 ['s'] [] true false) :=
  created_loads utf8Surroundings smallDir smallDir_named [['u','d','p',':','/','/','t']] [] ['s'] [] true (by decide) (by decide) (by decide +kernel)

section
variable {env : Surroundings} {t : Files} {entries : List (List Char × List UInt8)} {c : TorrentCreator}

theorem short_of_loads (sizes : t.sizes = entries.map fun e => e.2.length) (built : Built t entries c) (fits : t.chunkSize < 2147483648)
    (few : 20 * t.numChunks < 4294967296) (loads : Loads env entries t.chunkSize c) : torrentSize env c t.numChunks < 2147483648 := by
  obtain ⟨hashed,data,tor,ran,saved,_,_⟩ := loads
  obtain ⟨pieces,other,length,_⟩ := saveTorrent_eq env few built
  rw [run_eq fits sizes built] at ran
  cases ran
  rw [other] at saved
  rw [← torrentSize_eq env c length,Option.some.inj saved]
  exact data.size_lt

end

theorem entries_single (name : List Char) (content : List UInt8) : Dir.entries [] (.mk [(name,content)] []) = [(name,content)] := by
  simp [Dir.entries,entriesOf]

-- The hashes alone do not fit.
theorem not_loaded_of_length {content : List UInt8} (long : content.length = 109951163392) : let target := Dir.mk [(['a'],content)] []
    target.Named ∧ (∃ e ∈ target.entries [],e.2 ≠ []) ∧
      ¬ Loads utf8Surroundings (target.entries []) 1024 (new target [['u','d','p',':','/','/','t']] [] 1 ['s'] [] false false) := by
  intro target
  have entries : target.entries [] = [(['a'],content)] := entries_single _ _
  have length : (whole (target.entries [])).length = 109951163392 := by
    rw [entries]
    unfold whole
    rw [List.map_cons,List.map_nil,List.flatten_singleton,long]
  refine ⟨⟨?_,trivial⟩,?_,?_⟩
  · intro f mem
    rw [List.mem_singleton.mp mem]
    exact (by decide : FileName ['a'])
  · rw [entries]
    refine ⟨_,List.mem_singleton.mpr rfl,fun none => ?_⟩
    change content = [] at none
    rw [none] at long
    cases long
  · obtain ⟨t,chunks,sizes,count⟩ := exists_files (target.entries []) (show 0 < 1024 by decide) (by decide) (by rw [length]; decide)
    rw [length] at count
    intro loads
    have few : t.numChunks = 107374183 := count
    have short := short_of_loads sizes (new_built target sizes chunks) (by omega) (by omega) (chunks ▸ loads)
    have enough := torrentSize_ge utf8Surroundings (new target [['u','d','p',':','/','/','t']] [] 1 ['s'] [] false false) t.numChunks
    omega

-- One file of 107374183 KiB, with a chunk for each KiB.
def hugeDir : Dir := .mk [(['a'],List.replicate 109951163392 0)] []

theorem huge_dir_not_loaded : hugeDir.Named ∧ (∃ e ∈ hugeDir.entries [],e.2 ≠ []) ∧
    ¬ Loads utf8Surroundings (hugeDir.entries []) 1024 (new hugeDir [['u','d','p',':','/','/','t']] [] 1 ['s'] [] false false) :=
  not_loaded_of_length List.length_replicate

end TorrentCreator

end KtorrentStream.Torrent
