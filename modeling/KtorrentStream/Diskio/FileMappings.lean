import KtorrentStream.Lib.Along
import KtorrentStream.Util.Word
import KtorrentStream.Util.PtrMap
set_option autoImplicit true

namespace KtorrentStream.Diskio
open KtorrentStream.Lib KtorrentStream.Util

inductive Mode where
  | read | write | rw
  deriving DecidableEq

inductive MapError where
  | cannotOpen | readonlyFilesystem | beyondMaximum | growBeyondMaximum | cannotExpand
  deriving DecidableEq

-- What map returns: 0 is none.
inductive MapResult where
  | address (p : Nat)
  | null
  | error (e : MapError)
  deriving DecidableEq

-- CacheFile::Entry; thing stands for the MMappeable.
structure MapEntry where
  thing : Nat
  ptr : Nat
  size : Nat
  offset : Nat
  diff : Nat
  mode : Mode
  deriving DecidableEq

-- A CacheFile and the ranges of addresses that the system has mapped for it. A munmap of
-- what is not mapped as one range is counted in stray. told are the things that unmapped()
-- has been called of.
structure FileMappings where
  isOpen : Bool
  readOnly : Bool
  maxSize : Nat
  fileSize : Nat
  manualClose : Bool
  mappings : PtrMap MapEntry
  memory : List (Nat × Nat)
  stray : Nat
  told : List Nat

-- What the system answers to one call of map.
structure MapAnswers where
  openFileAllowed : Bool
  openReadWrite : Bool
  openReadOnly : Bool
  size : Nat
  resized : Option Nat
  mmap : Option Nat

namespace FileMappings

def new (maxSize : Nat) : FileMappings := ⟨false,false,maxSize,0,false,.empty,[],0,[]⟩

variable (f : FileMappings)

-- Read write by default.
def openFile (mode : Mode) (a : MapAnswers) : Option FileMappings :=
  if a.openReadWrite then some {f with isOpen := true,fileSize := a.size}
  else if mode = .read ∧ a.openReadOnly then some {f with isOpen := true,fileSize := a.size,readOnly := true}
  else none

def growFile (toWrite : Nat) (a : MapAnswers) : Except MapError FileMappings :=
  if f.readOnly then .error .readonlyFilesystem
  else if uint64 (f.fileSize + toWrite) > f.maxSize then .error .growBeyondMaximum
  else match a.resized with
    | none => .error .cannotExpand
    | some size => .ok {f with fileSize := size}

def insertMapping (key : Nat) (e : MapEntry) : FileMappings :=
  {f with mappings := f.mappings.insert key e,memory := (e.ptr,e.size) :: f.memory}

-- What follows once the file is open and long enough. An offset that is not a multiple of
-- the page size is mapped from the page it lies in.
def mapOpen (pageSize thing off size : Nat) (mode : Mode) (a : MapAnswers) : MapResult × FileMappings :=
  match a.mmap with
  | none => (.null,f)
  | some ptr =>
    if off % pageSize > 0 then
      let diff := off % pageSize
      (.address (ptr + diff),f.insertMapping (ptr + diff) ⟨thing,ptr,uint32 (size + diff),off,diff,mode⟩)
    else (.address ptr,f.insertMapping ptr ⟨thing,ptr,size,off,0,mode⟩)

def mapGrown (pageSize thing off size : Nat) (mode : Mode) (a : MapAnswers) : MapResult × FileMappings :=
  if f.readOnly && mode != .read then (.error .readonlyFilesystem,f)
  else if uint64 (off + size) > f.maxSize then (.error .beyondMaximum,f)
  else if uint64 (off + size) > f.fileSize then
    match f.growFile (uint64 (off + size) - f.fileSize) a with
    | .error e => (.error e,f)
    | .ok grown => grown.mapOpen pageSize thing off size mode a
  else f.mapOpen pageSize thing off size mode a

-- The file is opened again if necessary; without file descriptors left, 0 forces the
-- buffered mode.
def map (pageSize thing off size : Nat) (mode : Mode) (a : MapAnswers) : MapResult × FileMappings :=
  if f.isOpen then f.mapGrown pageSize thing off size mode a
  else if !a.openFileAllowed then (.null,f)
  else match f.openFile mode a with
    | none => (.error .cannotOpen,f)
    | some opened => opened.mapGrown pageSize thing off size mode a

def munmap (range : Nat × Nat) : FileMappings :=
  if range ∈ f.memory then {f with memory := f.memory.erase range} else {f with stray := f.stray + 1}

-- One round of the loop of unmapAll. The key that is removed is the pointer of the entry.
def unmapEntry (e : Nat × MapEntry) : FileMappings :=
  let f := f.munmap (e.2.ptr,e.2.size)
  {f with told := f.told ++ [e.2.thing],mappings := f.mappings.erase e.2.ptr}

def unmapAll : FileMappings := f.mappings.entries.foldl unmapEntry f

-- The slot of the signal that a file sends when it is being closed.
def aboutToClose : FileMappings :=
  if !f.isOpen then f
  else
    let f := f.unmapAll
    if !f.manualClose then {f with isOpen := false} else f

-- The file that is deleted is closed first, which calls aboutToClose.
def closeTemporary : FileMappings :=
  if !f.isOpen || f.mappings.count > 0 then f else {f.aboutToClose with isOpen := false}

def unmap (p : Nat) : FileMappings :=
  match f.mappings.find p with
  | none => f
  | some e =>
    let f := f.munmap (e.ptr,e.size)
    let f := {f with mappings := f.mappings.erase p}
    if f.mappings.count = 0 then f.closeTemporary else f

-- fptr->close() calls aboutToClose.
def close : FileMappings :=
  if !f.isOpen then f
  else {({f.unmapAll with manualClose := true} : FileMappings).aboutToClose with isOpen := false,manualClose := false}

end FileMappings

-- With the addresses that map has returned and that are neither unmapped nor closed, each
-- with the range that the system has mapped for it.
structure MappingRun where
  file : FileMappings
  live : PtrMap (Nat × Nat)

namespace MappingRun

inductive Call where
  | map (thing off size : Nat) (mode : Mode) (a : MapAnswers)
  | unmap (p : Nat)
  | aboutToClose
  | close

def new (maxSize : Nat) : MappingRun := ⟨.new maxSize,.empty⟩

def mmapSize (pageSize off size : Nat) : Nat := if off % pageSize > 0 then uint32 (size + off % pageSize) else size

def step (pageSize : Nat) (s : MappingRun) : Call → MappingRun
  | .map thing off size mode a =>
    let r := s.file.map pageSize thing off size mode a
    match r.1,a.mmap with
    | .address p,some base => ⟨r.2,s.live.insert p (base,mmapSize pageSize off size)⟩
    | _,_ => ⟨r.2,s.live⟩
  | .unmap p => ⟨s.file.unmap p,s.live.erase p⟩
  | .aboutToClose => ⟨s.file.aboutToClose,.empty⟩
  | .close => ⟨s.file.close,.empty⟩

-- The table lists the live mappings, and what the system has mapped is unmapped once.
structure Listed (s : MappingRun) : Prop where
  table : s.file.mappings.entries.map (fun e => (e.1,e.2.ptr,e.2.size)) = s.live.entries
  mapped : s.file.memory.Perm (s.live.entries.map Prod.snd)
  once : s.file.stray = 0

-- mmap returns a page that starts a range which is not empty and disjoint from what is
-- mapped.
def Allowed (pageSize : Nat) (s : MappingRun) : Call → Prop
  | .map _ off size _ a => ∀ base, a.mmap = some base → base % pageSize = 0 ∧ 0 < mmapSize pageSize off size ∧
      ∀ range ∈ s.file.memory, base + mmapSize pageSize off size ≤ range.1 ∨ range.1 + range.2 ≤ base
  | _ => True

-- What is closed has no mapping from within a page.
def Careful (s : MappingRun) : Call → Prop
  | .aboutToClose => ∀ e ∈ s.file.mappings.entries, e.2.diff = 0
  | .close => ∀ e ∈ s.file.mappings.entries, e.2.diff = 0
  | _ => True

end MappingRun

namespace FileMappings

variable {f g : FileMappings} {pageSize : Nat}

def rangeOf (e : Nat × MapEntry) : Nat × Nat := (e.2.ptr,e.2.size)

-- Only whether the file is open, and how long it is, has changed.
structure SameTable (f g : FileMappings) : Prop where
  mappings : g.mappings = f.mappings
  memory : g.memory = f.memory
  stray : g.stray = f.stray
  manualClose : g.manualClose = f.manualClose
  isOpen : f.isOpen = true → g.isOpen = true

theorem SameTable.refl (f : FileMappings) : SameTable f f := ⟨rfl,rfl,rfl,rfl,fun now => now⟩

theorem SameTable.trans (one : SameTable f g) (two : SameTable g h) : SameTable f h :=
  ⟨two.mappings.trans one.mappings,two.memory.trans one.memory,two.stray.trans one.stray,two.manualClose.trans one.manualClose,
    fun now => two.isOpen (one.isOpen now)⟩

-- What a call of map can do: it finds an address for a page that it was given, or leaves
-- the table as it is.
inductive Maps (f : FileMappings) (pageSize off size : Nat) (a : MapAnswers) : MapResult × FileMappings → Prop
  | none {h : FileMappings} (same : SameTable f h) (fails : ∀ p, r ≠ .address p) : Maps f pageSize off size a (r,h)
  | some {h : FileMappings} {e : MapEntry} (given : a.mmap = some e.ptr) (length : e.size = MappingRun.mmapSize pageSize off size)
      (diff : e.diff = off % pageSize) (same : SameTable f h) (opened : h.isOpen = true) :
      Maps f pageSize off size a (.address (e.ptr + e.diff),h.insertMapping (e.ptr + e.diff) e)

theorem Maps.after (maps : Maps g pageSize off size a r) (same : SameTable f g) : Maps f pageSize off size a r := by
  cases maps with
  | none here fails => exact .none (same.trans here) fails
  | some given length diff here opened => exact .some given length diff (same.trans here) opened

theorem mapOpen_maps (opened : f.isOpen = true) (pageSize thing off size : Nat) (mode : Mode) (a : MapAnswers) :
    Maps f pageSize off size a (f.mapOpen pageSize thing off size mode a) := by
  unfold mapOpen
  cases given : a.mmap with
  | none => exact .none (.refl f) (fun _ same => by cases same)
  | some ptr =>
      dsimp only
      split
      · rename_i within
        exact .some (e := ⟨thing,ptr,uint32 (size + off % pageSize),off,off % pageSize,mode⟩) given
          (by unfold MappingRun.mmapSize; rw [if_pos within]) rfl (.refl f) opened
      · rename_i aligned
        exact .some (e := ⟨thing,ptr,size,off,0,mode⟩) given (by unfold MappingRun.mmapSize; rw [if_neg aligned])
          (by show 0 = off % pageSize; omega) (.refl f) opened

theorem growFile_same (grown : f.growFile toWrite a = .ok g) : SameTable f g := by
  unfold growFile at grown
  split at grown
  · cases grown
  · split at grown
    · cases grown
    · cases resized : a.resized with
      | none =>
          rw [resized] at grown
          cases grown
      | some size =>
          rw [resized] at grown
          cases grown
          exact ⟨rfl,rfl,rfl,rfl,fun now => now⟩

theorem mapGrown_maps (opened : f.isOpen = true) (pageSize thing off size : Nat) (mode : Mode) (a : MapAnswers) :
    Maps f pageSize off size a (f.mapGrown pageSize thing off size mode a) := by
  unfold mapGrown
  split
  · exact .none (.refl f) (fun _ same => by cases same)
  · split
    · exact .none (.refl f) (fun _ same => by cases same)
    · split
      · cases grows : f.growFile (uint64 (off + size) - f.fileSize) a with
        | error e => exact .none (.refl f) (fun _ same => by cases same)
        | ok grown =>
            have same := growFile_same grows
            exact (mapOpen_maps (same.isOpen opened) pageSize thing off size mode a).after same
      · exact mapOpen_maps opened pageSize thing off size mode a

theorem openFile_same (opens : f.openFile mode a = some g) : SameTable f g ∧ g.isOpen = true := by
  unfold openFile at opens
  split at opens
  · cases opens
    exact ⟨⟨rfl,rfl,rfl,rfl,fun _ => rfl⟩,rfl⟩
  · split at opens
    · cases opens
      exact ⟨⟨rfl,rfl,rfl,rfl,fun _ => rfl⟩,rfl⟩
    · cases opens

theorem map_maps (f : FileMappings) (pageSize thing off size : Nat) (mode : Mode) (a : MapAnswers) :
    Maps f pageSize off size a (f.map pageSize thing off size mode a) := by
  unfold map
  split
  · rename_i opened
    exact mapGrown_maps opened pageSize thing off size mode a
  · split
    · exact .none (.refl f) (fun _ same => by cases same)
    · cases opens : f.openFile mode a with
      | none => exact .none (.refl f) (fun _ same => by cases same)
      | some g =>
          have same := openFile_same opens
          exact (mapGrown_maps same.2 pageSize thing off size mode a).after same.1

-- One loop of unmapAll.

theorem munmap_fields (f : FileMappings) (range : Nat × Nat) :
    (f.munmap range).mappings = f.mappings ∧ (f.munmap range).isOpen = f.isOpen ∧ (f.munmap range).manualClose = f.manualClose := by
  unfold munmap
  split
  · exact ⟨rfl,rfl,rfl⟩
  · exact ⟨rfl,rfl,rfl⟩

theorem munmap_mapped (mapped : f.memory.Perm (r :: rest)) : (f.munmap r).memory.Perm rest ∧ (f.munmap r).stray = f.stray := by
  have member : r ∈ f.memory := mapped.mem_iff.mpr List.mem_cons_self
  unfold munmap
  rw [if_pos member]
  exact ⟨((List.perm_cons_erase member).symm.trans mapped).cons_inv,rfl⟩

theorem unmapEntry_fields (f : FileMappings) (e : Nat × MapEntry) :
    (f.unmapEntry e).mappings = f.mappings.erase e.2.ptr ∧ (f.unmapEntry e).isOpen = f.isOpen ∧
      (f.unmapEntry e).manualClose = f.manualClose := by
  have kept := munmap_fields f (e.2.ptr,e.2.size)
  exact ⟨congrArg (PtrMap.erase · e.2.ptr) kept.1,kept.2⟩

theorem unmapEntries_fields (l : List (Nat × MapEntry)) (f : FileMappings) :
    (l.foldl unmapEntry f).isOpen = f.isOpen ∧ (l.foldl unmapEntry f).manualClose = f.manualClose := by
  induction l generalizing f with
  | nil => exact ⟨rfl,rfl⟩
  | cons e rest ih =>
      have one := unmapEntry_fields f e
      have others := ih (f.unmapEntry e)
      exact ⟨others.1.trans one.2.1,others.2.trans one.2.2⟩

theorem unmapEntries_sub (l : List (Nat × MapEntry)) (f : FileMappings) (left : e ∈ (l.foldl unmapEntry f).mappings.entries) :
    e ∈ f.mappings.entries := by
  induction l generalizing f with
  | nil => exact left
  | cons first rest ih =>
      have before := ih (f.unmapEntry first) left
      rw [(unmapEntry_fields f first).1] at before
      exact List.mem_of_mem_filter before

-- The key of an entry from within a page is no pointer of an entry.
theorem unmapEntries_keep {l : List (Nat × MapEntry)} (pages : ∀ e ∈ l, e.2.ptr % pageSize = 0) (within : e.1 % pageSize ≠ 0)
    (f : FileMappings) (there : e ∈ f.mappings.entries) : e ∈ (l.foldl unmapEntry f).mappings.entries := by
  induction l generalizing f with
  | nil => exact there
  | cons first rest ih =>
      apply ih (fun e member => pages e (List.mem_cons_of_mem _ member))
      rw [(unmapEntry_fields f first).1]
      apply List.mem_filter.mpr
      refine ⟨there,bne_iff_ne.mpr ?_⟩
      intro same
      rw [same] at within
      exact within (pages first List.mem_cons_self)

theorem unmapEntries_clear {l : List (Nat × MapEntry)} (keys : ∀ e ∈ l, e.1 = e.2.ptr) (f : FileMappings) (all : f.mappings.entries = l)
    (mapped : f.memory.Perm (l.map rangeOf)) :
    (l.foldl unmapEntry f).mappings.entries = [] ∧ (l.foldl unmapEntry f).memory = [] ∧ (l.foldl unmapEntry f).stray = f.stray := by
  induction l generalizing f with
  | nil => exact ⟨all,List.Perm.eq_nil mapped,rfl⟩
  | cons e rest ih =>
      have key : e.1 = e.2.ptr := keys e List.mem_cons_self
      have one := munmap_mapped (r := (e.2.ptr,e.2.size)) mapped
      have sorted := f.mappings.sorted
      rw [all] at sorted
      have first := (List.pairwise_cons.mp sorted).1
      have left : (f.unmapEntry e).mappings.entries = rest := by
        rw [(unmapEntry_fields f e).1]
        show f.mappings.entries.filter _ = rest
        rw [all,List.filter_cons,← key,if_neg (by simp)]
        apply List.filter_eq_self.mpr
        intro later member
        have less := first later member
        rw [bne_iff_ne]
        omega
      have others := ih (fun e member => keys e (List.mem_cons_of_mem _ member)) (f.unmapEntry e) left one.1
      exact ⟨others.1,others.2.1,others.2.2.trans one.2⟩

theorem unmapAll_empty (none : f.mappings.entries = []) : f.unmapAll = f := by
  unfold unmapAll
  rw [none]
  rfl

theorem closeTemporary_table (f : FileMappings) : (f.closeTemporary).mappings = f.mappings ∧ (f.closeTemporary).memory = f.memory ∧
    (f.closeTemporary).stray = f.stray ∧ (f.closeTemporary).manualClose = f.manualClose ∧
      (f.mappings.entries ≠ [] → (f.closeTemporary).isOpen = f.isOpen) := by
  unfold closeTemporary
  split
  · exact ⟨rfl,rfl,rfl,rfl,fun _ => rfl⟩
  · rename_i idle
    rw [Bool.or_eq_true,decide_eq_true_iff,not_or] at idle
    have none : f.mappings.entries = [] := List.length_eq_zero_iff.mp (by have less := idle.2; unfold PtrMap.count at less; omega)
    unfold aboutToClose
    rw [unmapAll_empty none]
    split
    · exact ⟨rfl,rfl,rfl,rfl,fun some_ => absurd none some_⟩
    · dsimp only
      split
      · exact ⟨rfl,rfl,rfl,rfl,fun some_ => absurd none some_⟩
      · exact ⟨rfl,rfl,rfl,rfl,fun some_ => absurd none some_⟩

end FileMappings

namespace MappingRun
open FileMappings

variable {s : MappingRun} {f g : FileMappings} {pageSize : Nat}

structure Sound (pageSize : Nat) (f : FileMappings) : Prop where
  keys : ∀ e ∈ f.mappings.entries, e.1 = e.2.ptr + e.2.diff
  within : ∀ e ∈ f.mappings.entries, e.2.diff < pageSize
  pages : ∀ e ∈ f.mappings.entries, e.2.ptr % pageSize = 0
  sizes : ∀ e ∈ f.mappings.entries, 0 < e.2.size
  closed : f.isOpen = false → f.mappings.entries = []
  manual : f.manualClose = false

theorem Sound.sub (sound : Sound pageSize f) (sub : ∀ e ∈ g.mappings.entries, e ∈ f.mappings.entries)
    (closed : g.isOpen = false → g.mappings.entries = []) (manual : g.manualClose = false) : Sound pageSize g :=
  ⟨fun e member => sound.keys e (sub e member),fun e member => sound.within e (sub e member),fun e member => sound.pages e (sub e member),
    fun e member => sound.sizes e (sub e member),closed,manual⟩

theorem Sound.same (sound : Sound pageSize f) (same : SameTable f g) : Sound pageSize g := by
  apply sound.sub
  · intro e member
    rw [same.mappings] at member
    exact member
  · intro shut
    rw [same.mappings]
    apply sound.closed
    cases opened : f.isOpen with
    | false => rfl
    | true =>
        rw [same.isOpen opened] at shut
        cases shut
  · exact same.manualClose.trans sound.manual

theorem Listed.memory (listed : Listed s) : s.file.memory.Perm (s.file.mappings.entries.map rangeOf) := by
  have mapped := listed.mapped
  rw [← listed.table,List.map_map] at mapped
  exact mapped

theorem Listed.find (listed : Listed s) (k : Nat) : s.file.mappings.find k = none ↔ s.live.find k = none := by
  rw [PtrMap.absent_iff,PtrMap.absent_iff,← listed.table]
  constructor
  · intro absent e member
    obtain ⟨x,inside,rfl⟩ := List.mem_map.mp member
    exact absent x inside
  · intro absent e member
    exact absent _ (List.mem_map_of_mem member)

theorem page_start (first : a % p = 0) (second : b % p = 0) (i_lt : i < p) (j_lt : j < p) (same : a + i = b + j) : a = b := by
  obtain ⟨k,rfl⟩ := Nat.dvd_of_mod_eq_zero first
  obtain ⟨l,rfl⟩ := Nat.dvd_of_mod_eq_zero second
  have quotient : (p * k + i) / p = (p * l + j) / p := congrArg (· / p) same
  rw [Nat.mul_add_div (by omega),Nat.mul_add_div (by omega),Nat.div_eq_of_lt i_lt,Nat.div_eq_of_lt j_lt] at quotient
  rw [show k = l by omega]

theorem fresh_key (sound : Sound pageSize s.file) (listed : Listed s) (page : base % pageSize = 0) (within : diff < pageSize) (some_ : 0 < len)
    (apart : ∀ range ∈ s.file.memory, base + len ≤ range.1 ∨ range.1 + range.2 ≤ base) : s.file.mappings.find (base + diff) = none := by
  rw [PtrMap.absent_iff]
  intro e member same
  rw [sound.keys e member] at same
  have start := page_start (sound.pages e member) page (sound.within e member) within same
  have size := sound.sizes e member
  have mapped : rangeOf e ∈ s.file.memory := listed.memory.mem_iff.mpr (List.mem_map_of_mem member)
  have away := apart (rangeOf e) mapped
  unfold rangeOf at away
  dsimp only at away
  omega

theorem same_listed (listed : Listed s) (same : SameTable s.file g) : Listed ⟨g,s.live⟩ := by
  refine ⟨?_,?_,same.stray.trans listed.once⟩
  · rw [same.mappings]
    exact listed.table
  · rw [same.memory]
    exact listed.mapped

theorem insert_listed (listed : Listed s) (fresh : s.file.mappings.find key = none) (same : SameTable s.file g) {e : MapEntry} :
    Listed ⟨g.insertMapping key e,s.live.insert key (e.ptr,e.size)⟩ := by
  refine ⟨?_,?_,same.stray.trans listed.once⟩
  · have inserted := PtrMap.insertEntry_map (fun e : MapEntry => (e.ptr,e.size)) key e g.mappings.entries
    rw [same.mappings,listed.table,← same.mappings] at inserted
    exact inserted
  · have added := (s.live.insert_perm (e.ptr,e.size) ((listed.find key).mp fresh)).map Prod.snd
    show ((e.ptr,e.size) :: g.memory).Perm _
    rw [same.memory]
    exact (listed.mapped.cons _).trans added.symm

theorem insert_sound (sound : Sound pageSize g) {e : MapEntry} (opened : g.isOpen = true) (within : e.diff < pageSize) (page : e.ptr % pageSize = 0)
    (size : 0 < e.size) : Sound pageSize (g.insertMapping (e.ptr + e.diff) e) := by
  have cases_ : ∀ x ∈ (g.insertMapping (e.ptr + e.diff) e).mappings.entries, x = (e.ptr + e.diff,e) ∨ x ∈ g.mappings.entries :=
    fun x member => PtrMap.mem_insertEntry member
  refine ⟨?_,?_,?_,?_,?_,sound.manual⟩
  · intro x member
    rcases cases_ x member with rfl | before
    · rfl
    · exact sound.keys x before
  · intro x member
    rcases cases_ x member with rfl | before
    · exact within
    · exact sound.within x before
  · intro x member
    rcases cases_ x member with rfl | before
    · exact page
    · exact sound.pages x before
  · intro x member
    rcases cases_ x member with rfl | before
    · exact size
    · exact sound.sizes x before
  · intro shut
    have still : g.isOpen = false := shut
    rw [opened] at still
    cases still

theorem map_step (positive : 0 < pageSize) (sound : Sound pageSize s.file) (listed : Listed s)
    (allowed : Allowed pageSize s (.map thing off size mode a)) :
    Listed (s.step pageSize (.map thing off size mode a)) ∧ Sound pageSize (s.step pageSize (.map thing off size mode a)).file := by
  have maps := map_maps s.file pageSize thing off size mode a
  unfold step
  dsimp only
  generalize s.file.map pageSize thing off size mode a = r at maps
  cases maps with
  | @none r g same fails =>
      have kept : Listed ⟨g,s.live⟩ ∧ Sound pageSize g := ⟨same_listed listed same,sound.same same⟩
      cases r with
      | address p => exact absurd rfl (fails p)
      | null => cases a.mmap <;> exact kept
      | error e => cases a.mmap <;> exact kept
  | @some g e given length diff same opened =>
      have answer := allowed e.ptr given
      have within : e.diff < pageSize := by
        rw [diff]
        exact Nat.mod_lt off positive
      rw [given]
      dsimp only
      rw [← length] at answer ⊢
      have fresh := fresh_key sound listed answer.1 within answer.2.1 answer.2.2
      exact ⟨insert_listed listed fresh same,insert_sound (sound.same same) opened within answer.1 answer.2.1⟩

theorem unmap_step (sound : Sound pageSize s.file) (listed : Listed s) (p : Nat) :
    Listed (s.step pageSize (.unmap p)) ∧ Sound pageSize (s.step pageSize (.unmap p)).file := by
  show Listed ⟨s.file.unmap p,s.live.erase p⟩ ∧ Sound pageSize (s.file.unmap p)
  unfold unmap
  cases found : s.file.mappings.find p with
  | none =>
      rw [s.live.erase_of_none ((listed.find p).mp found)]
      exact ⟨listed,sound⟩
  | some e =>
      dsimp only
      have left := s.file.mappings.erase_perm found
      have one := munmap_mapped (r := (e.ptr,e.size)) (listed.memory.trans (left.map rangeOf))
      have fields := munmap_fields s.file (e.ptr,e.size)
      have opened : s.file.isOpen = true := by
        cases shut : s.file.isOpen with
        | true => rfl
        | false =>
            rw [sound.closed shut] at left
            cases List.nil_perm.mp left
      have table : ((s.file.mappings.erase p).entries.map fun e => (e.1,e.2.ptr,e.2.size)) = (s.live.erase p).entries := by
        show (s.file.mappings.entries.filter _).map _ = s.live.entries.filter _
        rw [← listed.table,List.filter_map]
        rfl
      have kept : ∀ g : FileMappings, g.mappings = s.file.mappings.erase p → g.memory = (s.file.munmap (e.ptr,e.size)).memory →
          g.stray = (s.file.munmap (e.ptr,e.size)).stray → g.manualClose = s.file.manualClose → (g.isOpen = false → g.mappings.entries = []) →
          Listed ⟨g,s.live.erase p⟩ ∧ Sound pageSize g := by
        intro g mappings memory stray manual closed
        refine ⟨⟨?_,?_,?_⟩,?_⟩
        · rw [mappings]
          exact table
        · rw [memory,← table,List.map_map]
          exact one.1
        · rw [stray,one.2]
          exact listed.once
        · apply sound.sub _ closed (manual.trans sound.manual)
          intro x member
          rw [mappings] at member
          exact List.mem_of_mem_filter member
      have mappings : (s.file.munmap (e.ptr,e.size)).mappings.erase p = s.file.mappings.erase p := by rw [fields.1]
      split
      · rename_i none
        have last := closeTemporary_table {s.file.munmap (e.ptr,e.size) with mappings := (s.file.munmap (e.ptr,e.size)).mappings.erase p}
        apply kept _ (last.1.trans mappings) last.2.1 last.2.2.1 (last.2.2.2.1.trans fields.2.2)
        intro _
        rw [last.1]
        exact List.length_eq_zero_iff.mp none
      · apply kept {s.file.munmap (e.ptr,e.size) with mappings := (s.file.munmap (e.ptr,e.size)).mappings.erase p} mappings rfl rfl
          fields.2.2
        intro shut
        have still : (s.file.munmap (e.ptr,e.size)).isOpen = false := shut
        rw [fields.2.1,opened] at still
        cases still

theorem closed_listed (none : g.mappings.entries = []) (unmapped : g.memory = []) (once : g.stray = 0) : Listed ⟨g,.empty⟩ := by
  refine ⟨?_,?_,once⟩
  · rw [none]
    rfl
  · rw [unmapped]
    exact .refl []

theorem closed_sound (none : g.mappings.entries = []) (manual : g.manualClose = false) : Sound pageSize g := by
  constructor <;> simp [none,manual]

theorem Listed.empty (listed : Listed ⟨g,.empty⟩) : g.mappings.entries = [] := List.map_eq_nil_iff.mp listed.table

-- A file that is not open has nothing to unmap.
theorem idle_listed (sound : Sound pageSize s.file) (listed : Listed s) (shut : s.file.isOpen = false) :
    Listed ⟨s.file,.empty⟩ := by
  have none := sound.closed shut
  have unmapped := listed.memory
  rw [none] at unmapped
  exact closed_listed none (List.Perm.eq_nil unmapped) listed.once

theorem unmapAll_clear (sound : Sound pageSize s.file) (listed : Listed s) (aligned : ∀ e ∈ s.file.mappings.entries, e.2.diff = 0) :
    s.file.unmapAll.mappings.entries = [] ∧ s.file.unmapAll.memory = [] ∧ s.file.unmapAll.stray = 0 := by
  have keys : ∀ e ∈ s.file.mappings.entries, e.1 = e.2.ptr := by
    intro e member
    rw [sound.keys e member,aligned e member]
    rfl
  have cleared := unmapEntries_clear keys s.file rfl listed.memory
  exact ⟨cleared.1,cleared.2.1,cleared.2.2.trans listed.once⟩

theorem off_page (sound : Sound pageSize f) (member : e ∈ f.mappings.entries) (within : e.2.diff ≠ 0) : e.1 % pageSize ≠ 0 := by
  rw [sound.keys e member,Nat.add_mod,sound.pages e member,Nat.zero_add,Nat.mod_mod,Nat.mod_eq_of_lt (sound.within e member)]
  exact within

theorem unmapAll_keep (sound : Sound pageSize f) (member : e ∈ f.mappings.entries) (within : e.2.diff ≠ 0) :
    e ∈ f.unmapAll.mappings.entries := unmapEntries_keep sound.pages (off_page sound member within) f member

theorem unmapAll_sound (sound : Sound pageSize f) (opened : f.isOpen = true) : Sound pageSize f.unmapAll := by
  have fields := unmapEntries_fields f.mappings.entries f
  apply sound.sub (fun e left => unmapEntries_sub f.mappings.entries f left)
  · intro shut
    have still := fields.1.symm.trans shut
    rw [opened] at still
    cases still
  · exact fields.2.trans sound.manual

theorem aboutToClose_open (sound : Sound pageSize f) (opened : f.isOpen = true) : f.aboutToClose = {f.unmapAll with isOpen := false} := by
  have manual := (unmapAll_sound sound opened).manual
  unfold aboutToClose
  rw [opened]
  dsimp only
  rw [manual]
  rfl

theorem aboutToClose_step (sound : Sound pageSize s.file) (listed : Listed s) :
    (Listed ⟨s.file.aboutToClose,.empty⟩ ↔ ∀ e ∈ s.file.mappings.entries, e.2.diff = 0) ∧
      (Listed ⟨s.file.aboutToClose,.empty⟩ → Sound pageSize s.file.aboutToClose) := by
  cases opened : s.file.isOpen with
  | false =>
      have same : s.file.aboutToClose = s.file := by
        unfold aboutToClose
        rw [opened]
        rfl
      rw [same]
      refine ⟨iff_of_true (idle_listed sound listed opened) ?_,fun _ => sound⟩
      rw [sound.closed opened]
      intro e member
      cases member
  | true =>
      rw [aboutToClose_open sound opened]
      refine ⟨⟨?_,?_⟩,fun after => closed_sound after.empty (unmapAll_sound sound opened).manual⟩
      · intro after e member
        apply Classical.byContradiction
        intro within
        have left := unmapAll_keep sound member within
        rw [show s.file.unmapAll.mappings.entries = [] from after.empty] at left
        cases left
      · intro aligned
        have cleared := unmapAll_clear sound listed aligned
        exact closed_listed cleared.1 cleared.2.1 cleared.2.2

theorem closing_aboutToClose (opened : f.isOpen = true) (closing : f.manualClose = true) : f.aboutToClose = f.unmapAll := by
  have still : f.unmapAll.manualClose = true := (unmapEntries_fields f.mappings.entries f).2.trans closing
  unfold aboutToClose
  rw [opened]
  dsimp only
  rw [still]
  rfl

theorem close_open (opened : f.isOpen = true) :
    f.close = {({f.unmapAll with manualClose := true} : FileMappings).unmapAll with isOpen := false,manualClose := false} := by
  have still : f.unmapAll.isOpen = true := (unmapEntries_fields f.mappings.entries f).1.trans opened
  unfold close
  rw [opened,closing_aboutToClose (f := {f.unmapAll with manualClose := true}) still rfl]
  rfl

theorem close_step (sound : Sound pageSize s.file) (listed : Listed s) :
    (Listed ⟨s.file.close,.empty⟩ ↔ ∀ e ∈ s.file.mappings.entries, e.2.diff = 0) ∧
      (Listed ⟨s.file.close,.empty⟩ → Sound pageSize s.file.close) := by
  cases opened : s.file.isOpen with
  | false =>
      have same : s.file.close = s.file := by
        unfold close
        rw [opened]
        rfl
      rw [same]
      refine ⟨iff_of_true (idle_listed sound listed opened) ?_,fun _ => sound⟩
      rw [sound.closed opened]
      intro e member
      cases member
  | true =>
      rw [close_open opened]
      have once := unmapAll_sound sound opened
      refine ⟨⟨?_,?_⟩,fun after => closed_sound after.empty rfl⟩
      · intro after e member
        apply Classical.byContradiction
        intro within
        have left := unmapAll_keep sound member within
        have again := unmapEntries_keep (l := s.file.unmapAll.mappings.entries) once.pages (off_page once left within)
          {s.file.unmapAll with manualClose := true} left
        rw [show (s.file.unmapAll.mappings.entries.foldl unmapEntry {s.file.unmapAll with manualClose := true}).mappings.entries = []
          from after.empty] at again
        cases again
      · intro aligned
        have cleared := unmapAll_clear sound listed aligned
        have none : ({s.file.unmapAll with manualClose := true} : FileMappings).mappings.entries = [] := cleared.1
        rw [unmapAll_empty none]
        exact closed_listed cleared.1 cleared.2.1 cleared.2.2

theorem new_listed (maxSize : Nat) : Listed (new maxSize) := ⟨rfl,.refl [],rfl⟩

theorem new_sound (maxSize pageSize : Nat) : Sound pageSize (new maxSize).file := closed_sound rfl rfl

theorem step_listed (positive : 0 < pageSize) (sound : Sound pageSize s.file) (listed : Listed s) (c : Call) (allowed : Allowed pageSize s c) :
    (Listed (s.step pageSize c) ↔ Careful s c) ∧ (Listed (s.step pageSize c) → Sound pageSize (s.step pageSize c).file) := by
  cases c with
  | map thing off size mode a =>
      have after := map_step positive sound listed allowed
      exact ⟨iff_of_true after.1 trivial,fun _ => after.2⟩
  | unmap p =>
      have after := unmap_step sound listed p
      exact ⟨iff_of_true after.1 trivial,fun _ => after.2⟩
  | aboutToClose => exact aboutToClose_step sound listed
  | close => exact close_step sound listed

-- In every run the table lists the live mappings after each call, and nothing is unmapped
-- twice, exactly when no file is closed with a mapping from within a page.
theorem mappings_listed (maxSize : Nat) {pageSize : Nat} (positive : 0 < pageSize) (calls : List Call)
    (allowed : Along (fun s c => s.step pageSize c) (Allowed pageSize) (new maxSize) calls) :
    Along (fun s c => s.step pageSize c) (fun s c => Listed (s.step pageSize c)) (new maxSize) calls ↔
      Along (fun s c => s.step pageSize c) Careful (new maxSize) calls := by
  apply Along.congr (I := fun s => Sound pageSize s.file ∧ Listed s) allowed ⟨new_sound maxSize pageSize,new_listed maxSize⟩
  · intro s c now allowed
    exact (step_listed positive now.1 now.2 c allowed).1
  · intro s c now allowed careful
    have after := step_listed positive now.1 now.2 c allowed
    have listed := after.1.mpr careful
    exact ⟨after.2 listed,listed⟩

-- One byte of a file of two pages is mapped, and the file is closed.
def mapAndClose (off : Nat) : List Call := [.map 1 off 1 .rw ⟨true,true,true,8192,none,some 4096⟩,.close]

theorem mapAndClose_allowed (off : Nat) : Along (fun s c => s.step 4096 c) (Allowed 4096) (new 8192) (mapAndClose off) := by
  refine ⟨?_,trivial,trivial⟩
  intro base given
  cases given
  refine ⟨rfl,?_,fun range member => by cases member⟩
  unfold mmapSize uint32
  split <;> omega

theorem aligned_listed : Along (fun s c => s.step 4096 c) (fun s c => Listed (s.step 4096 c)) (new 8192) (mapAndClose 0) := by
  apply (mappings_listed 8192 (by decide) (mapAndClose 0) (mapAndClose_allowed 0)).mpr
  refine ⟨trivial,?_,trivial⟩
  intro e member
  obtain rfl := List.mem_singleton.mp member
  rfl

-- The entry of the second byte is left in the table, and its page is unmapped twice.
theorem within_left : Along (fun s c => s.step 4096 c) (Allowed 4096) (new 8192) (mapAndClose 1) ∧
    ¬ Along (fun s c => s.step 4096 c) (fun s c => Listed (s.step 4096 c)) (new 8192) (mapAndClose 1) := by
  refine ⟨mapAndClose_allowed 1,?_⟩
  intro along
  have table := along.2.1.table
  cases table

end MappingRun
end KtorrentStream.Diskio
