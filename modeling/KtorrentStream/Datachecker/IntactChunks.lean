import KtorrentStream.Datachecker.MultiDataChecker
set_option autoImplicit true

namespace KtorrentStream.Datachecker
open KtorrentStream.Util KtorrentStream.Torrent KtorrentStream.Torrent.Files KtorrentStream.Diskio

variable {w : Checked}

theorem chunkSizeOf_eq {c : Nat} (fits : w.files.chunkSize < 4294967296) (inside : c < w.files.numChunks) : w.chunkSizeOf c = w.files.chunkLen c := by
  have len := MultiFileCache.chunkLen_eq fits inside
  have whole := lt_numChunks.mp inside
  have small := MultiFileCache.numChunks_small w.files
  have positive := w.files.chunked
  obtain ⟨ends,some_,short⟩ := lastChunkSize_end (t := w.files) (by omega)
  unfold Checked.chunkSizeOf
  dsimp only
  rw [uint32Sub_of_le (show 1 ≤ w.files.numChunks by omega) (by omega),len]
  by_cases last : c = w.files.numChunks - 1
  · rw [if_pos last,uint32_of_lt (by omega),if_neg (by omega)]
    rw [← last] at ends
    omega
  · have next := lt_numChunks.mp (show c + 1 < w.files.numChunks by omega)
    rw [Nat.succ_mul] at next
    rw [if_neg last,uint32_of_lt fits,if_neg (by omega)]
    omega

-- The parts of a chunk from the i-th on, which is at address a: the first one starts where
-- the chunk does, the others with their files.
inductive PartsFrom (w : Checked) (c head b : Nat) : Nat → Nat → List Part → Prop
  | nil {i : Nat} : PartsFrom w c head b i b []
  | cons {i a : Nat} {part : Part} {more : List Part}
      (role : i = 0 ∧ part.file = head ∧ part.off = w.files.fileOffset (w.files.file head) c ∨ 0 < i ∧ part.file ≠ head ∧ part.off = 0)
      (at_ : w.files.start part.file + part.off = a) (some_ : 0 < part.len) (inFile : part.off + part.len ≤ w.files.size part.file)
      (upTo : a + part.len ≤ b) (rest : PartsFrom w c head b (i + 1) (a + part.len) more) : PartsFrom w c head b i a (part :: more)

-- By induction on the number of files that are left.
theorem parts_behind {c head k : Nat} (fits : w.files.chunkSize < 4294967296) (inside : c < w.files.numChunks) (n : Nat) (left : k + n = w.files.numFiles)
    (i : Nat) (later : 0 < i) (read : Nat) (at_ : w.files.start k = c * w.files.chunkSize + read) (after : head < k)
    (count : Nat) (counts : count = i + (filesOf w.files c k).length)
    (ends : filesOf w.files c k = [] → c * w.files.chunkSize + w.files.chunkLen c = c * w.files.chunkSize + read) :
    PartsFrom w c head (c * w.files.chunkSize + w.files.chunkLen c) i (c * w.files.chunkSize + read)
      (w.parts c (w.files.chunkLen c) count i read (filesOf w.files c k)) := by
  have chunk := MultiFileCache.chunkLen_eq fits inside
  have whole := lt_numChunks.mp inside
  induction n generalizing k i read with
  | zero =>
    have none_ := filesOf_end (t := w.files) (c := c) (k := k) (by omega)
    rw [none_,ends none_]
    exact .nil
  | succ n ih =>
    have step := w.files.start_succ k
    rw [filesOf_step (by omega)] at counts ends ⊢
    by_cases here : Overlaps w.files c k
    · rw [if_pos here] at counts ⊢
      rw [List.length_cons] at counts
      have some_ := here.1
      have first := here.2.1
      have inTotal := w.files.start_le (k + 1)
      rw [Nat.succ_mul] at first
      unfold Checked.parts
      dsimp only
      rw [if_neg (show i ≠ 0 by omega),if_neg (show i ≠ 0 by omega)]
      by_cases last : filesOf w.files c (k + 1) = []
      · have reaches := MultiFileCache.chunk_ends fits inside here last
        rw [last,List.length_nil] at counts
        rw [if_pos (show i = count - 1 by omega),last,uint32_of_lt (show read < 4294967296 by omega),
          uint32Sub_of_le (show read ≤ w.files.chunkLen c by omega) (by omega)]
        refine .cons (.inr ⟨later,Nat.ne_of_gt after,rfl⟩) at_ ?_ ?_ ?_ ?_
        · show 0 < w.files.chunkLen c - read
          omega
        · show 0 + (w.files.chunkLen c - read) ≤ w.files.size k
          omega
        · show c * w.files.chunkSize + read + (w.files.chunkLen c - read) ≤ c * w.files.chunkSize + w.files.chunkLen c
          omega
        · rw [show c * w.files.chunkSize + read + (w.files.chunkLen c - read) = c * w.files.chunkSize + w.files.chunkLen c by omega]
          unfold Checked.parts
          exact .nil
      · have within := MultiFileCache.file_ends last
        have more := List.length_pos_iff.mpr last
        rw [Nat.succ_mul] at within
        have size : (w.files.file k).size = w.files.size k := rfl
        rw [if_neg (show i ≠ count - 1 by omega),size,uint32_of_lt (show w.files.size k < 4294967296 by omega)]
        refine .cons (.inr ⟨later,Nat.ne_of_gt after,rfl⟩) at_ some_ (Nat.le_of_eq (Nat.zero_add _)) ?_ ?_
        · obtain ⟨j,member⟩ := List.exists_mem_of_ne_nil _ last
          obtain ⟨low,_,bytes,start,_⟩ := mem_filesOf.mp member
          have order := w.files.start_mono low
          have total := w.files.start_le (j + 1)
          rw [start_succ] at total
          rw [Nat.succ_mul] at start
          show c * w.files.chunkSize + read + w.files.size k ≤ c * w.files.chunkSize + w.files.chunkLen c
          omega
        · show PartsFrom w c head _ (i + 1) (c * w.files.chunkSize + read + w.files.size k) _
          rw [Nat.add_assoc]
          exact ih (by omega) (i + 1) (by omega) (read + w.files.size k) (by omega) (by omega) (by omega) (fun none_ => absurd none_ last)
    · rw [if_neg here] at counts ends ⊢
      by_cases empty : w.files.size k = 0
      · exact ih (by omega) i later read (by omega) (by omega) counts ends
      · have behind : (c + 1) * w.files.chunkSize ≤ w.files.start k := by
          refine Nat.le_of_not_lt fun less => here ⟨by omega,less,by omega⟩
        rw [Nat.succ_mul] at behind
        have none_ : filesOf w.files c (k + 1) = [] := by
          apply List.eq_nil_iff_forall_not_mem.mpr
          intro j member
          obtain ⟨low,_,_,start,_⟩ := mem_filesOf.mp member
          have order := w.files.start_mono (show k ≤ j by omega)
          rw [Nat.succ_mul] at start
          omega
        rw [none_] at ends ⊢
        rw [ends rfl]
        unfold Checked.parts
        exact .nil


theorem parts_chunk {c : Nat} (fits : w.files.chunkSize < 4294967296) (inside : c < w.files.numChunks) (several : (filesOf w.files c 0).length ≠ 1) :
    PartsFrom w c ((filesOf w.files c 0).headD 0) (c * w.files.chunkSize + w.files.chunkLen c) 0 (c * w.files.chunkSize)
      (w.parts c (w.files.chunkLen c) (filesOf w.files c 0).length 0 0 (filesOf w.files c 0)) := by
  obtain ⟨k,list,few,here,starts⟩ := MultiFileCache.filesOf_head inside
  have more : filesOf w.files c (k + 1) ≠ [] := fun none_ => several (by rw [list,none_]; rfl)
  have ends := MultiFileCache.file_ends more
  have chunk := MultiFileCache.chunkLen_eq fits inside
  have step := w.files.start_succ k
  have whole := w.files.start_le (k + 1)
  have offset := MultiFileCache.fileOffset_eq inside starts
  have first : First w.files c k := by
    obtain ⟨j,member⟩ := List.exists_mem_of_ne_nil _ more
    obtain ⟨low,_,bytes,_⟩ := mem_filesOf.mp member
    have order := w.files.start_mono low
    have total := w.files.start_le (j + 1)
    rw [start_succ] at total
    exact ⟨starts,here.2.2,ends,by omega⟩
  have size := MultiFileCache.lastChunkSize_eq fits first.lastChunk
  have after := first.more
  have some_ := here.2.2
  rw [Nat.succ_mul] at ends
  rw [list]
  unfold Checked.parts
  dsimp only [List.headD_cons]
  rw [if_pos rfl,if_pos rfl]
  refine .cons (.inl ⟨rfl,rfl,rfl⟩) ?_ ?_ ?_ ?_ ?_
  · show w.files.start k + w.files.fileOffset (w.files.file k) c = c * w.files.chunkSize
    omega
  · show 0 < uint32 (w.files.file k).lastChunkSize
    omega
  · show w.files.fileOffset (w.files.file k) c + uint32 (w.files.file k).lastChunkSize ≤ w.files.size k
    omega
  · show c * w.files.chunkSize + uint32 (w.files.file k).lastChunkSize ≤ c * w.files.chunkSize + w.files.chunkLen c
    omega
  · rw [Nat.zero_add (uint32 (w.files.file k).lastChunkSize)]
    exact parts_behind (k := k + 1) fits inside (w.files.numFiles - (k + 1)) (by omega) 1 Nat.zero_lt_one
      (uint32 (w.files.file k).lastChunkSize) (by omega) (Nat.lt_succ_self k) (k :: filesOf w.files c (k + 1)).length (Nat.add_comm _ _)
      (fun none_ => absurd none_ more)

-- What is read of the bytes from address a on to b: all of it that is on disk goes to its
-- place in the buffer, the rest of the buffer stays.
structure Fills (w : Checked) (c a b : Nat) (buf buf' : List UInt8) : Prop where
  length : buf'.length = buf.length
  here : ∀ k g, g < w.files.size k → a ≤ w.files.start k + g → w.files.start k + g < b →
    buf'[w.offset c k g]? = (w.byte c k g).or buf[w.offset c k g]?
  others : ∀ i, c * w.files.chunkSize + i < a ∨ b ≤ c * w.files.chunkSize + i → buf'[i]? = buf[i]?

-- The files that are not excluded have their bytes from address a on to b.
def Readable (w : Checked) (c a b : Nat) : Prop :=
  ∀ k g, g < w.files.size k → a ≤ w.files.start k + g → w.files.start k + g < b → w.doNotDownload k = false → (w.byte c k g).isSome = true

theorem Fills.refl (w : Checked) (c a : Nat) (buf : List UInt8) : Fills w c a a buf buf :=
  ⟨rfl,fun k g _ low high => by omega,fun _ _ => rfl⟩

theorem Fills.append {c a a' b : Nat} {buf buf₁ buf' : List UInt8} (first : Fills w c a a' buf buf₁) (second : Fills w c a' b buf₁ buf')
    (from_ : c * w.files.chunkSize ≤ a) (low : a ≤ a') (high : a' ≤ b) : Fills w c a b buf buf' := by
  refine ⟨second.length.trans first.length,?_,?_⟩
  · intro k g less above below
    have place : c * w.files.chunkSize + w.offset c k g = w.files.start k + g := by
      unfold Checked.offset
      omega
    by_cases before : w.files.start k + g < a'
    · rw [second.others _ (.inl (by omega)),first.here k g less above before]
    · rw [second.here k g less (by omega) below,first.others _ (.inr (by omega))]
  · intro i out
    rw [second.others i (by omega),first.others i (by omega)]

theorem Readable.append {c a a' b : Nat} (low : a ≤ a') (high : a' ≤ b) : Readable w c a b ↔ Readable w c a a' ∧ Readable w c a' b := by
  constructor
  · intro all
    exact ⟨fun k g less above below => all k g less above (by omega),fun k g less above below => all k g less (by omega) below⟩
  · rintro ⟨left,right⟩ k g less above below
    by_cases before : w.files.start k + g < a'
    · exact left k g less above before
    · exact right k g less (by omega) below

-- What is read of a part: its bytes up to the first one that is missing.
structure ReadOf (w : Checked) (c : Nat) (part : Part) (bytes : List UInt8) : Prop where
  short : bytes.length ≤ part.len
  each : ∀ j, j < part.len → bytes[j]? = w.byte c part.file (part.off + j)

theorem ReadOf.fills {c a : Nat} {part : Part} {bytes buf : List UInt8} (read : ReadOf w c part bytes) (from_ : c * w.files.chunkSize ≤ a)
    (at_ : w.files.start part.file + part.off = a) (inFile : part.off + part.len ≤ w.files.size part.file)
    (room : a + part.len ≤ c * w.files.chunkSize + buf.length) :
    Fills w c a (a + part.len) buf (CacheFile.splice buf bytes (a - c * w.files.chunkSize)) := by
  have short := read.short
  refine ⟨?_,?_,?_⟩
  · rw [CacheFile.splice_length _ _ _ (by omega)]
    omega
  · intro k g less above below
    obtain rfl := file_of_range less inFile (by omega) (by omega)
    have byte := read.each (g - part.off) (by omega)
    rw [show part.off + (g - part.off) = g by omega] at byte
    have place : w.offset c part.file g = a - c * w.files.chunkSize + (g - part.off) := by
      unfold Checked.offset
      omega
    rw [place,CacheFile.splice_get _ _ _ _ (by omega),← byte]
    by_cases there : g - part.off < bytes.length
    · rw [if_pos (by omega),Nat.add_sub_cancel_left,List.getElem?_eq_getElem there]
      rfl
    · rw [if_neg (by omega),List.getElem?_eq_none (show bytes.length ≤ g - part.off by omega),Option.none_or]
  · intro i out
    rw [CacheFile.splice_get _ _ _ _ (by omega),if_neg (by omega)]

theorem ReadOf.full_iff {c a : Nat} {part : Part} {bytes : List UInt8} (read : ReadOf w c part bytes)
    (at_ : w.files.start part.file + part.off = a) (inFile : part.off + part.len ≤ w.files.size part.file)
    (there : w.doNotDownload part.file = false) : bytes.length = part.len ↔ Readable w c a (a + part.len) := by
  have short := read.short
  constructor
  · intro full k g less above below _
    obtain rfl := file_of_range less inFile (by omega) (by omega)
    have byte := read.each (g - part.off) (by omega)
    rw [show part.off + (g - part.off) = g by omega,List.getElem?_eq_getElem (by omega)] at byte
    rw [← byte]
    rfl
  · intro readable
    refine Nat.le_antisymm short (Nat.le_of_not_lt fun less => ?_)
    have byte := readable part.file (part.off + bytes.length) (by omega) (by omega) (by omega) there
    rw [← read.each _ less,List.getElem?_eq_none (Nat.le_refl _)] at byte
    cases byte

theorem readOf_take {c : Nat} {part : Part} {data : List UInt8} {pos : Nat} (each : ∀ j, j < part.len → data[pos + j]? = w.byte c part.file (part.off + j)) :
    ReadOf w c part ((data.drop pos).take part.len) := by
  refine ⟨List.length_take_le _ _,fun j less => ?_⟩
  rw [List.getElem?_take_of_lt less,List.getElem?_drop]
  exact each j less

theorem file_read {c : Nat} {part : Part} {data : List UInt8} (there : w.doNotDownload part.file = false) (onDisk : w.onDisk part.file = some data) :
    ReadOf w c part ((data.drop part.off).take part.len) := by
  refine readOf_take fun j _ => ?_
  unfold Checked.byte
  rw [there,onDisk]
  rfl

def dndBytes (w : Checked) (i : Nat) (part : Part) : List UInt8 :=
  match w.dndFile part.file with
  | none => []
  | some d => if i = 0 then d.readLastChunk 0 part.len else d.readFirstChunk 0 part.len

theorem dnd_read {c i : Nat} {part : Part} (excluded : w.doNotDownload part.file = true)
    (role : i = 0 ∧ part.file = (filesOf w.files c 0).headD 0 ∧ part.off = w.files.fileOffset (w.files.file ((filesOf w.files c 0).headD 0)) c ∨
      0 < i ∧ part.file ≠ (filesOf w.files c 0).headD 0 ∧ part.off = 0) : ReadOf w c part (dndBytes w i part) := by
  have byte : ∀ g, w.byte c part.file g = (w.dndFile part.file).bind fun d => d.data[w.kept c part.file g]? := fun g => by
    unfold Checked.byte
    rw [if_pos excluded]
  unfold dndBytes
  cases there : w.dndFile part.file with
  | none =>
    refine ⟨Nat.zero_le _,fun j _ => ?_⟩
    rw [byte,there]
    rfl
  | some d =>
    have size : d.firstSize = (DNDFile.create (w.files.file part.file) w.files.chunkSize).firstSize := by
      unfold Checked.dndFile at there
      obtain ⟨bytes,_,made⟩ := Option.map_eq_some_iff.mp there
      rw [← made]
    rcases role with ⟨first,head,off⟩ | ⟨later,other,off⟩
    · dsimp only
      rw [if_pos first]
      refine readOf_take fun j _ => ?_
      rw [byte,there,Option.bind_some,Checked.kept,if_pos head,size,off,head,Nat.add_sub_cancel_left,Nat.add_zero]
    · dsimp only
      rw [if_neg (by omega)]
      refine readOf_take fun j _ => ?_
      rw [byte,there,Option.bind_some,Checked.kept,if_neg other,off]

-- Every file that is open is there.
def Opened (w : Checked) (m : MultiDataChecker) : Prop := ∀ k, k ∈ m.files → (w.onDisk k).isSome = true

theorem open_spec {m : MultiDataChecker} {k : Nat} (opened : Opened w m) :
    ((w.onDisk k).isSome = false → m.open_ w k = none) ∧
      ((w.onDisk k).isSome = true → ∃ m', m.open_ w k = some m' ∧ m' = {m with files := m'.files} ∧ Opened w m') := by
  unfold MultiDataChecker.open_
  constructor
  · intro gone
    rw [if_neg (fun member => by rw [opened k member] at gone; cases gone),if_neg (by rw [gone]; exact Bool.false_ne_true)]
  · intro there
    by_cases already : k ∈ m.files
    · exact ⟨m,if_pos already,rfl,opened⟩
    · refine ⟨{m with files := k :: m.files},?_,rfl,?_⟩
      · rw [if_neg already,if_pos there]
      · intro j member
        rcases List.mem_cons.mp member with same | old
        · rw [same]
          exact there
        · exact opened j old

structure Loaded (w : Checked) (c a b : Nat) (m : MultiDataChecker) (ok : Bool) (m' : MultiDataChecker) : Prop where
  only : m' = {m with buf := m'.buf,files := m'.files}
  opened : Opened w m'
  length : m'.buf.length = m.buf.length
  readable : ok = true ↔ Readable w c a b
  fills : ok = true → Fills w c a b m.buf m'.buf

theorem Loaded.onward {c a a' b : Nat} {m m₁ m' : MultiDataChecker} {ok : Bool} (after : Loaded w c a' b m₁ ok m')
    (only : m₁ = {m with buf := m₁.buf,files := m₁.files}) (fills : Fills w c a a' m.buf m₁.buf) (readable : Readable w c a a')
    (from_ : c * w.files.chunkSize ≤ a) (low : a ≤ a') (high : a' ≤ b) : Loaded w c a b m ok m' := by
  refine ⟨?_,after.opened,after.length.trans fills.length,?_,fun done => fills.append (after.fills done) from_ low high⟩
  · rw [after.only,only]
  · rw [after.readable,Readable.append low high]
    exact ⟨fun right => ⟨readable,right⟩,fun both => both.2⟩

theorem Loaded.stopped {c a a' b : Nat} {m m' : MultiDataChecker} (only : m' = {m with buf := m'.buf,files := m'.files}) (opened : Opened w m')
    (length : m'.buf.length = m.buf.length) (unreadable : ¬ Readable w c a a') (low : a ≤ a') (high : a' ≤ b) : Loaded w c a b m false m' := by
  refine ⟨only,opened,length,⟨fun no => Bool.noConfusion no,fun all => ?_⟩,fun no => Bool.noConfusion no⟩
  exact absurd ((Readable.append low high).mp all).1 unreadable

theorem excluded_readable {c a : Nat} {part : Part} (excluded : w.doNotDownload part.file = true) (at_ : w.files.start part.file + part.off = a)
    (inFile : part.off + part.len ≤ w.files.size part.file) : Readable w c a (a + part.len) := by
  intro k g less above below wanted
  rw [file_of_range less inFile (by omega) (by omega),excluded] at wanted
  cases wanted

-- The first byte of a part is missing when its file ends before it.
theorem unreadable_of_short {c a : Nat} {part : Part} (wanted : w.doNotDownload part.file = false) (at_ : w.files.start part.file + part.off = a)
    (some_ : 0 < part.len) (inFile : part.off + part.len ≤ w.files.size part.file)
    (short : ((w.onDisk part.file).bind fun data => data[part.off]?) = none) : ¬ Readable w c a (a + part.len) := by
  intro readable
  have byte := readable part.file part.off (by omega) (by omega) (by omega) wanted
  unfold Checked.byte at byte
  rw [if_neg (by rw [wanted]; exact Bool.false_ne_true),short] at byte
  cases byte

theorem dndBytes_none {i : Nat} {part : Part} (none_ : w.dndFile part.file = none) (m : MultiDataChecker) (read : Nat) :
    {m with buf := CacheFile.splice m.buf (dndBytes w i part) read} = m := by
  unfold dndBytes CacheFile.splice
  rw [none_]
  simp

-- By induction on the parts that are left.
theorem loadParts_spec {c b i a : Nat} {list : List Part} (chain : PartsFrom w c ((filesOf w.files c 0).headD 0) b i a list)
    (from_ : c * w.files.chunkSize ≤ a) (m : MultiDataChecker) (opened : Opened w m) (room : b ≤ c * w.files.chunkSize + m.buf.length) :
    ∃ ok m', MultiDataChecker.loadParts w i (a - c * w.files.chunkSize) list m = (ok,m') ∧ Loaded w c a b m ok m' := by
  induction chain generalizing m with
  | nil => exact ⟨true,m,rfl,rfl,opened,rfl,⟨fun _ k g _ low high => by omega,fun _ => rfl⟩,fun _ => .refl w c b m.buf⟩
  | @cons i a part more role at_ some_ inFile upTo rest ih =>
    have low := Nat.le_add_right a part.len
    -- What follows a part that was read.
    have goes : ∀ (bytes : List UInt8) (m₁ : MultiDataChecker), ReadOf w c part bytes → m₁ = {m with files := m₁.files} → Opened w m₁ →
        Readable w c a (a + part.len) → ∃ ok m',
        MultiDataChecker.loadParts w (i + 1) (a - c * w.files.chunkSize + part.len) more
          {m₁ with buf := CacheFile.splice m₁.buf bytes (a - c * w.files.chunkSize)} = (ok,m') ∧ Loaded w c a b m ok m' := by
      intro bytes m₁ read only opened₁ readable
      have buf : m₁.buf = m.buf := by rw [only]
      have fills := read.fills from_ at_ inFile (show a + part.len ≤ c * w.files.chunkSize + m.buf.length by omega)
      rw [← buf] at fills
      obtain ⟨ok,m',loaded,after⟩ := ih (by omega) {m₁ with buf := CacheFile.splice m₁.buf bytes (a - c * w.files.chunkSize)} opened₁
        (by rw [fills.length,buf]; exact room)
      rw [show a - c * w.files.chunkSize + part.len = a + part.len - c * w.files.chunkSize by omega]
      refine ⟨ok,m',loaded,after.onward ?_ ?_ readable from_ low upTo⟩
      · rw [only]
      · rw [← buf]
        exact fills
    unfold MultiDataChecker.loadParts
    cases excluded : w.doNotDownload part.file with
    | true =>
      have found := goes (dndBytes w i part) m (dnd_read excluded role) rfl opened (excluded_readable excluded at_ inFile)
      rw [if_pos rfl]
      cases dnd : w.dndFile part.file with
      | none =>
        rw [dndBytes_none dnd] at found
        exact found
      | some d =>
        unfold dndBytes at found
        rw [dnd] at found
        exact found
    | false =>
      rw [if_neg Bool.false_ne_true]
      have short := unreadable_of_short (c := c) excluded at_ some_ inFile
      cases onDisk : w.onDisk part.file with
      | none => exact ⟨false,m,rfl,.stopped rfl opened rfl (short (by rw [onDisk]; rfl)) low upTo⟩
      | some data =>
        dsimp only
        by_cases before : data.length < part.off
        · rw [if_pos before]
          exact ⟨false,m,rfl,.stopped rfl opened rfl (short (by rw [onDisk]; exact List.getElem?_eq_none (Nat.le_of_lt before))) low upTo⟩
        · obtain ⟨m₁,isOpen,only,opened₁⟩ := (open_spec opened).2 (show (w.onDisk part.file).isSome = true by rw [onDisk]; rfl)
          have read := file_read (c := c) excluded onDisk
          have fits := read.short
          have buf : m₁.buf = m.buf := by rw [only]
          rw [if_neg before,isOpen]
          dsimp only
          unfold MultiDataChecker.readFile
          rw [onDisk,Option.getD_some]
          dsimp only
          by_cases full : ((data.drop part.off).take part.len).length = part.len
          · rw [if_neg (fun part_ => part_ full)]
            exact goes _ m₁ read only opened₁ ((read.full_iff at_ inFile excluded).mp full)
          · rw [if_pos full]
            refine ⟨false,_,rfl,.stopped ?_ opened₁ ?_ (fun readable => full ((read.full_iff at_ inFile excluded).mpr readable)) low upTo⟩
            · rw [only]
            · rw [CacheFile.splice_length _ _ _ (by rw [buf]; omega),buf]
              omega

theorem single_iff {c k : Nat} (fits : w.files.chunkSize < 4294967296) (inside : c < w.files.numChunks) :
    filesOf w.files c 0 = [k] ↔ w.Inside c k := by
  have chunk := MultiFileCache.chunkLen_eq fits inside
  have whole := lt_numChunks.mp inside
  have positive := w.files.chunked
  obtain ⟨head,list,few,here,starts⟩ := MultiFileCache.filesOf_head inside
  rw [list]
  constructor
  · intro single
    have only : filesOf w.files c (head + 1) = [] := (List.cons.inj single).2
    obtain rfl := (List.cons.inj single).1
    exact ⟨starts,MultiFileCache.chunk_ends fits inside here only⟩
  · rintro ⟨low,high⟩
    have ends := here.2.2
    obtain rfl := file_of_range (k := k) (g := c * w.files.chunkSize - w.files.start k) (by omega) (Nat.le_refl (w.files.size head)) (by omega) (by omega)
    have none_ : filesOf w.files c (k + 1) = [] := by
      apply List.eq_nil_iff_forall_not_mem.mpr
      intro j member
      obtain ⟨after,_,some_,start,_⟩ := mem_filesOf.mp member
      have order := w.files.start_mono after
      have total := w.files.start_le (j + 1)
      rw [Nat.succ_mul] at start
      rw [start_succ] at order total
      omega
    rw [none_]

structure Fit (w : Checked) (m : MultiDataChecker) : Prop where
  pos : PosValid w.files m.pos
  opened : Opened w m
  length : m.buf.length = w.files.chunkSize

-- A chunk is loaded, whatever chunks were before.
structure LoadedChunk (w : Checked) (c : Nat) (m : MultiDataChecker) (ok : Bool) (m' : MultiDataChecker) : Prop where
  fit : Fit w m'
  only : m' = {m with buf := m'.buf,files := m'.files,pos := m'.pos}
  readable : ok = true ↔ (∀ k, w.Inside c k → w.doNotDownload k = false) ∧
    Readable w c (c * w.files.chunkSize) (c * w.files.chunkSize + w.files.chunkLen c)
  fills : ok = true → Fills w c (c * w.files.chunkSize) (c * w.files.chunkSize + w.files.chunkLen c) m.buf m'.buf

def starting (w : Checked) (m : MultiDataChecker) (pos : PosCache) (c : Nat) : MultiDataChecker :=
  {m with pos := pos}.closePastFiles ((filesOf w.files c 0).headD 0)

theorem starting_fit {m : MultiDataChecker} {pos : PosCache} (fit : Fit w m) (valid : PosValid w.files pos) (c : Nat) : Fit w (starting w m pos c) :=
  ⟨valid,fun k member => fit.opened k (List.mem_of_mem_filter member),fit.length⟩

theorem loadChunk_single {c k : Nat} {m : MultiDataChecker} (fits : w.files.chunkSize < 4294967296) (inside : c < w.files.numChunks) (fit : Fit w m)
    (single : filesOf w.files c 0 = [k]) : ∃ pos, PosValid w.files pos ∧
    m.loadChunk w c (w.chunkSizeOf c) =
      if w.doNotDownload k then some (false,starting w m pos c)
      else ((starting w m pos c).open_ w k).map fun m =>
        ((m.readFile w k (w.files.fileOffset (w.files.file k) c) (w.files.chunkLen c) 0).1 == w.files.chunkLen c,
          (m.readFile w k (w.files.fileOffset (w.files.file k) c) (w.files.chunkLen c) 0).2) := by
  have found := calcChunkPos_spec fit.pos inside
  unfold MultiDataChecker.loadChunk starting
  rw [chunkSizeOf_eq fits inside]
  generalize w.files.calcChunkPos m.pos c = place at found
  obtain ⟨list,pos⟩ := place
  obtain ⟨same,valid⟩ := found
  dsimp only at same valid
  rw [single] at same ⊢
  subst same
  exact ⟨pos,valid,rfl⟩

theorem loadChunk_several {c : Nat} {m : MultiDataChecker} (fits : w.files.chunkSize < 4294967296) (inside : c < w.files.numChunks) (fit : Fit w m)
    (several : (filesOf w.files c 0).length ≠ 1) : ∃ pos, PosValid w.files pos ∧
    m.loadChunk w c (w.chunkSizeOf c) = some (MultiDataChecker.loadParts w 0 0
      (w.parts c (w.files.chunkLen c) (filesOf w.files c 0).length 0 0 (filesOf w.files c 0)) (starting w m pos c)) := by
  have found := calcChunkPos_spec fit.pos inside
  unfold MultiDataChecker.loadChunk starting
  rw [chunkSizeOf_eq fits inside]
  generalize w.files.calcChunkPos m.pos c = place at found
  obtain ⟨list,pos⟩ := place
  obtain ⟨same,valid⟩ := found
  dsimp only at same valid
  rw [← same] at several ⊢
  refine ⟨pos,valid,?_⟩
  match list with
  | [] => rfl
  | [k] => exact absurd rfl several
  | k :: j :: rest => rfl

theorem loadChunk_spec {c : Nat} {m : MultiDataChecker} (fits : w.files.chunkSize < 4294967296) (inside : c < w.files.numChunks) (fit : Fit w m)
    (there : ∀ k, w.Inside c k → w.doNotDownload k = false → (w.onDisk k).isSome = true) :
    ∃ ok m', m.loadChunk w c (w.chunkSizeOf c) = some (ok,m') ∧ LoadedChunk w c m ok m' := by
  have chunk := MultiFileCache.chunkLen_eq fits inside
  by_cases several : (filesOf w.files c 0).length ≠ 1
  · obtain ⟨pos,valid,load⟩ := loadChunk_several fits inside fit several
    have started := starting_fit fit valid c
    obtain ⟨ok,m',loaded,after⟩ := loadParts_spec (parts_chunk fits inside several) (Nat.le_refl _) (starting w m pos c) started.opened
      (by rw [started.length]; omega)
    rw [Nat.sub_self] at loaded
    refine ⟨ok,m',by rw [load,loaded],⟨?_,after.opened,after.length.trans started.length⟩,?_,?_,after.fills⟩
    · rw [after.only]
      exact valid
    · rw [after.only]
      rfl
    · rw [after.readable]
      refine ⟨fun all => ⟨fun k one => ?_,all⟩,fun both => both.2⟩
      rw [(single_iff fits inside).mpr one] at several
      exact absurd rfl several
  · obtain ⟨k,single⟩ := List.length_eq_one_iff.mp (Decidable.of_not_not several)
    have one := (single_iff fits inside).mp single
    have unique : ∀ j, w.Inside c j → j = k := fun j other => by
      rw [(single_iff fits inside).mpr other] at single
      exact (List.cons.inj single).1
    obtain ⟨pos,valid,load⟩ := loadChunk_single fits inside fit single
    have started := starting_fit fit valid c
    rw [load]
    cases excluded : w.doNotDownload k with
    | true =>
      refine ⟨false,_,if_pos rfl,started,rfl,?_,fun no => Bool.noConfusion no⟩
      refine ⟨fun no => Bool.noConfusion no,fun both => ?_⟩
      have wanted := both.1 k one
      rw [excluded] at wanted
      cases wanted
    | false =>
      rw [if_neg Bool.false_ne_true]
      obtain ⟨m₁,isOpen,only,opened⟩ := (open_spec started.opened).2 (there k one excluded)
      obtain ⟨data,onDisk⟩ := Option.isSome_iff_exists.mp (there k one excluded)
      have offset := MultiFileCache.fileOffset_eq inside one.1
      have low := one.1
      have high := one.2
      have buf : m₁.buf = m.buf := by rw [only]; rfl
      have length : m₁.buf.length = w.files.chunkSize := by rw [buf]; exact fit.length
      have read : ReadOf w c ⟨k,w.files.fileOffset (w.files.file k) c,w.files.chunkLen c⟩
          ((data.drop (w.files.fileOffset (w.files.file k) c)).take (w.files.chunkLen c)) := file_read excluded onDisk
      have at_ : w.files.start k + w.files.fileOffset (w.files.file k) c = c * w.files.chunkSize := by omega
      have inFile : w.files.fileOffset (w.files.file k) c + w.files.chunkLen c ≤ w.files.size k := by omega
      have room : c * w.files.chunkSize + w.files.chunkLen c ≤ c * w.files.chunkSize + m₁.buf.length := by omega
      have fills := read.fills (Nat.le_refl _) at_ inFile room
      have full := read.full_iff at_ inFile excluded
      rw [Nat.sub_self] at fills
      rw [isOpen,Option.map_some]
      unfold MultiDataChecker.readFile
      rw [onDisk,Option.getD_some]
      refine ⟨_,_,rfl,⟨?_,opened,?_⟩,?_,?_,?_⟩
      · rw [only]
        exact valid
      · exact fills.length.trans length
      · rw [only]
        rfl
      · rw [beq_iff_eq]
        refine ⟨fun done => ⟨fun j other => by rw [unique j other]; exact excluded,full.mp done⟩,fun both => full.mpr both.2⟩
      · intro _
        rw [← buf]
        exact fills

theorem loadChunk_throws {c k : Nat} {m : MultiDataChecker} (fits : w.files.chunkSize < 4294967296) (inside : c < w.files.numChunks) (fit : Fit w m)
    (one : w.Inside c k) (wanted : w.doNotDownload k = false) (gone : (w.onDisk k).isSome = false) :
    m.loadChunk w c (w.chunkSizeOf c) = none := by
  obtain ⟨pos,valid,load⟩ := loadChunk_single fits inside fit ((single_iff fits inside).mpr one)
  rw [load,if_neg (by rw [wanted]; exact Bool.false_ne_true),(open_spec (starting_fit fit valid c).opened).1 gone]
  rfl

theorem offset_lt {c k g : Nat} (here : w.InChunk c k g) : w.offset c k g < w.files.chunkLen c := by
  have low := here.low
  have high := here.high
  unfold Checked.offset
  omega

theorem chunk_bytes_ext {c : Nat} {bytes bytes' : List UInt8} (fits : w.files.chunkSize < 4294967296) (inside : c < w.files.numChunks)
    (length : bytes.length = w.files.chunkLen c) (length' : bytes'.length = w.files.chunkLen c)
    (same : ∀ k g, w.InChunk c k g → bytes[w.offset c k g]? = bytes'[w.offset c k g]?) : bytes = bytes' := by
  have chunk := MultiFileCache.chunkLen_eq fits inside
  apply List.ext_getElem?
  intro i
  by_cases within : i < w.files.chunkLen c
  · obtain ⟨k,few,low,high⟩ := exists_file (t := w.files) (x := c * w.files.chunkSize + i) (by omega)
    have at_ := same k (c * w.files.chunkSize + i - w.files.start k) ⟨by omega,by omega,by omega⟩
    have place : w.offset c k (c * w.files.chunkSize + i - w.files.start k) = i := by
      unfold Checked.offset
      omega
    rwa [place] at at_
  · rw [List.getElem?_eq_none (by omega),List.getElem?_eq_none (by omega)]

theorem LoadedChunk.bytes {c : Nat} {m m' : MultiDataChecker} (loaded : LoadedChunk w c m true m') (fits : w.files.chunkSize < 4294967296)
    (inside : c < w.files.numChunks) : (m'.buf.take (w.files.chunkLen c)).length = w.files.chunkLen c ∧
    ∀ k g, w.InChunk c k g → (m'.buf.take (w.files.chunkLen c))[w.offset c k g]? = (w.byte c k g).or m.buf[w.offset c k g]? := by
  have chunk := MultiFileCache.chunkLen_eq fits inside
  have length := loaded.fit.length
  refine ⟨?_,fun k g here => ?_⟩
  · rw [List.length_take]
    omega
  · rw [List.getElem?_take_of_lt (offset_lt here)]
    exact (loaded.fills rfl).here k g here.inFile here.low here.high

-- Where a chunk is loaded and has the torrent's hash, it is intact or the bytes in the
-- buffer complete it.
theorem LoadedChunk.intact_or_completes {c : Nat} {m m' : MultiDataChecker} (loaded : LoadedChunk w c m true m') (fits : w.files.chunkSize < 4294967296)
    (inside : c < w.files.numChunks) (hash : w.sha1 (m'.buf.take (w.files.chunkLen c)) = w.hash c) :
    w.Intact c ∨ w.Completes c (m'.buf.take (w.files.chunkLen c)) := by
  obtain ⟨length,each⟩ := loaded.bytes fits inside
  obtain ⟨spread,readable⟩ := loaded.readable.mp rfl
  by_cases whole : ∀ k g, w.InChunk c k g → (w.byte c k g).isSome = true
  · refine .inl ⟨spread,_,length,fun k g here => ?_,hash⟩
    obtain ⟨byte,there⟩ := Option.isSome_iff_exists.mp (whole k g here)
    rw [each k g here,there]
    rfl
  · have missing : ∃ k g, w.InChunk c k g ∧ w.byte c k g = none := by
      by_contra none_
      refine whole fun k g here => ?_
      cases byte : w.byte c k g with
      | none => exact absurd ⟨k,g,here,byte⟩ none_
      | some b => rfl
    refine .inr ⟨length,hash,spread,missing,fun k g here => readable k g here.inFile here.low here.high,?_⟩
    intro k g b here byte
    rw [each k g here,byte]
    rfl

theorem LoadedChunk.of_intact {c : Nat} {m m' : MultiDataChecker} {ok : Bool} (loaded : LoadedChunk w c m ok m') (fits : w.files.chunkSize < 4294967296)
    (inside : c < w.files.numChunks) (intact : w.Intact c) : ok = true ∧ w.sha1 (m'.buf.take (w.files.chunkLen c)) = w.hash c := by
  obtain ⟨bytes,length,each,hash⟩ := intact.bytes
  have there : ∀ k g, w.InChunk c k g → (w.byte c k g).isSome = true := fun k g here => by
    rw [each k g here,List.getElem?_eq_getElem (by rw [length]; exact offset_lt here)]
    rfl
  have ok_ : ok = true := loaded.readable.mpr ⟨intact.spread,fun k g less low high _ => there k g ⟨less,low,high⟩⟩
  subst ok_
  obtain ⟨length',each'⟩ := loaded.bytes fits inside
  refine ⟨rfl,?_⟩
  rw [chunk_bytes_ext fits inside length' length fun k g here => ?_,hash]
  rw [each' k g here,← each k g here,Option.or_of_isSome (there k g here)]

-- Bytes that complete a chunk pass for it when the buffer holds them.
theorem LoadedChunk.of_completes {c : Nat} {m m' : MultiDataChecker} {ok : Bool} {bytes : List UInt8} (loaded : LoadedChunk w c m ok m')
    (fits : w.files.chunkSize < 4294967296) (inside : c < w.files.numChunks) (completes : w.Completes c bytes)
    (before : m.buf.take (w.files.chunkLen c) = bytes) : ok = true ∧ w.sha1 (m'.buf.take (w.files.chunkLen c)) = w.hash c := by
  have ok_ : ok = true := loaded.readable.mpr ⟨completes.spread,fun k g less low high wanted => completes.there k g ⟨less,low,high⟩ wanted⟩
  subst ok_
  obtain ⟨length,each⟩ := loaded.bytes fits inside
  refine ⟨rfl,?_⟩
  rw [chunk_bytes_ext fits inside length completes.length fun k g here => ?_,completes.hash]
  rw [each k g here]
  cases byte : w.byte c k g with
  | none => rw [Option.none_or,← before,List.getElem?_take_of_lt (offset_lt here)]
  | some b => exact (completes.agrees k g b here byte).symm

theorem completes_not_intact {c : Nat} {bytes : List UInt8} (completes : w.Completes c bytes) : ¬ w.Intact c := by
  rintro ⟨_,bytes',length,each,_⟩
  obtain ⟨k,g,here,missing⟩ := completes.missing
  have there := each k g here
  rw [missing,List.getElem?_eq_getElem (by rw [length]; exact offset_lt here)] at there
  cases there

def MultiDataChecker.counted (m : MultiDataChecker) : Nat := m.downloaded + m.failed + m.found + m.notDownloaded

-- A chunk is checked: its bit is set when good, and it is counted.
structure ChecksChunk (w : Checked) (c : Nat) (good : Prop) (m m' : MultiDataChecker) : Prop where
  fit : Fit w m'
  others : ∀ d, d ≠ c → m'.result d = m.result d
  bit : m.result c = false → (m'.result c = true ↔ good)
  counted : m'.counted = m.counted + 1

-- Only the bit and one of the counters change.
theorem ChecksChunk.of_counter {c : Nat} {m m₁ m' : MultiDataChecker} {good : Prop} {bit : Bool} (fit : Fit w m₁) (result : m₁.result = m.result)
    (counted : m₁.counted = m.counted) (pos : m'.pos = m₁.pos) (files : m'.files = m₁.files) (buf : m'.buf = m₁.buf)
    (set_ : m'.result = fun d => if d = c then bit else m₁.result d) (good_ : m.result c = false → (bit = true ↔ good)) (counts : m'.counted = m₁.counted + 1) :
    ChecksChunk w c good m m' := by
  refine ⟨⟨?_,?_,?_⟩,fun d other => ?_,fun unset => ?_,by omega⟩
  · rw [pos]
    exact fit.pos
  · unfold Opened
    rw [files]
    exact fit.opened
  · rw [buf]
    exact fit.length
  · rw [set_,← result]
    exact if_neg other
  · rw [set_,← good_ unset]
    simp only [if_true]

theorem checkChunk_loaded {c : Nat} {m m₁ : MultiDataChecker} {ok : Bool} (fits : w.files.chunkSize < 4294967296) (inside : c < w.files.numChunks)
    (load : m.loadChunk w c (w.chunkSizeOf c) = some (ok,m₁)) (loaded : LoadedChunk w c m ok m₁) (currentStatus : Nat → Bool) :
    ∃ m', m.checkChunk w currentStatus c = some m' ∧ ChecksChunk w c (ok = true ∧ w.sha1 (m₁.buf.take (w.files.chunkLen c)) = w.hash c) m m' := by
  have result : m₁.result = m.result := by rw [loaded.only]
  have counted : m₁.counted = m.counted := by rw [loaded.only]; rfl
  have sum : ∀ m : MultiDataChecker, m.counted = m.downloaded + m.failed + m.found + m.notDownloaded := fun _ => rfl
  unfold MultiDataChecker.checkChunk
  rw [load]
  cases ok with
  | false =>
    -- The bit stays as it was.
    have bit : (fun d => if d = c then m₁.result c else m₁.result d) = m₁.result := funext fun d => by
      split
      · rename_i same
        rw [same]
      · rfl
    have good : m.result c = false →
        (m₁.result c = true ↔ false = true ∧ w.sha1 (m₁.buf.take (w.files.chunkLen c)) = w.hash c) := fun unset => by
      rw [result,unset]
      exact ⟨fun no => Bool.noConfusion no,fun both => both.1⟩
    refine ⟨_,rfl,?_⟩
    cases currentStatus c with
    | true => exact .of_counter loaded.fit result counted rfl rfl rfl bit.symm good (by simp only [sum,if_true]; omega)
    | false => exact .of_counter loaded.fit result counted rfl rfl rfl bit.symm good (by simp only [sum,Bool.false_eq_true,if_false]; omega)
  | true =>
    have good : m.result c = false → ((w.sha1 (m₁.buf.take (w.files.chunkLen c)) == w.hash c) = true ↔
        true = true ∧ w.sha1 (m₁.buf.take (w.files.chunkLen c)) = w.hash c) := fun _ => by
      rw [beq_iff_eq]
      exact ⟨fun hash => ⟨rfl,hash⟩,fun both => both.2⟩
    refine ⟨_,rfl,?_⟩
    rw [chunkSizeOf_eq fits inside]
    generalize (w.sha1 (m₁.buf.take (w.files.chunkLen c)) == w.hash c) = bit at good ⊢
    cases bit <;> cases currentStatus c <;>
      exact .of_counter loaded.fit result counted rfl rfl rfl rfl good (by simp only [sum]; omega)

-- What was checked so far from chunk first on.
structure Sofar (w : Checked) (first next : Nat) (m : MultiDataChecker) : Prop where
  fit : Fit w m
  bits : ∀ c, m.result c = true ↔ first ≤ c ∧ c < next ∧ w.Intact c
  counted : m.counted = next - first

theorem new_sofar {memory : List UInt8} {pos : PosCache} (whole : memory.length = w.files.chunkSize) (valid : PosValid w.files pos) (first : Nat) :
    Sofar w first first (MultiDataChecker.new memory pos) :=
  ⟨⟨valid,fun _ member => (nomatch member),whole⟩,fun c => ⟨fun no => Bool.noConfusion no,fun range => by omega⟩,(Nat.sub_self first).symm⟩

-- The chunks for which a data check does what it should.
structure Sound (w : Checked) (c : Nat) : Prop where
  there : ∀ k, w.Inside c k → w.doNotDownload k = false → (w.onDisk k).isSome = true
  telling : ∀ bytes, ¬ w.Completes c bytes

theorem Sofar.checkChunk {first c : Nat} {m : MultiDataChecker} (fits : w.files.chunkSize < 4294967296) (inside : c < w.files.numChunks) (sound : Sound w c)
    (sofar : Sofar w first c m) (from_ : first ≤ c) (currentStatus : Nat → Bool) :
    ∃ m', m.checkChunk w currentStatus c = some m' ∧ Sofar w first (c + 1) m' := by
  obtain ⟨ok,m₁,load,loaded⟩ := loadChunk_spec fits inside sofar.fit sound.there
  obtain ⟨m',checked,after⟩ := checkChunk_loaded fits inside load loaded currentStatus
  have unset : m.result c = false := by
    apply Bool.eq_false_iff.mpr
    intro already
    have before := ((sofar.bits c).mp already).2.1
    exact Nat.lt_irrefl c before
  have counted := sofar.counted
  refine ⟨m',checked,after.fit,fun d => ?_,by rw [after.counted]; omega⟩
  by_cases here : d = c
  · subst here
    rw [after.bit unset]
    constructor
    · rintro ⟨ok_,hash⟩
      subst ok_
      rcases loaded.intact_or_completes fits inside hash with intact | completes
      · exact ⟨from_,Nat.lt_succ_self d,intact⟩
      · exact absurd completes (sound.telling _)
    · intro range
      exact loaded.of_intact fits inside range.2.2
  · rw [after.others d here,sofar.bits d]
    constructor
    · intro range
      exact ⟨range.1,Nat.lt_succ_of_lt range.2.1,range.2.2⟩
    · intro range
      have before := range.2.1
      exact ⟨range.1,by omega,range.2.2⟩

-- By induction on the number of chunks that are left.
theorem Sofar.run {first : Nat} (fits : w.files.chunkSize < 4294967296) (sound : ∀ c, c < w.files.numChunks → Sound w c) (currentStatus : Nat → Bool)
    (n : Nat) {c : Nat} {m : MultiDataChecker} (upTo_ : c + n ≤ w.files.numChunks) (from_ : first ≤ c) (sofar : Sofar w first c m) :
    ∃ m', (List.range' c n).foldlM (fun m c => m.checkChunk w currentStatus c) m = some m' ∧ Sofar w first (c + n) m' := by
  induction n generalizing c m with
  | zero => exact ⟨m,rfl,sofar⟩
  | succ n ih =>
    obtain ⟨m₁,checked,after⟩ := sofar.checkChunk fits (by omega) (sound c (by omega)) from_ currentStatus
    obtain ⟨m',rest,end_⟩ := ih (by omega) (by omega) after
    refine ⟨m',?_,by rw [show c + (n + 1) = c + 1 + n by omega]; exact end_⟩
    rw [List.range'_succ,List.foldlM_cons,checked]
    exact rest

theorem check_inside {first last : Nat} {memory : List UInt8} {pos : PosCache} {currentStatus : Nat → Bool} (order : first ≤ last) (inside : last < w.files.numChunks) :
    MultiDataChecker.check w currentStatus memory pos first last =
      (upTo first last).foldlM (fun m c => m.checkChunk w currentStatus c) (MultiDataChecker.new memory pos) := by
  unfold MultiDataChecker.check
  dsimp only
  rw [if_neg (by omega),if_neg (by omega)]

theorem check_reports {first last : Nat} {memory : List UInt8} {pos : PosCache} {currentStatus : Nat → Bool} (fits : w.files.chunkSize < 4294967296)
    (sound : ∀ c, c < w.files.numChunks → Sound w c) (whole : memory.length = w.files.chunkSize) (valid : PosValid w.files pos)
    (order : first ≤ last) (inside : last < w.files.numChunks) : Reports w currentStatus memory pos first last := by
  obtain ⟨m,checked,sofar⟩ := Sofar.run fits sound currentStatus (last + 1 - first) (by omega) (Nat.le_refl first) (new_sofar whole valid first)
  have counted := sofar.counted
  refine ⟨m,(check_inside order inside).trans checked,fun c low high => ?_,?_⟩
  · rw [sofar.bits c]
    exact ⟨fun range => range.2.2,fun intact => ⟨low,by omega,intact⟩⟩
  · show m.counted = _
    omega

theorem check_one {c : Nat} {memory : List UInt8} {pos : PosCache} {currentStatus : Nat → Bool} (inside : c < w.files.numChunks) :
    MultiDataChecker.check w currentStatus memory pos c c = (MultiDataChecker.new memory pos).checkChunk w currentStatus c := by
  rw [check_inside (Nat.le_refl c) inside,upTo_cons (Nat.le_refl c),upTo_nil (Nat.lt_succ_self c),List.foldlM_cons]
  cases (MultiDataChecker.new memory pos).checkChunk w currentStatus c with
  | none => rfl
  | some m => rfl

-- A chunk that is reported as it should be, alone and with any bytes in the buffer.
theorem sound_of_reports {c : Nat} {pos : PosCache} (fits : w.files.chunkSize < 4294967296) (inside : c < w.files.numChunks) (valid : PosValid w.files pos)
    (reports : ∀ memory : List UInt8, memory.length = w.files.chunkSize → Reports w (fun _ => false) memory pos c c) : Sound w c := by
  have chunk := MultiFileCache.chunkLen_eq fits inside
  have fit : ∀ memory : List UInt8, memory.length = w.files.chunkSize → Fit w (MultiDataChecker.new memory pos) := fun memory whole =>
    (new_sofar whole valid c).fit
  have there : ∀ k, w.Inside c k → w.doNotDownload k = false → (w.onDisk k).isSome = true := by
    intro k one wanted
    apply Bool.eq_true_of_not_eq_false
    intro gone
    have whole : (List.replicate w.files.chunkSize (0 : UInt8)).length = w.files.chunkSize := List.length_replicate
    obtain ⟨m,checked,_⟩ := reports _ whole
    rw [check_one inside] at checked
    unfold MultiDataChecker.checkChunk at checked
    rw [loadChunk_throws fits inside (fit _ whole) one wanted gone] at checked
    cases checked
  refine ⟨there,fun bytes completes => ?_⟩
  have whole : (bytes ++ List.replicate (w.files.chunkSize - w.files.chunkLen c) 0).length = w.files.chunkSize := by
    rw [List.length_append,List.length_replicate,completes.length]
    omega
  obtain ⟨m,checked,bits,_⟩ := reports _ whole
  obtain ⟨ok,m₁,load,loaded⟩ := loadChunk_spec fits inside (fit _ whole) there
  obtain ⟨m',checked',after⟩ := checkChunk_loaded fits inside load loaded fun _ => false
  rw [check_one inside,checked'] at checked
  cases checked
  have before : (MultiDataChecker.new (bytes ++ List.replicate (w.files.chunkSize - w.files.chunkLen c) 0) pos).buf.take (w.files.chunkLen c) = bytes := by
    show (bytes ++ _).take _ = bytes
    rw [← completes.length]
    exact List.take_left
  have bit := (after.bit rfl).mpr (loaded.of_completes fits inside completes before)
  exact completes_not_intact completes ((bits c (Nat.le_refl c) (Nat.le_refl c)).mp bit)


-- savePiece keeps the bytes of an excluded file's part where they are looked for.
theorem kept_saved {c j : Nat} {disk : Disk} {d : DNDFile} {part : Part} {bytes : List UInt8} (fits : w.files.chunkSize < 4294967296)
    (inside : c < w.files.numChunks) (several : (filesOf w.files c 0).length ≠ 1) (excluded : disk.dndFiles part.file = some d)
    (size : d.firstSize = (DNDFile.create (w.files.file part.file) w.files.chunkSize).firstSize) (inFile : part.off < w.files.size part.file)
    (low : c * w.files.chunkSize ≤ w.files.start part.file + part.off) (high : w.files.start part.file + part.off < (c + 1) * w.files.chunkSize)
    (less : j < bytes.length) :
    ∃ disk' d', disk.writePart w.files c ((filesOf w.files c 0).headD 0) bytes part = some disk' ∧ disk'.dndFiles part.file = some d' ∧
      d'.data[w.kept c part.file (part.off + j)]? = bytes[j]? := by
  have succ : (c + 1) * w.files.chunkSize = c * w.files.chunkSize + w.files.chunkSize := Nat.succ_mul _ _
  unfold Disk.writePart
  rw [excluded]
  refine ⟨_,_,rfl,if_pos rfl,?_⟩
  unfold Checked.kept
  rcases first_or_later inside several inFile low high with ⟨head,first⟩ | ⟨other,later⟩
  · have starts := first.starts
    have offset := MultiFileCache.fileOffset_eq inside starts
    have before : w.files.fileOffset (w.files.file part.file) c ≤ part.off := by omega
    rw [if_pos head,if_pos head,← head,uint32Sub_mod before (by omega),← size]
    dsimp only [DNDFile.writeLastChunk]
    rw [DNDFile.put_inside (by omega) (by omega)]
    congr 1
    omega
  · have starts := later.starts
    rw [if_neg other,if_neg other,uint32_of_lt (by omega)]
    dsimp only [DNDFile.writeFirstChunk]
    rw [DNDFile.put_inside (by omega) (by omega)]
    congr 1
    omega

-- A data check reports exactly the intact chunks, whatever it checked before and whatever
-- is in a new buffer, if and only if the files that have a whole chunk are there, and no
-- bytes with the hash of a chunk agree with what is left of one that is not complete.
theorem data_check_iff (w : Checked) (fits : w.files.chunkSize < 4294967296) :
    (∀ (currentStatus : Nat → Bool) (memory : List UInt8) (history : List Nat) (first last : Nat), memory.length = w.files.chunkSize →
        first ≤ last → last < w.files.numChunks → Reports w currentStatus memory (w.files.cacheAfter history) first last) ↔
      ∀ c, c < w.files.numChunks → (∀ k, w.Inside c k → w.doNotDownload k = false → (w.onDisk k).isSome = true) ∧
        ∀ bytes, ¬ w.Completes c bytes := by
  constructor
  · intro reports c inside
    have sound := sound_of_reports fits inside (cacheAfter_valid w.files []) fun memory whole =>
      reports (fun _ => false) memory [] c c whole (Nat.le_refl c) inside
    exact ⟨sound.there,sound.telling⟩
  · intro sound currentStatus memory history first last whole order inside
    exact check_reports fits (fun c less => ⟨(sound c less).1,(sound c less).2⟩) whole (cacheAfter_valid w.files history) order inside

-- Chunks of four bytes and two files, with all bytes 1, that share the second chunk.
def ones (onDisk dnd : Nat → Option (List UInt8)) (doNotDownload : Nat → Bool) : Checked where
  files := ⟨4,[6,2],four_bytes,by decide,by decide⟩
  hash := fun _ => [1,1,1,1]
  sha1 := id
  doNotDownload := doNotDownload
  onDisk := onDisk
  dnd := dnd
  oldDnd := fun _ => none

def onesWhole : Checked := ones (fun k => some (if k = 0 then [1,1,1,1,1,1] else [1,1])) (fun _ => none) (fun _ => false)

-- All files are there.
theorem ones_reported : Reports onesWhole (fun _ => false) [0,0,0,0] (onesWhole.files.cacheAfter []) 0 1 := by
  refine (data_check_iff onesWhole (by decide)).mpr (fun c inside => ⟨fun k _ _ => rfl,fun bytes completes => ?_⟩) (fun _ => false) [0,0,0,0] [] 0 1
    rfl (by decide) (by decide)
  obtain ⟨k,g,here,missing⟩ := completes.missing
  have there := completes.there k g here rfl
  rw [missing] at there
  cases there

-- The second file is excluded and its part of the second chunk is gone: the buffer still
-- has the bytes of the first chunk there. And with the first file gone the check throws.
theorem stale_bytes_reported_and_missing_file_thrown :
    ¬ Reports (ones (fun k => if k = 0 then some [1,1,1,1,1,1] else none) (fun _ => none) (fun k => k == 1)) (fun _ => false) [0,0,0,0] ⟨0,0⟩ 0 1 ∧
      ¬ Reports (ones (fun k => if k = 0 then none else some [1,1]) (fun _ => none) (fun _ => false)) (fun _ => false) [0,0,0,0] ⟨0,0⟩ 0 1 := by
  constructor
  · rintro ⟨m,checked,bits,_⟩
    have reported : (MultiDataChecker.check (ones (fun k => if k = 0 then some [1,1,1,1,1,1] else none) (fun _ => none) (fun k => k == 1))
        (fun _ => false) [0,0,0,0] ⟨0,0⟩ 0 1).map (fun m => m.result 1) = some true := by decide
    rw [checked,Option.map_some,Option.some.injEq] at reported
    obtain ⟨_,bytes,length,each,_⟩ := (bits 1 (by decide) (by decide)).mp reported
    have missing := each 1 0 ⟨by decide,by decide,by decide⟩
    have none_ : bytes[2]? = none := missing.symm
    rw [List.getElem?_eq_none_iff] at none_
    have four : bytes.length = 4 := length
    omega
  · rintro ⟨m,checked,_⟩
    have thrown : (MultiDataChecker.check (ones (fun k => if k = 0 then none else some [1,1]) (fun _ => none) (fun _ => false))
        (fun _ => false) [0,0,0,0] ⟨0,0⟩ 0 1).isNone = true := by decide
    rw [checked] at thrown
    cases thrown

end KtorrentStream.Datachecker
