import KtorrentStream.Datachecker.MultiDataChecker
set_option autoImplicit true

namespace KtorrentStream.Datachecker
open KtorrentStream.Util KtorrentStream.Torrent KtorrentStream.Torrent.Files KtorrentStream.Diskio

-- A torrent of one file, and what is on disk of it.
structure CheckedFile where
  numChunks : Nat
  chunkSize : Nat
  lastChunkSize : Nat
  hash : Nat → List UInt8
  sha1 : List UInt8 → List UInt8
  onDisk : Option (List UInt8)

def CheckedFile.chunkSizeOf (w : CheckedFile) (c : Nat) : Nat := uint32 (if c = uint32Sub w.numChunks 1 then w.lastChunkSize else w.chunkSize)

-- eof is set by a read that does not get all it wants.
structure SingleDataChecker where
  buf : List UInt8
  eof : Bool
  result : Nat → Bool
  failed : Nat
  found : Nat
  downloaded : Nat
  notDownloaded : Nat

namespace SingleDataChecker

variable (w : CheckedFile) (data : List UInt8) (currentStatus : Nat → Bool) (m : SingleDataChecker)

def tally (c : Nat) (ok : Bool) : SingleDataChecker :=
  let m := {m with result := fun d => if d = c then ok else m.result d}
  match ok,currentStatus c with
  | true,true => {m with downloaded := m.downloaded + 1}
  | false,true => {m with failed := m.failed + 1}
  | false,false => {m with notDownloaded := m.notDownloaded + 1}
  | true,false => {m with found := m.found + 1}

def checkChunk (c : Nat) : SingleDataChecker :=
  if m.eof then m.tally currentStatus c false
  else
    let size := w.chunkSizeOf c
    let bytes := (data.drop (c * w.chunkSize)).take size
    let m := {m with buf := CacheFile.splice m.buf bytes 0,eof := decide (bytes.length < size)}
    m.tally currentStatus c (w.sha1 (m.buf.take size) == w.hash c)

-- A new checker; memory is what the new buffer of chunk_size bytes holds.
def new (memory : List UInt8) : SingleDataChecker := ⟨memory.take (uint32 w.chunkSize),false,fun _ => false,0,0,0,0⟩

-- none when an Error is thrown.
def check (memory : List UInt8) (first last : Nat) : Option SingleDataChecker :=
  w.onDisk.map fun data =>
    let first := if first ≥ w.numChunks then 0 else first
    let last := if last ≥ w.numChunks then uint32Sub w.numChunks 1 else last
    (upTo first last).foldl (checkChunk w data currentStatus) (new w memory)

end SingleDataChecker

namespace CheckedFile

variable (w : CheckedFile) (data memory : List UInt8) (first : Nat)

-- What the file has of a chunk, and whether that is all of it.
def onFile (c : Nat) : List UInt8 := (data.drop (c * w.chunkSize)).take (w.chunkSizeOf c)

def whole (c : Nat) : Bool := decide (c * w.chunkSize + w.chunkSizeOf c ≤ data.length)

-- What is in the buffer when a chunk is read.
def before (c : Nat) : List UInt8 := if c = first then memory else w.onFile data (c - 1)

def hashed (c : Nat) : List UInt8 := (w.onFile data c ++ (w.before data memory first c).drop (w.onFile data c).length).take (w.chunkSizeOf c)

def judge (c : Nat) : Bool := (List.range' first (c - first)).all (w.whole data) && w.sha1 (w.hashed data memory first c) == w.hash c

end CheckedFile

structure Judged (w : CheckedFile) (data memory : List UInt8) (currentStatus : Nat → Bool) (first n : Nat) (m : SingleDataChecker) : Prop where
  eof : m.eof = !(List.range' first n).all (w.whole data)
  buffer : m.eof = false → first + n < w.numChunks → m.buf = w.before data memory first (first + n)
  result : ∀ c, m.result c = (decide (first ≤ c ∧ c < first + n) && w.judge data memory first c)
  downloaded : m.downloaded = (List.range' first n).countP fun c => w.judge data memory first c && currentStatus c
  failed : m.failed = (List.range' first n).countP fun c => !w.judge data memory first c && currentStatus c
  found : m.found = (List.range' first n).countP fun c => w.judge data memory first c && !currentStatus c
  notDownloaded : m.notDownloaded = (List.range' first n).countP fun c => !w.judge data memory first c && !currentStatus c

variable {w : CheckedFile} {data memory : List UInt8} {currentStatus : Nat → Bool} {first n : Nat}

theorem new_judged (room : memory.length = w.chunkSize) (fits : w.chunkSize < 4294967296) : Judged w data memory currentStatus first 0 (.new w memory) where
  eof := rfl
  buffer _ _ := by
    unfold SingleDataChecker.new CheckedFile.before
    rw [uint32_of_lt fits,← room,List.take_length]
    exact (if_pos rfl).symm
  result c := by
    rw [decide_eq_false (by omega)]
    rfl
  downloaded := rfl
  failed := rfl
  found := rfl
  notDownloaded := rfl

theorem Judged.tally (judged : Judged w data memory currentStatus first n m) (buf : List UInt8) (eof : Bool)
    (ends : eof = !(List.range' first (n + 1)).all (w.whole data))
    (buffer : eof = false → first + (n + 1) < w.numChunks → buf = w.before data memory first (first + (n + 1))) :
    Judged w data memory currentStatus first (n + 1)
      (({m with buf := buf,eof := eof} : SingleDataChecker).tally currentStatus (first + n) (w.judge data memory first (first + n))) := by
  have result (c : Nat) : (if c = first + n then w.judge data memory first (first + n) else m.result c) =
      (decide (first ≤ c ∧ c < first + (n + 1)) && w.judge data memory first c) := by
    by_cases here : c = first + n
    · subst here
      rw [if_pos rfl,decide_eq_true (by omega),Bool.true_and]
    · rw [if_neg here,judged.result]
      congr 2
      exact propext (by omega)
  have one (p : Nat → Bool) : (List.range' first (n + 1)).countP p = (List.range' first n).countP p + if p (first + n) then 1 else 0 := by
    rw [List.range'_concat,Nat.one_mul,List.countP_append,List.countP_singleton]
  unfold SingleDataChecker.tally
  cases ok : w.judge data memory first (first + n) <;> cases current : currentStatus (first + n) <;>
    exact ⟨ends,buffer,fun c => by rw [← result c,ok],by rw [one,ok,current,← judged.downloaded]; rfl,by rw [one,ok,current,← judged.failed]; rfl,
      by rw [one,ok,current,← judged.found]; rfl,by rw [one,ok,current,← judged.notDownloaded]; rfl⟩

-- Only the last chunk has another size.
theorem chunkSizeOf_usual (w : CheckedFile) (some_chunks : w.numChunks < 4294967296) (fits : w.chunkSize < 4294967296) (c : Nat)
    (further : c + 1 < w.numChunks) : w.chunkSizeOf c = w.chunkSize := by
  unfold CheckedFile.chunkSizeOf
  rw [uint32Sub_of_le (by omega) some_chunks,if_neg (by omega),uint32_of_lt fits]

theorem chunkSizeOf_bounds (positive : 0 < w.lastChunkSize) (less : w.lastChunkSize ≤ w.chunkSize) (fits : w.chunkSize < 4294967296) (c : Nat) :
    0 < w.chunkSizeOf c ∧ w.chunkSizeOf c ≤ w.chunkSize := by
  unfold CheckedFile.chunkSizeOf
  split
  · rw [uint32_of_lt (Nat.lt_of_le_of_lt less fits)]
    exact ⟨positive,less⟩
  · rw [uint32_of_lt fits]
    exact ⟨Nat.lt_of_lt_of_le positive less,Nat.le_refl _⟩

theorem onFile_length (w : CheckedFile) (data : List UInt8) (c : Nat) : decide ((w.onFile data c).length < w.chunkSizeOf c) = !w.whole data c ∨ w.chunkSizeOf c = 0 := by
  unfold CheckedFile.onFile CheckedFile.whole
  rw [List.length_take,List.length_drop]
  by_cases nothing : w.chunkSizeOf c = 0
  · exact .inr nothing
  · left
    rw [← decide_not]
    exact decide_eq_decide.mpr (by omega)

theorem before_length (room : memory.length = w.chunkSize) (positive : 0 < w.lastChunkSize) (less : w.lastChunkSize ≤ w.chunkSize)
    (fits : w.chunkSize < 4294967296) (data : List UInt8) (first c : Nat) :
    (w.before data memory first c).length ≤ w.chunkSize := by
  unfold CheckedFile.before
  split
  · exact Nat.le_of_eq room
  · have most := List.length_take_le (w.chunkSizeOf (c - 1)) (data.drop ((c - 1) * w.chunkSize))
    exact Nat.le_trans most (chunkSizeOf_bounds positive less fits (c - 1)).2

theorem checkChunk_judged (room : memory.length = w.chunkSize) (some_chunks : w.numChunks < 4294967296) (positive : 0 < w.lastChunkSize) (less : w.lastChunkSize ≤ w.chunkSize)
    (fits : w.chunkSize < 4294967296) (inside : first + n < w.numChunks) (judged : Judged w data memory currentStatus first n m) :
    Judged w data memory currentStatus first (n + 1) (m.checkChunk w data currentStatus (first + n)) := by
  have next : List.range' first (n + 1) = List.range' first n ++ [first + n] := by
    rw [List.range'_concat,Nat.one_mul]
  have earlier : List.range' first (first + n - first) = List.range' first n := by rw [Nat.add_sub_cancel_left]
  unfold SingleDataChecker.checkChunk
  cases eof : m.eof with
  | true =>
      have short : (List.range' first n).all (w.whole data) = false := by simpa [judged.eof] using eof
      have verdict : w.judge data memory first (first + n) = false := by
        unfold CheckedFile.judge
        rw [earlier,short,Bool.false_and]
      have kept := judged.tally m.buf true (by rw [next,List.all_append,short]; rfl) (fun off => by cases off)
      rw [verdict] at kept
      rw [if_pos rfl]
      rw [← eof] at kept
      exact kept
  | false =>
      have all : (List.range' first n).all (w.whole data) = true := by simpa [judged.eof] using eof
      have buf := judged.buffer eof inside
      have verdict : w.judge data memory first (first + n) = (w.sha1 (w.hashed data memory first (first + n)) == w.hash (first + n)) := by
        unfold CheckedFile.judge
        rw [earlier,all,Bool.true_and]
      have length : decide ((w.onFile data (first + n)).length < w.chunkSizeOf (first + n)) = !w.whole data (first + n) :=
        (onFile_length w data (first + n)).resolve_right (Nat.ne_of_gt (chunkSizeOf_bounds positive less fits _).1)
      have spliced : CacheFile.splice m.buf (w.onFile data (first + n)) 0 =
          w.onFile data (first + n) ++ (w.before data memory first (first + n)).drop (w.onFile data (first + n)).length := by
        rw [← buf]
        unfold CacheFile.splice
        rw [List.take_zero,List.nil_append,Nat.zero_add]
      rw [if_neg Bool.false_ne_true]
      dsimp only
      have kept := judged.tally (CacheFile.splice m.buf (w.onFile data (first + n)) 0)
        (decide ((w.onFile data (first + n)).length < w.chunkSizeOf (first + n)))
        (by rw [length,next,List.all_append,all,Bool.true_and,List.all_cons,List.all_nil,Bool.and_true]) ?_
      · rw [verdict] at kept
        unfold CheckedFile.hashed at kept
        rw [← spliced] at kept
        exact kept
      · intro on more
        have full : w.chunkSizeOf (first + n) ≤ (w.onFile data (first + n)).length := Nat.not_lt.mp (of_decide_eq_false on)
        have usual := chunkSizeOf_usual w some_chunks fits (first + n) (by omega)
        have fits := before_length room positive less fits data first (first + n)
        rw [spliced,List.drop_eq_nil_of_le (by omega),List.append_nil]
        unfold CheckedFile.before
        rw [if_neg (by omega)]
        rfl

theorem check_judged (room : memory.length = w.chunkSize) (some_chunks : w.numChunks < 4294967296) (positive : 0 < w.lastChunkSize)
    (less : w.lastChunkSize ≤ w.chunkSize) (fits : w.chunkSize < 4294967296) (n : Nat) (inside : first + n ≤ w.numChunks) :
    Judged w data memory currentStatus first n
      ((List.range' first n).foldl (SingleDataChecker.checkChunk w data currentStatus) (.new w memory)) := by
  induction n with
  | zero => exact new_judged room fits
  | succ n ih =>
      rw [List.range'_concat,Nat.one_mul,List.foldl_append]
      exact checkChunk_judged room some_chunks positive less fits (by omega) (ih (by omega))

theorem judge_whole (w : CheckedFile) (data memory : List UInt8) (first c : Nat) (there : w.whole data c = true)
    (some_chunks : w.numChunks < 4294967296) (fits : w.chunkSize < 4294967296) (inside : c < w.numChunks) :
    w.judge data memory first c = (w.sha1 (w.onFile data c) == w.hash c) := by
  have ends : c * w.chunkSize + w.chunkSizeOf c ≤ data.length := of_decide_eq_true there
  have length : (w.onFile data c).length = w.chunkSizeOf c := by
    unfold CheckedFile.onFile
    rw [List.length_take,List.length_drop]
    omega
  have earlier : (List.range' first (c - first)).all (w.whole data) = true := by
    refine List.all_eq_true.mpr fun j member => decide_eq_true ?_
    have before := List.mem_range'_1.mp member
    have usual := chunkSizeOf_usual w some_chunks fits j (by omega)
    have step : (j + 1) * w.chunkSize ≤ c * w.chunkSize := Nat.mul_le_mul_right _ (by omega)
    rw [Nat.succ_mul] at step
    rw [usual]
    omega
  unfold CheckedFile.judge CheckedFile.hashed
  rw [earlier,Bool.true_and,List.take_append_of_le_length (Nat.le_of_eq length.symm),List.take_of_length_le (Nat.le_of_eq length)]

-- Behind the first chunk that the file does not have wholly all are missing. That chunk
-- itself is judged by what the file has of it, with the end of the chunk before.
structure Verdict (w : CheckedFile) (data memory : List UInt8) (currentStatus : Nat → Bool) (first last : Nat) (m : SingleDataChecker) : Prop where
  whole : ∀ c, first ≤ c → c ≤ last → w.whole data c = true → (m.result c = true ↔ w.sha1 (w.onFile data c) = w.hash c)
  torn : ∀ c, first ≤ c → c ≤ last → w.whole data c = false →
    (m.result c = true ↔ (∀ j, first ≤ j → j < c → w.whole data j = true) ∧ w.sha1 (w.hashed data memory first c) = w.hash c)
  others : ∀ c, c < first ∨ last < c → m.result c = false
  downloaded : m.downloaded = (upTo first last).countP fun c => m.result c && currentStatus c
  failed : m.failed = (upTo first last).countP fun c => !m.result c && currentStatus c
  found : m.found = (upTo first last).countP fun c => m.result c && !currentStatus c
  notDownloaded : m.notDownloaded = (upTo first last).countP fun c => !m.result c && !currentStatus c

theorem Judged.verdict (judged : Judged w data memory currentStatus first (last + 1 - first) m) (some_chunks : w.numChunks < 4294967296)
    (fits : w.chunkSize < 4294967296) (inside : last < w.numChunks) : Verdict w data memory currentStatus first last m := by
  have result (c : Nat) (low : first ≤ c) (high : c ≤ last) : m.result c = w.judge data memory first c := by
    rw [judged.result,decide_eq_true (by omega),Bool.true_and]
  have counts (p q : Nat → Bool) (same : ∀ c, first ≤ c → c ≤ last → p c = q c) : (List.range' first (last + 1 - first)).countP p = (upTo first last).countP q := by
    refine List.countP_congr fun c member => ?_
    have bounds := mem_upTo.mp member
    rw [same c bounds.1 bounds.2]
  refine ⟨fun c low high there => ?_,fun c low high short => ?_,fun c out => ?_,?_,?_,?_,?_⟩
  · rw [result c low high,judge_whole w data memory first c there some_chunks fits (by omega),beq_iff_eq]
  · rw [result c low high]
    unfold CheckedFile.judge
    rw [Bool.and_eq_true,beq_iff_eq,List.all_eq_true]
    refine and_congr_left fun _ => ⟨fun all j above below => all j (List.mem_range'_1.mpr (by omega)),fun all j member => ?_⟩
    have bounds := List.mem_range'_1.mp member
    exact all j bounds.1 (by omega)
  · rw [judged.result,decide_eq_false (by omega)]
    rfl
  · exact judged.downloaded.trans (counts _ _ fun c low high => by rw [result c low high])
  · exact judged.failed.trans (counts _ _ fun c low high => by rw [result c low high])
  · exact judged.found.trans (counts _ _ fun c low high => by rw [result c low high])
  · exact judged.notDownloaded.trans (counts _ _ fun c low high => by rw [result c low high])

-- A check ends whatever the file has, and what it reports is what the file has.
theorem file_judged (w : CheckedFile) (data memory : List UInt8) (currentStatus : Nat → Bool) (first last : Nat) (opens : w.onDisk = some data)
    (room : memory.length = w.chunkSize) (some_chunks : 0 < w.numChunks ∧ w.numChunks < 4294967296) (positive : 0 < w.lastChunkSize)
    (less : w.lastChunkSize ≤ w.chunkSize) (fits : w.chunkSize < 4294967296) :
    ∃ m, SingleDataChecker.check w currentStatus memory first last = some m ∧
      Verdict w data memory currentStatus (if first ≥ w.numChunks then 0 else first) (if last ≥ w.numChunks then w.numChunks - 1 else last) m := by
  have end_ : (if last ≥ w.numChunks then uint32Sub w.numChunks 1 else last) = if last ≥ w.numChunks then w.numChunks - 1 else last := by
    rw [uint32Sub_of_le some_chunks.1 some_chunks.2]
  have inside : (if last ≥ w.numChunks then w.numChunks - 1 else last) < w.numChunks := by
    have := some_chunks.1
    split <;> omega
  have begins : (if first ≥ w.numChunks then 0 else first) < w.numChunks := by
    have := some_chunks.1
    split <;> omega
  unfold SingleDataChecker.check
  rw [opens,Option.map_some]
  dsimp only
  rw [end_]
  generalize (if first ≥ w.numChunks then 0 else first) = first at begins ⊢
  generalize (if last ≥ w.numChunks then w.numChunks - 1 else last) = last at inside ⊢
  exact ⟨_,rfl,(check_judged room some_chunks.2 positive less fits (last + 1 - first) (by omega)).verdict some_chunks.2 fits inside⟩

-- The second of two equal chunks is reported, though the file has only the first.
theorem repeated_chunk_found :
    ∃ m, SingleDataChecker.check ⟨2,1,1,fun _ => [5],fun bytes => bytes,some [5]⟩ (fun _ => false) [0] 0 1 = some m ∧ m.result 1 = true := by
  obtain ⟨m,checked,verdict⟩ := file_judged ⟨2,1,1,fun _ => [5],fun bytes => bytes,some [5]⟩ [5] [0] (fun _ => false) 0 1 rfl rfl (by decide) (by decide) (by decide) (by decide)
  refine ⟨m,checked,(verdict.torn 1 (by decide) (by decide) (by decide)).mpr ⟨fun j _ low => ?_,by decide⟩⟩
  obtain rfl := Nat.lt_one_iff.mp low
  decide

end KtorrentStream.Datachecker
