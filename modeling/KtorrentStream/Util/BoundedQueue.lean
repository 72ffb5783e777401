import KtorrentStream.Util.CircularBuffer
set_option autoImplicit true

namespace KtorrentStream.Util

inductive QueueCall where
  | write (bytes : List UInt8)
  | read (maxLen : Nat)

inductive QueueReturn where
  | written (count : Nat)
  | bytes (bytes : List UInt8)

-- What the buffer stands for: a queue with room for a number of bytes.
def BoundedQueue.perform (capacity : Nat) (queue : List UInt8) : QueueCall → List UInt8 × QueueReturn
  | .write bytes =>
      let count := min bytes.length (capacity - queue.length)
      (queue ++ bytes.take count,.written count)
  | .read maxLen => (queue.drop maxLen,.bytes (queue.take maxLen))

def BoundedQueue.performAll (capacity : Nat) : List UInt8 → List QueueCall → List UInt8 × List QueueReturn
  | queue,[] => (queue,[])
  | queue,call :: rest =>
      let (queue',result) := BoundedQueue.perform capacity queue call
      let (last,results) := performAll capacity queue' rest
      (last,result :: results)

namespace CircularBuffer

def size (b : CircularBuffer) : Nat := b.bufSize

def perform (b : CircularBuffer) : QueueCall → CircularBuffer × QueueReturn
  | .write bytes => ((b.write bytes).1,.written (b.write bytes).2)
  | .read maxLen => ((b.read maxLen).1,.bytes (b.read maxLen).2)

def performAll : CircularBuffer → List QueueCall → CircularBuffer × List QueueReturn
  | b,[] => (b,[])
  | b,call :: rest =>
      let (b',result) := b.perform call
      let (last,results) := performAll b' rest
      (last,result :: results)

-- The memcpy of read out of the storage, as places and lengths, and those of write
-- into it, as places in the storage, places in the source and lengths.
def readCopies (b : CircularBuffer) (maxLen : Nat) : List (Nat × Nat) :=
  if b.empty then []
  else
    let toRead := if b.bufSize < maxLen then b.bufSize else maxLen
    let s := b.firstRange.2
    if s ≥ toRead then [(b.firstRange.1,toRead)] else [(b.firstRange.1,s),(b.secondRange.1,toRead - s)]

def writeCopies (b : CircularBuffer) (len : Nat) : List (Nat × Nat × Nat) :=
  if b.full then []
  else
    let freeSpace := b.bufCapacity - b.bufSize
    let toWrite := if freeSpace < len then freeSpace else len
    let writePos := (b.start + b.bufSize) % b.bufCapacity
    if writePos + toWrite > b.bufCapacity then
      let w := b.bufCapacity - writePos
      [(writePos,0,w),(0,w,toWrite - w)]
    else [(writePos,0,toWrite)]

theorem read_of_copies (b : CircularBuffer) (maxLen : Nat) :
    (b.read maxLen).2 = (b.readCopies maxLen).flatMap fun copy => slice b.data copy.1 copy.2 := by
  rw [read,readCopies]
  split
  · rfl
  · dsimp only
    generalize (if b.bufSize < maxLen then b.bufSize else maxLen) = toRead
    rw [copied]
    split <;> simp

theorem write_of_copies (b : CircularBuffer) (bytes : List UInt8) :
    (b.write bytes).1.data = (b.writeCopies bytes.length).foldl
      (fun data copy => overwrite data copy.1 (slice bytes copy.2.1 copy.2.2)) b.data := by
  rw [write,writeCopies]
  split
  · rfl
  · dsimp only
    split <;> simp only [appended,stored] <;> split <;> rfl

-- Every memcpy stays inside the storage and inside the caller's bytes.
def Inside (b : CircularBuffer) : QueueCall → Prop
  | .write bytes => ∀ copy ∈ b.writeCopies bytes.length, copy.1 + copy.2.2 ≤ b.bufCapacity ∧ copy.2.1 + copy.2.2 ≤ bytes.length
  | .read maxLen => ∀ copy ∈ b.readCopies maxLen, copy.1 + copy.2 ≤ b.bufCapacity

def AllInside : CircularBuffer → List QueueCall → Prop
  | _,[] => True
  | b,call :: rest => b.Inside call ∧ AllInside (b.perform call).1 rest

theorem readCopies_inside (b : CircularBuffer) (maxLen : Nat) : b.Inside (.read maxLen) := by
  have start := b.start_lt
  have size := b.size_le
  have capacity : b.bufCapacity = b.data.length := rfl
  intro copy among
  rw [readCopies] at among
  split at among
  · cases among
  · have short : (if b.bufSize < maxLen then b.bufSize else maxLen) ≤ b.bufSize := by
      split <;> omega
    generalize (if b.bufSize < maxLen then b.bufSize else maxLen) = toRead at among short
    rw [firstRange,secondRange] at among
    split at among
    · dsimp only at among
      split at among
      · obtain rfl := List.mem_singleton.mp among
        change b.start + toRead ≤ _
        omega
      · rcases List.mem_pair.mp among with rfl | rfl
        · change b.start + (b.bufCapacity - b.start) ≤ _
          omega
        · change 0 + (toRead - (b.bufCapacity - b.start)) ≤ _
          omega
    · dsimp only at among
      rw [if_pos short] at among
      obtain rfl := List.mem_singleton.mp among
      change b.start + toRead ≤ _
      omega

theorem writeCopies_inside (b : CircularBuffer) (bytes : List UInt8) : b.Inside (.write bytes) := by
  have size := b.size_le
  have capacity : b.bufCapacity = b.data.length := rfl
  have place : (b.start + b.bufSize) % b.bufCapacity < b.bufCapacity := Nat.mod_lt _ b.capacity_pos
  intro copy among
  rw [writeCopies] at among
  split at among
  · cases among
  · dsimp only at among
    have short : (if b.bufCapacity - b.bufSize < bytes.length then b.bufCapacity - b.bufSize else bytes.length) ≤ bytes.length ∧
        (if b.bufCapacity - b.bufSize < bytes.length then b.bufCapacity - b.bufSize else bytes.length) ≤ b.bufCapacity := by
      split <;> omega
    generalize (if b.bufCapacity - b.bufSize < bytes.length then b.bufCapacity - b.bufSize else bytes.length) = toWrite at among short
    generalize (b.start + b.bufSize) % b.bufCapacity = writePos at among place
    split at among
    · rcases List.mem_pair.mp among with rfl | rfl
      · change writePos + (b.bufCapacity - writePos) ≤ _ ∧ 0 + (b.bufCapacity - writePos) ≤ _
        omega
      · change 0 + (toWrite - (b.bufCapacity - writePos)) ≤ _ ∧ b.bufCapacity - writePos + (toWrite - (b.bufCapacity - writePos)) ≤ _
        omega
    · obtain rfl := List.mem_singleton.mp among
      change writePos + toWrite ≤ _ ∧ 0 + toWrite ≤ _
      omega

theorem perform_inside (b : CircularBuffer) (call : QueueCall) : b.Inside call := by
  cases call with
  | write bytes => exact b.writeCopies_inside bytes
  | read maxLen => exact b.readCopies_inside maxLen

theorem write_count (b : CircularBuffer) (bytes : List UInt8) : (b.write bytes).2 = min bytes.length (b.bufCapacity - b.bufSize) := by
  have size := b.size_le
  have capacity : b.bufCapacity = b.data.length := rfl
  rw [write]
  split
  · rename_i none
    have filled : b.bufSize = b.bufCapacity := by simpa [full] using none
    rw [filled,Nat.sub_self]
    exact (Nat.min_zero _).symm
  · dsimp only
    split
    · rename_i short
      exact (Nat.min_eq_right (Nat.le_of_lt short)).symm
    · rename_i enough
      exact (Nat.min_eq_left (Nat.le_of_not_lt enough)).symm

theorem perform_capacity (b : CircularBuffer) (call : QueueCall) : (b.perform call).1.bufCapacity = b.bufCapacity := by
  cases call with
  | write bytes =>
      simp only [perform,write]
      split
      · rfl
      · split
        · rename_i short
          exact b.stored_length bytes _ (Nat.le_of_lt short) (Nat.le_refl _)
        · rename_i enough
          exact b.stored_length bytes _ (Nat.le_refl _) (Nat.le_of_not_lt enough)
  | read maxLen =>
      simp only [perform,read]
      split <;> rfl

theorem perform_simulates (b : CircularBuffer) (call : QueueCall) :
    BoundedQueue.perform b.bufCapacity b.contents call = ((b.perform call).1.contents,(b.perform call).2) := by
  cases call with
  | write bytes =>
      obtain ⟨contents,_⟩ := b.write_contents bytes
      simp only [BoundedQueue.perform,perform,contents,b.write_count,b.contents_length]
  | read maxLen =>
      obtain ⟨bytes,rest⟩ := b.read_contents maxLen
      simp only [BoundedQueue.perform,perform,bytes,rest]

theorem performAll_simulates (b : CircularBuffer) (calls : List QueueCall) :
    BoundedQueue.performAll b.bufCapacity b.contents calls = ((b.performAll calls).1.contents,(b.performAll calls).2) ∧
      b.AllInside calls := by
  induction calls generalizing b with
  | nil => exact ⟨rfl,trivial⟩
  | cons call rest ih =>
      obtain ⟨same,inside⟩ := ih (b.perform call).1
      refine ⟨?_,b.perform_inside call,inside⟩
      rw [b.perform_capacity call] at same
      simp only [BoundedQueue.performAll,performAll,b.perform_simulates call,same]

-- A buffer that was made with any capacity behaves as the queue in every run, and its
-- size is the length of the queue.
theorem refines_queue (data : List UInt8) (capacity_pos : 0 < data.length) (capacity_lt : data.length < 2 ^ 31) (calls : List QueueCall) :
    let final := (new data capacity_pos capacity_lt).performAll calls
    let queue := BoundedQueue.performAll data.length [] calls
    final.2 = queue.2 ∧ final.1.contents = queue.1 ∧ final.1.size = queue.1.length ∧
      (new data capacity_pos capacity_lt).AllInside calls := by
  intro final queue
  obtain ⟨same,inside⟩ := (new data capacity_pos capacity_lt).performAll_simulates calls
  have run : queue = (final.1.contents,final.2) := same
  rw [run]
  exact ⟨rfl,rfl,(contents_length _).symm,inside⟩

theorem refines_queue_of_three :
    let final := (new [7,7,7] (by decide) (by decide)).performAll [.write [1,2],.read 1,.write [3,4,5],.read 9]
    let queue := BoundedQueue.performAll 3 [] [.write [1,2],.read 1,.write [3,4,5],.read 9]
    final.2 = queue.2 ∧ final.1.contents = queue.1 ∧ final.1.size = queue.1.length ∧
      (new [7,7,7] (by decide) (by decide)).AllInside [.write [1,2],.read 1,.write [3,4,5],.read 9] :=
  refines_queue [7,7,7] (by decide) (by decide) [.write [1,2],.read 1,.write [3,4,5],.read 9]

end CircularBuffer
end KtorrentStream.Util
