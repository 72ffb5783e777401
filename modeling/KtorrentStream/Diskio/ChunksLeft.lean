import KtorrentStream.Lib.Along
import KtorrentStream.Diskio.PriorityFrame
set_option autoImplicit true

namespace KtorrentStream.Diskio.ChunkManager
open KtorrentStream.Lib KtorrentStream.Util

variable {n : Nat} (m : ChunkManager n)

def isMissing (i : Nat) : Bool := !m.bitset.get i && !(m.chunk i).isExcluded

def missing : Nat := (List.range n).countP m.isMissing

-- loadIndexFile up to the end of loadPriorityInfo, whose calls come in between.
def beginLoadIndexFile : ChunkManager n := {m with duringLoad := true}

def loadEntry (i : Nat) : ChunkManager n :=
  if i < n then
    {m with
      chunk := m.modify i ({· with status := .onDisk})
      bitset := m.bitset.set i true
      todo := m.todo.set i false
      recalcChunksLeft := true}
  else m

-- The rest of it. The end of the file is seen by a read past the last entry only, so hdr
-- is what that one leaves in the header. fails is the number of entries before a read that
-- throws an Error, if there is one.
def endLoadIndexFile (opens : Bool) (hdr : Nat) (fails : Option Nat) : ChunkManager n :=
  if !opens then {m with duringLoad := false}
  else
    let entries := if m.index.isEmpty then [] else m.index ++ [hdr]
    match fails with
    | some k => (entries.take k).foldl loadEntry m
    | none => {entries.foldl loadEntry m with duringLoad := false}

inductive Call where
  | chunkDownloaded (writes : Bool) (i : Nat)
  | resetChunk (i : Nat)
  | prioritise (lower upper : Nat) (priority : Priority)
  | exclude (lower upper : Nat)
  | includeRange (lower upper : Nat)
  | dataChecked (okChunks : BitSet) (lower upper : Nat) (writes : Bool)
  | beginLoadIndexFile
  | endLoadIndexFile (opens : Bool) (hdr : Nat) (fails : Option Nat)
  | chunksLeft

def step : Call → ChunkManager n
  | .chunkDownloaded writes i => (m.chunkDownloaded writes i).2
  | .resetChunk i => m.resetChunk i
  | .prioritise lower upper priority => m.prioritise lower upper priority
  | .exclude lower upper => m.exclude lower upper
  | .includeRange lower upper => m.includeRange lower upper
  | .dataChecked okChunks lower upper writes => m.dataChecked okChunks lower upper writes
  | .beginLoadIndexFile => m.beginLoadIndexFile
  | .endLoadIndexFile opens hdr fails => m.endLoadIndexFile opens hdr fails
  | .chunksLeft => m.chunksLeft.2

-- What chunksLeft would return now is right.
def Current : Prop := m.recalcChunksLeft = true ∨ m.chunksLeftBefore = m.missing

-- The calls that do not make chunksLeft compute its result anew change the number of
-- missing chunks only while it will do so anyway.
def Careful : Call → Prop
  | .resetChunk i => m.recalcChunksLeft = true ∨ n ≤ i ∨ m.duringLoad = true ∨ m.bitset.get i = false ∨ (m.chunk i).isExcluded = true
  | .prioritise lower upper priority => m.recalcChunksLeft = true ∨
      ∀ i ∈ rangeOf n lower upper, m.bitset.get i = true ∨ (m.chunk i).isExcluded = (priority == .excluded)
  | _ => True

variable {m} {m' : ChunkManager n}

theorem chunksLeft_current : m.chunksLeft.1 = m.missing ↔ m.Current := by
  unfold chunksLeft Current
  cases m.recalcChunksLeft with
  | true =>
      rw [Bool.not_true,if_neg Bool.false_ne_true]
      exact iff_of_true rfl (Or.inl rfl)
  | false =>
      rw [Bool.not_false,if_pos rfl]
      simp

theorem missing_congr (same : ∀ i < n, m'.isMissing i = m.isMissing i) : m'.missing = m.missing := by
  apply List.countP_congr
  intro i member
  rw [same i (List.mem_range.mp member)]

theorem countP_lt {p q : Nat → Bool} {l : List Nat} (weaker : ∀ i ∈ l, p i = true → q i = true) (member : j ∈ l) (off : p j = false)
    (on : q j = true) : l.countP p < l.countP q := by
  induction l with
  | nil => cases member
  | cons i rest ih =>
      have others : ∀ i ∈ rest, p i = true → q i = true := fun i here => weaker i (List.mem_cons_of_mem _ here)
      have behind := List.countP_mono_left others
      rw [List.countP_cons,List.countP_cons]
      rcases List.mem_cons.mp member with rfl | later
      · rw [off,on,if_neg Bool.false_ne_true,if_pos rfl]
        omega
      · have less := ih others later
        have head := weaker i List.mem_cons_self
        cases first : p i with
        | false => rw [if_neg Bool.false_ne_true]; omega
        | true => rw [head first,if_pos rfl]; omega

theorem missing_lt (weaker : ∀ i < n, m.isMissing i = true → m'.isMissing i = true) (inside : j < n) (off : m.isMissing j = false)
    (on : m'.isMissing j = true) : m.missing < m'.missing :=
  countP_lt (fun i member => weaker i (List.mem_range.mp member)) (List.mem_range.mpr inside) off on

theorem current_kept (flag : m'.recalcChunksLeft = m.recalcChunksLeft) (value : m'.chunksLeftBefore = m.chunksLeftBefore) (now : m.Current) :
    m'.Current ↔ m.recalcChunksLeft = true ∨ m'.missing = m.missing := by
  unfold Current
  rw [flag,value]
  constructor
  · intro after
    rcases after with anew | right
    · exact Or.inl anew
    · rcases now with anew | before
      · exact Or.inl anew
      · exact Or.inr (right.symm.trans before)
  · intro kept
    rcases kept with anew | same
    · exact Or.inl anew
    · rcases now with anew | before
      · exact Or.inl anew
      · exact Or.inr (before.trans same.symm)

theorem prioritise_remembers (m : ChunkManager n) (lower upper : Nat) (priority : Priority) :
    (m.prioritise lower upper priority).recalcChunksLeft = m.recalcChunksLeft ∧
      (m.prioritise lower upper priority).chunksLeftBefore = m.chunksLeftBefore := by
  constructor
  · apply foldl_fixed (f := recalcChunksLeft)
    intro m i
    cases priority <;> rfl
  · apply foldl_fixed (f := chunksLeftBefore)
    intro m i
    cases priority <;> rfl

theorem prioritise_isMissing (m : ChunkManager n) (lower upper i : Nat) (priority : Priority) :
    (m.prioritise lower upper priority).isMissing i =
      if i ∈ rangeOf n lower upper then !m.bitset.get i && !(priority == .excluded) else m.isMissing i := by
  unfold isMissing Chunk.isExcluded
  rw [prioritise_bitset,prioritise_priority]
  split <;> rfl

theorem prioritise_missing (m : ChunkManager n) (lower upper : Nat) (priority : Priority) :
    (m.prioritise lower upper priority).missing = m.missing ↔
      ∀ i ∈ rangeOf n lower upper, m.bitset.get i = true ∨ (m.chunk i).isExcluded = (priority == .excluded) := by
  constructor
  · intro same i member
    cases here : m.bitset.get i with
    | true => exact Or.inl rfl
    | false =>
        right
        have inside : i < n := (mem_rangeOf.mp member).2.2
        have after := prioritise_isMissing m lower upper i priority
        rw [if_pos member,here] at after
        cases excluded : (m.chunk i).isExcluded <;> cases excludes : priority == .excluded
        · rfl
        · -- Chunks can only stop to be missing.
          have less : (m.prioritise lower upper priority).missing < m.missing := missing_lt (fun j _ on => by
            rw [prioritise_isMissing,excludes] at on
            split at on
            · simp at on
            · exact on) inside (by rw [after,excludes]; rfl) (by unfold isMissing; rw [here,excluded]; rfl)
          omega
        · -- Chunks can only become missing.
          have less : m.missing < (m.prioritise lower upper priority).missing := missing_lt (fun j _ on => by
            rw [prioritise_isMissing,excludes]
            split
            · unfold isMissing at on
              rw [Bool.and_eq_true] at on
              rw [on.1]
              rfl
            · exact on) inside (by unfold isMissing; rw [here,excluded]; rfl) (by rw [after,excludes]; rfl)
          omega
        · rfl
  · intro same
    apply missing_congr
    intro i _
    rw [prioritise_isMissing]
    split
    · rename_i member
      unfold isMissing
      rcases same i member with there | agree
      · rw [there]
        rfl
      · rw [agree]
    · rfl

theorem resetChunk_isMissing (inside : i < n) (loaded : m.duringLoad = false) (j : Nat) :
    (m.resetChunk i).isMissing j = if j = i then !(m.chunk i).isExcluded else m.isMissing j := by
  unfold isMissing Chunk.isExcluded
  rw [resetChunk_bitset,resetChunk_priority]
  by_cases here : j = i
  · rw [if_pos ⟨here.symm,inside,loaded⟩,if_pos here,here]
    rfl
  · rw [if_neg (fun same => here same.1.symm),if_neg here]

theorem resetChunk_missing (inside : i < n) (loaded : m.duringLoad = false) :
    (m.resetChunk i).missing = m.missing ↔ m.bitset.get i = false ∨ (m.chunk i).isExcluded = true := by
  constructor
  · intro same
    cases there : m.bitset.get i with
    | false => exact Or.inl rfl
    | true =>
        right
        cases excluded : (m.chunk i).isExcluded with
        | true => rfl
        | false =>
            have less : m.missing < (m.resetChunk i).missing := missing_lt (fun j _ on => by
              rw [resetChunk_isMissing inside loaded,excluded]
              split
              · rfl
              · exact on) inside (by unfold isMissing; rw [there]; rfl)
              (by rw [resetChunk_isMissing inside loaded,if_pos rfl,excluded]; rfl)
            omega
  · intro kept
    apply missing_congr
    intro j _
    rw [resetChunk_isMissing inside loaded]
    split
    · rename_i here
      rw [here]
      unfold isMissing
      rcases kept with absent | excluded
      · rw [absent]
        rfl
      · rw [excluded]
        simp
    · rfl

theorem resetChunk_current (now : m.Current) (i : Nat) : (m.resetChunk i).Current ↔ m.Careful (.resetChunk i) := by
  unfold Careful
  by_cases idle : (i ≥ n || m.duringLoad) = true
  · have same : m.resetChunk i = m := if_pos idle
    rw [same]
    rw [Bool.or_eq_true,decide_eq_true_iff] at idle
    apply iff_of_true now
    rcases idle with beyond | loading
    · exact Or.inr (Or.inl beyond)
    · exact Or.inr (Or.inr (Or.inl loading))
  · have flag : (m.resetChunk i).recalcChunksLeft = m.recalcChunksLeft := by
      unfold resetChunk
      rw [if_neg idle]
    have value : (m.resetChunk i).chunksLeftBefore = m.chunksLeftBefore := by
      unfold resetChunk
      rw [if_neg idle]
    rw [Bool.or_eq_true,decide_eq_true_iff,not_or,Bool.not_eq_true] at idle
    have inside : i < n := Nat.not_le.mp idle.1
    rw [current_kept flag value now,resetChunk_missing inside idle.2,idle.2]
    simp [idle.1]

theorem prioritise_current (now : m.Current) (lower upper : Nat) (priority : Priority) :
    (m.prioritise lower upper priority).Current ↔ m.Careful (.prioritise lower upper priority) := by
  have kept := prioritise_remembers m lower upper priority
  rw [current_kept kept.1 kept.2 now,prioritise_missing]
  rfl

theorem chunkDownloaded_current (now : m.Current) (writes : Bool) (i : Nat) : (m.chunkDownloaded writes i).2.Current := by
  unfold chunkDownloaded
  split
  · exact now
  · split
    · cases writes
      · exact Or.inl rfl
      · exact Or.inl rfl
    · exact now

theorem dataChecked_current (m : ChunkManager n) (okChunks : BitSet) (lower upper : Nat) (writes : Bool) :
    (m.dataChecked okChunks lower upper writes).Current := by
  unfold dataChecked chunksLeft
  cases writes
  · exact Or.inr rfl
  · exact Or.inr rfl

theorem loadEntries_current (now : m.Current) (entries : List Nat) : (entries.foldl loadEntry m).Current := by
  induction entries generalizing m with
  | nil => exact now
  | cons i rest ih =>
      apply ih
      unfold loadEntry
      split
      · exact Or.inl rfl
      · exact now

theorem endLoadIndexFile_current (now : m.Current) (opens : Bool) (hdr : Nat) (fails : Option Nat) :
    (m.endLoadIndexFile opens hdr fails).Current := by
  unfold endLoadIndexFile
  split
  · exact now
  · cases fails with
    | some k => exact loadEntries_current now _
    | none => exact loadEntries_current now _

theorem chunksLeft_keeps (now : m.Current) : m.chunksLeft.2.Current := by
  unfold chunksLeft
  split
  · exact now
  · exact Or.inr rfl

-- The result of chunksLeft stays right exactly over the calls that are careful.
theorem step_current (now : m.Current) (c : Call) : (m.step c).Current ↔ m.Careful c := by
  cases c with
  | chunkDownloaded writes i => exact iff_of_true (chunkDownloaded_current now writes i) trivial
  | resetChunk i => exact resetChunk_current now i
  | prioritise lower upper priority => exact prioritise_current now lower upper priority
  | exclude lower upper => exact iff_of_true (Or.inl rfl) trivial
  | includeRange lower upper => exact iff_of_true (Or.inl rfl) trivial
  | dataChecked okChunks lower upper writes => exact iff_of_true (dataChecked_current m okChunks lower upper writes) trivial
  | beginLoadIndexFile => exact iff_of_true now trivial
  | endLoadIndexFile opens hdr fails => exact iff_of_true (endLoadIndexFile_current now opens hdr fails) trivial
  | chunksLeft => exact iff_of_true (chunksLeft_keeps now) trivial

theorem new_current (n : Nat) (index : List Nat) : (new n index).Current := Or.inl rfl

-- In every run, chunksLeft returns after each call the number of missing chunks, exactly
-- when all calls are careful.
theorem chunksLeft_exact (index : List Nat) (calls : List Call) :
    Along step (fun m c => (m.step c).chunksLeft.1 = (m.step c).missing) (new n index) calls ↔ Along step Careful (new n index) calls := by
  apply Along.congr (Along.always (P := fun _ _ => True) (fun _ _ => trivial) _ calls) (new_current n index)
  · intro m c now _
    exact chunksLeft_current.trans (step_current now c)
  · intro m c now _ careful
    exact (step_current now c).mpr careful

-- The only chunk of a torrent is reset after it has been downloaded and counted.
theorem chunksLeft_stale :
    ¬ Along step (fun m c => (m.step c).chunksLeft.1 = (m.step c).missing) (new 1 [])
      [.chunkDownloaded true 0,.chunksLeft,.resetChunk 0] := by
  intro along
  have wrong := along.2.2.1
  revert wrong
  decide +kernel

end KtorrentStream.Diskio.ChunkManager
