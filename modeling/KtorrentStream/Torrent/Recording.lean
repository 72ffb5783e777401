import KtorrentStream.Torrent.ByteCount
set_option autoImplicit true

namespace KtorrentStream.Torrent
open KtorrentStream.Util KtorrentStream.Diskio KtorrentStream.Download

-- Nothing that the Downloader sees of a ChunkManager has changed.
structure Unchanged (m m' : ChunkManager n) : Prop where
  bitset : ∀ i, m'.bitset.get i = m.bitset.get i
  todo : ∀ i, m'.todo.get i = m.todo.get i
  chunk : m'.chunk = m.chunk
  chunksLeft : m'.chunksLeftBefore = m.chunksLeftBefore
  recalc : m'.recalcChunksLeft = m.recalcChunksLeft

-- Memory and the index file describe the same set of chunks.
def Agrees (m : ChunkManager n) : Prop := ∀ i < n, m.bitset.get i = true ↔ i ∈ m.index

theorem Unchanged.refl (m : ChunkManager n) : Unchanged m m := ⟨fun _ => rfl,fun _ => rfl,rfl,rfl,rfl⟩

theorem Unchanged.agrees (same : Unchanged m m') (index : m'.index = m.index) (before : Agrees m) : Agrees m' := by
  intro i inside
  rw [same.bitset i,index]
  exact before i inside

theorem unwritten_index (m : ChunkManager n) (i : Nat) : (m.chunkDownloaded false i).2.index = m.index := by
  unfold ChunkManager.chunkDownloaded
  split
  · rfl
  · split
    · rfl
    · rfl

theorem unwritten_marked {m : ChunkManager n} (inside : i < n) (wanted : (m.chunk i).isExcluded = false) : (m.chunkDownloaded false i).2 =
    {m with bitset := m.bitset.set i true,todo := m.todo.set i false,recalcChunksLeft := true} := by
  unfold ChunkManager.chunkDownloaded
  rw [if_neg (Nat.not_le.mpr inside),wanted]
  rfl

theorem unwritten_idle {m : ChunkManager n} (idle : n ≤ i ∨ (m.chunk i).isExcluded = true) : (m.chunkDownloaded false i).2 = m := by
  unfold ChunkManager.chunkDownloaded
  rcases idle with beyond | excluded
  · rw [if_pos beyond]
  · rw [excluded]
    split
    · rfl
    · rfl

theorem marked_unchanged {m : ChunkManager n} (inside : i < n) :
    Unchanged m {m with bitset := m.bitset.set i true,todo := m.todo.set i false,recalcChunksLeft := true} ↔
      m.bitset.get i = true ∧ m.todo.get i = false ∧ m.recalcChunksLeft = true := by
  constructor
  · intro same
    have there := same.bitset i
    have done := same.todo i
    dsimp only at there done
    rw [ChunkSet.set_get,if_pos ⟨rfl,inside⟩] at there done
    exact ⟨there.symm,done.symm,same.recalc.symm⟩
  · intro known
    obtain ⟨there,done,anew⟩ := known
    refine ⟨?_,?_,rfl,rfl,anew.symm⟩
    · intro j
      dsimp only
      rw [ChunkSet.set_get]
      split
      · rename_i here
        rw [← here.1,there]
      · rfl
    · intro j
      dsimp only
      rw [ChunkSet.set_get]
      split
      · rename_i here
        rw [← here.1,done]
      · rfl

theorem unwritten_unchanged (m : ChunkManager n) (i : Nat) : Unchanged m (m.chunkDownloaded false i).2 ↔
    n ≤ i ∨ (m.chunk i).isExcluded = true ∨ (m.bitset.get i = true ∧ m.todo.get i = false ∧ m.recalcChunksLeft = true) := by
  by_cases inside : i < n
  · cases excluded : (m.chunk i).isExcluded with
    | true =>
        rw [unwritten_idle (Or.inr excluded)]
        exact iff_of_true (Unchanged.refl m) (Or.inr (Or.inl rfl))
    | false =>
        rw [unwritten_marked inside excluded,marked_unchanged inside]
        simp [inside]
  · have beyond : n ≤ i := Nat.not_lt.mp inside
    rw [unwritten_idle (Or.inl beyond)]
    exact iff_of_true (Unchanged.refl m) (Or.inl beyond)

namespace TorrentControl

variable {t : Files} [DecidableEq H]

theorem finished_right (s : TorrentControl t σ H) {cd : ChunkDownload σ H} (right : cd.getHash = some (s.downloader.hash cd.index))
    (writes webseeding : Bool) : (s.finished cd writes webseeding).2.cman = (s.cman.chunkDownloaded writes cd.index).2 := by
  unfold finished
  rw [if_pos right]

-- An index entry that is not written leaves the chunks recorded as before, with memory and
-- index file still the same, exactly for a chunk that was recorded before.
theorem finished_unwritten (s : TorrentControl t σ H) (cd : ChunkDownload σ H) (webseeding : Bool)
    (right : cd.getHash = some (s.downloader.hash cd.index)) :
    (Unchanged s.cman (s.finished cd false webseeding).2.cman ∧ (Agrees s.cman → Agrees (s.finished cd false webseeding).2.cman)) ↔
      t.numChunks ≤ cd.index ∨ (s.cman.chunk cd.index).isExcluded = true ∨
        (s.cman.bitset.get cd.index = true ∧ s.cman.todo.get cd.index = false ∧ s.cman.recalcChunksLeft = true) := by
  rw [finished_right s right,← unwritten_unchanged]
  constructor
  · intro kept
    exact kept.1
  · intro same
    exact ⟨same,same.agrees (unwritten_index s.cman cd.index)⟩

-- The only chunk of a torrent, whose hash is right.
def onlyChunk : ChunkDownload Unit Unit := {ChunkDownload.new Downloader.anySha 0 16385 with hash := some ()}

theorem finished_unwritten_first :
    (Unchanged beginning.cman (beginning.finished onlyChunk false false).2.cman ∧
      (Agrees beginning.cman → Agrees (beginning.finished onlyChunk false false).2.cman)) ↔
      oneChunk.numChunks ≤ 0 ∨ (beginning.cman.chunk 0).isExcluded = true ∨
        (beginning.cman.bitset.get 0 = true ∧ beginning.cman.todo.get 0 = false ∧ beginning.cman.recalcChunksLeft = true) :=
  finished_unwritten beginning onlyChunk false rfl

-- The chunk is there for the Downloader, and the index file has no entry for it.
theorem unwritten_recorded :
    Agrees beginning.cman ∧ (beginning.finished onlyChunk false false).1 = false ∧
      ¬ (Unchanged beginning.cman (beginning.finished onlyChunk false false).2.cman ∧
        (Agrees beginning.cman → Agrees (beginning.finished onlyChunk false false).2.cman)) := by
  have few : oneChunk.numChunks = 1 := rfl
  have before : Agrees beginning.cman := by
    intro i inside
    rw [few] at inside
    obtain rfl : i = 0 := by omega
    decide +kernel
  refine ⟨before,rfl,?_⟩
  intro kept
  have there : (beginning.finished onlyChunk false false).2.cman.bitset.get 0 = true := by decide +kernel
  have listed := ((kept.2 before) 0 (by rw [few]; decide)).mp there
  cases listed

end TorrentControl
end KtorrentStream.Torrent
