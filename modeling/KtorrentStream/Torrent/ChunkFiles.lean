import KtorrentStream.Torrent.Files
set_option autoImplicit true

namespace KtorrentStream.Torrent.Files

variable {t : Files}

-- The rounds of the loop in calcChunkPos from start and end to the mid it leaves.
inductive Searches (t : Files) (chunk : Nat) : Nat → Nat → Nat → Prop where
  | stop {first last : Nat} (ends : ¬ (first ≠ first + (last - first) / 2 ∧ first + (last - first) / 2 ≠ last)) :
      Searches t chunk first last (first + (last - first) / 2)
  | found {first last : Nat} (going : first ≠ first + (last - first) / 2 ∧ first + (last - first) / 2 ≠ last)
      (here : t.has chunk (first + (last - first) / 2) = true) :
      Searches t chunk first last (t.firstWith chunk (first + (last - first) / 2))
  | after {first last : Nat} (going : first ≠ first + (last - first) / 2 ∧ first + (last - first) / 2 ≠ last)
      (elsewhere : t.has chunk (first + (last - first) / 2) = false)
      (behind : chunk > (t.file (first + (last - first) / 2)).lastChunk)
      (rest : Searches t chunk (first + (last - first) / 2 + 1) last mid) : Searches t chunk first last mid
  | before {first last : Nat} (going : first ≠ first + (last - first) / 2 ∧ first + (last - first) / 2 ≠ last)
      (elsewhere : t.has chunk (first + (last - first) / 2) = false)
      (ahead : ¬ chunk > (t.file (first + (last - first) / 2)).lastChunk)
      (rest : Searches t chunk first (first + (last - first) / 2 - 1) mid) : Searches t chunk first last mid

-- As many rounds as there are files between first and end are enough.
theorem search_ends {first last fuel : Nat} (order : first ≤ last) (enough : last - first < fuel) :
    Searches t chunk first last (t.search chunk fuel first last) := by
  induction fuel generalizing first last with
  | zero => exact absurd enough (Nat.not_lt_zero _)
  | succ fuel ih =>
      unfold search
      dsimp only
      split
      · rename_i going
        have inside : first + (last - first) / 2 < last := by omega
        have outside : first < first + (last - first) / 2 := by omega
        split
        · rename_i here
          exact .found going here
        · rename_i elsewhere
          have elsewhere := Bool.eq_false_of_not_eq_true elsewhere
          split
          · rename_i behind
            exact .after going elsewhere behind (ih (by omega) (by omega))
          · rename_i ahead
            exact .before going elsewhere ahead (ih (by omega) (by omega))
      · rename_i ends
        exact .stop ends

theorem calcChunkPos_valid {cache : PosCache} (valid : PosValid t cache) (chunk : Nat) : PosValid t (t.calcChunkPos cache chunk).2 := by
  by_cases inside : chunk < t.numChunks
  · exact (calcChunkPos_spec valid inside).2
  · rw [calcChunkPos,if_pos (.inl (Nat.le_of_not_lt inside))]
    exact valid

-- pos_cache_chunk and pos_cache_file after a history of calls.
def cacheAfter (t : Files) (history : List Nat) : PosCache := history.foldl (fun cache chunk => (t.calcChunkPos cache chunk).2) ⟨0,0⟩

theorem cacheAfter_valid (t : Files) (history : List Nat) : PosValid t (t.cacheAfter history) := by
  suffices every : ∀ cache, PosValid t cache → PosValid t (history.foldl (fun cache chunk => (t.calcChunkPos cache chunk).2) cache) from
    every _ (start_posValid t)
  induction history with
  | nil => exact fun _ valid => valid
  | cons chunk rest ih => exact fun cache valid => ih _ (calcChunkPos_valid valid chunk)

def searchFrom (cache : PosCache) (chunk : Nat) : Nat := if chunk ≥ cache.chunk then cache.file else 0

theorem searchFrom_inside {cache : PosCache} (valid : PosValid t cache) (some_ : 0 < t.numFiles) : searchFrom cache chunk ≤ t.numFiles - 1 := by
  have inside := valid.inside some_
  rw [searchFrom]
  split <;> omega

theorem calcChunkPos_searches {cache : PosCache} (valid : PosValid t cache) (inside : chunk < t.numChunks) :
    ∃ mid, Searches t chunk (searchFrom cache chunk) (t.numFiles - 1) mid ∧
      (t.calcChunkPos cache chunk).1 = t.collect chunk (List.range' mid (t.numFiles - mid)) := by
  obtain ⟨k,few,_⟩ := exists_file (lt_numChunks.mp inside)
  have some_ : 0 < t.numFiles := Nat.zero_lt_of_lt few
  refine ⟨_,search_ends (searchFrom_inside valid some_)
    (show t.numFiles - 1 - searchFrom cache chunk < t.numFiles by omega),?_⟩
  rw [calcChunkPos,if_neg (by omega)]
  rfl

-- After any history the files of a chunk are found, and the search ends.
theorem chunk_files_found (t : Files) (history : List Nat) (chunk : Nat) (inside : chunk < t.numChunks) :
    (t.calcChunkPos (t.cacheAfter history) chunk).1 = (List.range t.numFiles).filter (fun k => decide (Overlaps t chunk k)) ∧
    (t.calcChunkPos (t.cacheAfter history) chunk).1 ≠ [] ∧
    ∃ mid, Searches t chunk (searchFrom (t.cacheAfter history) chunk) (t.numFiles - 1) mid ∧
      (t.calcChunkPos (t.cacheAfter history) chunk).1 = t.collect chunk (List.range' mid (t.numFiles - mid)) := by
  have valid := t.cacheAfter_valid history
  have list := (calcChunkPos_spec valid inside).1
  refine ⟨?_,?_,calcChunkPos_searches valid inside⟩
  · rw [list,filesOf,List.range_eq_range',Nat.sub_zero]
  · rw [list]
    exact filesOf_ne_nil inside

-- An empty file between two others, and a history that ends at the last chunk.
def emptyBetween : Files where
  chunkSize := 4
  sizes := [3,0,6]
  chunked := Util.four_bytes
  long := by decide
  few := by decide

theorem chunk_files_found_before :
    (emptyBetween.calcChunkPos (emptyBetween.cacheAfter [0,2,9]) 0).1 =
      (List.range emptyBetween.numFiles).filter (fun k => decide (Overlaps emptyBetween 0 k)) ∧
    (emptyBetween.calcChunkPos (emptyBetween.cacheAfter [0,2,9]) 0).1 ≠ [] ∧
    ∃ mid, Searches emptyBetween 0 (searchFrom (emptyBetween.cacheAfter [0,2,9]) 0) (emptyBetween.numFiles - 1) mid ∧
      (emptyBetween.calcChunkPos (emptyBetween.cacheAfter [0,2,9]) 0).1 =
        emptyBetween.collect 0 (List.range' mid (emptyBetween.numFiles - mid)) :=
  chunk_files_found emptyBetween [0,2,9] 0 (by decide)

end KtorrentStream.Torrent.Files
