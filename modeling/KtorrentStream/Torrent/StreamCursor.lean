import KtorrentStream.Torrent.StreamRun
set_option autoImplicit true

namespace KtorrentStream.Torrent.TorrentFileStream
open KtorrentStream.Util KtorrentStream.Diskio KtorrentStream.Download Layout

variable {l : Layout} {data : Nat → UInt8} {m : Moment} {s s' : TorrentFileStream}

-- The selector has the range of the file and its cursor at the chunk.
structure Following (l : Layout) (csel : StreamingChunkSelector) (chunk : Nat) : Prop where
  lower : csel.rangeStart = l.firstChunk
  upper : csel.rangeEnd = l.lastChunk
  cursor : csel.cursor = chunk
  inRange : chunk ≤ l.lastChunk
  asked : csel.manager.indexChunkLastTimeAsked ≤ l.lastChunk
  played : 0 < csel.manager.timeLastChunkPlayedFor

-- The chunk behind the one asked for last is asked for at a later time.
def InTime (csel : StreamingChunkSelector) (now chunk : Nat) : Prop :=
  chunk = csel.cursor ∨ (chunk = csel.manager.indexChunkLastTimeAsked + 1 → csel.manager.lastTimeNewChunkWasAsked < now)

theorem Following.chunkAsked {csel : StreamingChunkSelector} {now chunk : Nat} (following : Following l csel at_)
    (asked : chunk = csel.manager.indexChunkLastTimeAsked + 1 → csel.manager.lastTimeNewChunkWasAsked < now) :
    ∃ played, csel.manager.chunkAsked now chunk = some ⟨chunk,now,played⟩ ∧ 0 < played := by
  have small := lastChunk_small l
  have last := following.asked
  unfold ManagerOfStream.chunkAsked
  rw [uint32_of_lt (by omega)]
  by_cases next : chunk = csel.manager.indexChunkLastTimeAsked + 1
  · have later := asked next
    rw [if_pos next,if_pos later]
    exact ⟨_,rfl,by omega⟩
  · rw [if_neg next]
    exact ⟨_,rfl,following.played⟩

theorem Following.setCursor {csel : StreamingChunkSelector} {now chunk : Nat} (following : Following l csel at_)
    (lower : l.firstChunk ≤ chunk) (upper : chunk ≤ l.lastChunk) (inTime : InTime csel now chunk) :
    ∃ csel', csel.setCursor now chunk = some csel' ∧ Following l csel' chunk ∧
      (chunk ≠ at_ → csel'.manager.indexChunkLastTimeAsked = chunk ∧ csel'.manager.lastTimeNewChunkWasAsked = now) := by
  unfold StreamingChunkSelector.setCursor
  rw [following.lower,following.upper,if_pos ⟨lower,upper⟩,following.cursor]
  by_cases same : at_ = chunk
  · subst same
    rw [if_neg fun other => other rfl]
    exact ⟨csel,rfl,following,fun other => absurd rfl other⟩
  · rw [if_pos same]
    rcases inTime with stays | asked
    · exact absurd (following.cursor.symm.trans stays.symm) same
    · obtain ⟨played,result,positive⟩ := following.chunkAsked asked
      rw [result]
      exact ⟨_,rfl,⟨rfl,rfl,rfl,upper,upper,positive⟩,fun _ => ⟨rfl,rfl⟩⟩

def Follows (l : Layout) (s : TorrentFileStream) : Prop := ∀ csel, s.csel = some csel → Following l csel s.currentChunk

-- The cursor can be moved from the chunk of s to the one of the new state.
theorem Follows.moveCursor (m : Moment) (next : TorrentFileStream) (follows : Follows l s) (same : next.csel = s.csel)
    (lower : l.firstChunk ≤ next.currentChunk) (upper : next.currentChunk ≤ l.lastChunk)
    (inTime : ∀ csel, s.csel = some csel → InTime csel (m.now next.currentChunk) next.currentChunk) :
    ∃ csel, moveCursor m next = some {next with csel := csel} ∧ Follows l {next with csel := csel} ∧
      (next.currentChunk ≠ s.currentChunk → ∀ after, csel = some after →
        after.manager.indexChunkLastTimeAsked = next.currentChunk ∧
        after.manager.lastTimeNewChunkWasAsked = m.now next.currentChunk) := by
  unfold TorrentFileStream.moveCursor
  cases here : s.csel with
  | none =>
    rw [here] at same
    refine ⟨none,?_,fun csel some_ => (nomatch some_),fun _ after some_ => (nomatch some_)⟩
    cases next
    cases same
    rfl
  | some csel =>
    rw [here] at same
    rw [same]
    obtain ⟨after,set,following,asked⟩ := (follows csel here).setCursor lower upper (inTime csel here)
    refine ⟨some after,?_,?_,?_⟩
    · dsimp only
      rw [set]
      rfl
    · intro other some_
      cases some_
      exact following
    · intro moved other some_
      cases some_
      exact asked moved

-- Where a chunk ends.
def chunkEnd (l : Layout) (i : Nat) : Nat := i * l.chunkSize + l.chunkLen i

-- A seek is late when it goes to the chunk behind the one asked for last in the
-- same millisecond. A read is when it goes past the end of a chunk in the same
-- millisecond as past the one before, and it must not take the last byte of the
-- last chunk of the file. Playing has no reset.
def Smooth (l : Layout) (s : TorrentFileStream) : Event → Prop
  | .seek pos m => pos < l.size ∧ (l.multiFile = true → l.firstChunk * l.chunkSize < 4294967296) ∧
    ∀ csel, s.csel = some csel → InTime csel (m.now ((l.cacheOffset + pos) / l.chunkSize)) ((l.cacheOffset + pos) / l.chunkSize)
  | .readData maxlen m => ∀ i, s.currentChunk ≤ i → ReadsUpTo l m s maxlen (chunkEnd l i) →
    i < l.lastChunk ∧ (i = s.currentChunk → ∀ csel, s.csel = some csel → InTime csel (m.now (i + 1)) (i + 1)) ∧
      (s.currentChunk < i → m.now i < m.now (i + 1))
  | .chunkDownloaded _ => True
  | .reset _ => False

-- What a read that began in s knows of the selector.
structure Playing (l : Layout) (m : Moment) (s s' : TorrentFileStream) : Prop where
  follows : Follows l s'
  later : s'.currentChunk = s.currentChunk ∧ s'.csel = s.csel ∨
    s.currentChunk < s'.currentChunk ∧ ∀ csel, s'.csel = some csel →
      csel.manager.indexChunkLastTimeAsked = s'.currentChunk ∧
      csel.manager.lastTimeNewChunkWasAsked = m.now s'.currentChunk

theorem Playing.le (playing : Playing l m s s') : s.currentChunk ≤ s'.currentChunk := by
  rcases playing.later with ⟨same,_⟩ | ⟨less,_⟩ <;> omega

-- The current chunk is read to its end, so the read comes to the end of it.
theorem Reading.readsUpTo (reading : Reading l data m s got s') (readable : Readable l m.chunks s.currentByteOffset count)
    (placed : Placed l data s') (loads : Loads m s' s'.currentChunk) (fits : l.chunkSize < 4294967296)
    (asked : got.length + n ≤ maxlen) (some_ : got.length + n ≤ count) (more : got.length < count)
    (whole : s'.currentChunkOffset + n = l.chunkLen s'.currentChunk) : ReadsUpTo l m s maxlen (chunkEnd l s'.currentChunk) := by
  have position := placed.position
  have start := reading.position
  have inFile := readable.inFile
  obtain ⟨len,offset⟩ := placed.chunkLen_eq fits (by omega)
  unfold chunkEnd
  refine ⟨by omega,by omega,by omega,fun x less => ⟨readable.there x (by omega),?_⟩⟩
  by_cases before : x < got.length
  · exact reading.loads x before
  · have chunk : (l.cacheOffset + s.currentByteOffset + x) / l.chunkSize = s'.currentChunk := by
      rw [show l.cacheOffset + s.currentByteOffset + x = l.chunkSize * s'.currentChunk + (s'.currentChunkOffset + (x - got.length)) by
        rw [Nat.mul_comm]; omega,Nat.mul_add_div l.chunked,Nat.div_eq_of_lt (by omega),Nat.add_zero]
    rw [chunk]
    exact reading.loaded _ loads

theorem Playing.inTime (playing : Playing l m s s') (smooth : Smooth l s (.readData maxlen m))
    (upTo : ReadsUpTo l m s maxlen (chunkEnd l s'.currentChunk)) (csel : StreamingChunkSelector) (here : s'.csel = some csel) :
    InTime csel (m.now (s'.currentChunk + 1)) (s'.currentChunk + 1) := by
  obtain ⟨_,first,after⟩ := smooth s'.currentChunk playing.le upTo
  rcases playing.later with ⟨same,kept⟩ | ⟨less,asked⟩
  · rw [kept] at here
    exact first same csel here
  · obtain ⟨_,time⟩ := asked csel here
    right
    intro _
    rw [time]
    exact after less

theorem Playing.readCurrentChunk (playing : Playing l m s s') (smooth : Smooth l s (.readData maxlen m))
    (reading : Reading l data m s got s') (readable : Readable l m.chunks s.currentByteOffset count)
    (fits : l.chunkSize < 4294967296) (more : got.length < maxlen ∧ got.length < count) :
    ∃ part after, readCurrentChunk l data m s' (min (count - got.length) (maxlen - got.length)) = some (part,after) ∧
      Playing l m s after := by
  have inFile := readable.inFile
  have position := reading.position
  have placed := reading.inFile (show s'.currentByteOffset < l.size by omega)
  rw [placed.readCurrentChunk_eq fits (by omega)]
  by_cases loads : Loads m s' s'.currentChunk
  · rw [if_pos loads]
    dsimp only
    have amount : allowed l s' (min (count - got.length) (maxlen - got.length)) ≤ min (count - got.length) (maxlen - got.length) :=
      Nat.min_le_right _ _
    generalize allowed l s' (min (count - got.length) (maxlen - got.length)) = n at *
    split
    · rename_i whole
      have upTo := reading.readsUpTo readable placed loads fits (show got.length + n ≤ maxlen by omega) (by omega) more.2 whole
      obtain ⟨inRange,_,_⟩ := smooth s'.currentChunk playing.le upTo
      have low := placed.le_currentChunk
      obtain ⟨csel,moved,follows,asked⟩ := Follows.moveCursor m
        {s' with
          currentByteOffset := s'.currentByteOffset + n
          currentChunk := s'.currentChunk + 1
          currentChunkData := none
          currentChunkOffset := 0} playing.follows rfl (show l.firstChunk ≤ s'.currentChunk + 1 by omega) inRange (playing.inTime smooth upTo)
      rw [moved]
      have le := playing.le
      exact ⟨_,_,rfl,follows,.inr ⟨show s.currentChunk < s'.currentChunk + 1 by omega,
        asked (show s'.currentChunk + 1 ≠ s'.currentChunk by omega)⟩⟩
    · exact ⟨_,_,rfl,playing.follows,playing.later⟩
  · rw [if_neg loads]
    exact ⟨_,_,rfl,playing⟩

theorem Playing.loop (smooth : Smooth l s (.readData maxlen m)) (readable : Readable l m.chunks s.currentByteOffset s.bytesReadable)
    (fits : l.chunkSize < 4294967296) (playing : Playing l m s s') (reading : Reading l data m s got s') :
    ∃ all after, readLoop l data m maxlen fuel got s' = some (all,after) ∧ Playing l m s after := by
  induction fuel generalizing got s' with
  | zero => exact ⟨_,_,rfl,playing⟩
  | succ fuel ih =>
    unfold readLoop
    rw [reading.readable]
    by_cases more : got.length < maxlen ∧ got.length < s.bytesReadable
    · rw [if_pos more]
      obtain ⟨part,after,read,next⟩ := playing.readCurrentChunk smooth reading readable fits more
      have inFile := readable.inFile
      have position := reading.position
      have placed := reading.inFile (show s'.currentByteOffset < l.size by omega)
      have chunk := placed.readCurrentChunk fits (by omega) (by omega) read
      rw [read]
      dsimp only
      split
      · exact ⟨_,_,rfl,next⟩
      · exact ih next (reading.step chunk)
    · rw [if_neg more]
      exact ⟨_,_,rfl,playing⟩

theorem Smooth.allowed (smooth : Smooth l s event) (placed : Placed l data s) (fits : l.chunkSize < 4294967296) : Allowed l s event := by
  cases event with
  | seek pos m => exact ⟨smooth.1,smooth.2.1⟩
  | chunkDownloaded m => trivial
  | reset m => trivial
  | readData maxlen m =>
    right
    intro upTo
    have inside := l.inside
    have inFile := upTo.inFile
    have more := upTo.more
    have last : l.lastChunk = (l.totalSize - 1) / l.chunkSize := by
      rw [lastChunk_eq,if_pos (by omega)]
      congr 1
      omega
    have lower := Nat.div_mul_le_self (l.totalSize - 1) l.chunkSize
    have upper := Nat.lt_div_mul_add l.chunked (a := l.totalSize - 1)
    rw [← last] at lower upper
    have ends : chunkEnd l l.lastChunk = l.totalSize := by
      unfold chunkEnd
      rw [Layout.chunkLen_eq fits (show l.lastChunk * l.chunkSize < l.totalSize by omega)]
      omega
    have here : s.currentChunk ≤ l.lastChunk := by
      rw [← placed.chunk]
      exact lastChunk_of_lt l more
    exact absurd (smooth l.lastChunk here (ends ▸ upTo)).1 (Nat.lt_irrefl _)

theorem new_follows (l : Layout) (streamingMode : Bool) (now : Nat) : Follows l (new l streamingMode now) := by
  intro csel some_
  cases streamingMode with
  | false => cases some_
  | true =>
    cases some_
    exact ⟨rfl,rfl,rfl,firstChunk_le_lastChunk l,Nat.zero_le _,show 0 < initialTimeChunkPlayedFor by decide⟩

theorem Follows.update (follows : Follows l s) (m : Moment) : Follows l (update l m s) := by
  obtain ⟨bitset,count,same,_⟩ := update_keeps l m s
  rw [same]
  exact follows

theorem Follows.seek (follows : Follows l s) (fits : l.chunkSize < 4294967296) (smooth : Smooth l s (.seek pos m)) :
    ∃ s', seek l m s pos = some s' ∧ Follows l s' := by
  obtain ⟨inFile,near,inTime⟩ := smooth
  obtain ⟨bitset,count,same,_⟩ := update_keeps l m s
  have lower : l.firstChunk ≤ (l.cacheOffset + pos) / l.chunkSize := by
    rw [firstChunk_eq]
    exact Nat.div_le_div_right (by omega)
  rw [seek_eq l m s fits inFile near]
  obtain ⟨csel,moved,after,_⟩ := Follows.moveCursor m (sought l m s pos) follows (by unfold sought; rw [same]) lower
    (lastChunk_of_lt l inFile) inTime
  exact ⟨_,moved,after⟩

theorem Follows.readData (follows : Follows l s) (placed : Placed l data s) (fits : l.chunkSize < 4294967296)
    (smooth : Smooth l s (.readData maxlen m)) : ∃ bytes s', readData l data m s maxlen = some (bytes,s') ∧ Follows l s' := by
  have readable := placed.readable fits m
  have updated := placed.update m
  have follows := follows.update m
  obtain ⟨bitset,count,same,_⟩ := update_keeps l m s
  unfold TorrentFileStream.readData
  rw [same] at readable updated follows ⊢
  dsimp only at readable ⊢
  split
  · exact ⟨_,_,rfl,follows⟩
  · have same : Smooth l {s with bitset := bitset,bytesReadable := count} (.readData maxlen m) := fun i le upTo =>
      smooth i le ⟨upTo.more,upTo.asked,upTo.inFile,upTo.there⟩
    obtain ⟨all,after,looped,playing⟩ :
        ∃ all after, readLoop l data m maxlen maxlen [] {s with bitset := bitset,bytesReadable := count} = some (all,after) ∧
          Playing l m {s with bitset := bitset,bytesReadable := count} after :=
      Playing.loop same readable fits ⟨follows,.inl ⟨rfl,rfl⟩⟩ (Reading.start updated)
    rw [looped]
    exact ⟨_,_,rfl,playing.follows⟩

theorem perform_follows (fits : l.chunkSize < 4294967296) (placed : Placed l data s) (follows : Follows l s) (smooth : Smooth l s event) :
    ∃ s', perform l data s event = some s' ∧ Follows l s' := by
  cases event with
  | seek pos m => exact follows.seek fits smooth
  | readData maxlen m =>
    obtain ⟨bytes,s',read,after⟩ := follows.readData placed fits smooth
    refine ⟨s',?_,after⟩
    unfold perform
    dsimp only
    rw [read]
    rfl
  | chunkDownloaded m => exact ⟨_,rfl,follows.update m⟩
  | reset m => exact smooth.elim

theorem reached_follows (fits : l.chunkSize < 4294967296) (reached : Reached l data (Smooth l) s) : Placed l data s ∧ Follows l s := by
  induction reached with
  | new streamingMode now => exact ⟨new_placed l fits streamingMode now,new_follows l streamingMode now⟩
  | step before event smooth performed ih =>
    obtain ⟨placed,follows⟩ := ih
    refine ⟨perform_placed fits placed (smooth.allowed placed fits) performed,?_⟩
    obtain ⟨s',result,after⟩ := perform_follows fits placed follows smooth
    rw [performed] at result
    cases result
    exact after

-- No assertion fails, neither in the selector nor in its manager.
theorem reached_unstopped (fits : l.chunkSize < 4294967296) (reached : Reached l data (Smooth l) s) :
    (∀ csel, s.csel = some csel → 0 < csel.manager.timeLastChunkPlayedFor) ∧
      ∀ event, Smooth l s event → ∃ s', perform l data s event = some s' := by
  obtain ⟨placed,follows⟩ := reached_follows fits reached
  refine ⟨fun csel here => (follows csel here).played,fun event smooth => ?_⟩
  obtain ⟨s',performed,_⟩ := perform_follows fits placed follows smooth
  exact ⟨s',performed⟩

-- A torrent of one file with three chunks.
def oneFile : Layout where
  chunkSize := 4
  totalSize := 12
  multiFile := false
  cacheOffset := 0
  size := 12
  chunked := four_bytes
  inside := by decide
  whole := by decide
  long := by decide
  few := by decide

def allAt (now : Nat) : Moment := ⟨(BitSet.new 3).setAll true,fun _ => true,fun _ => now⟩

-- Five bytes, the last of them in the second chunk.
theorem five_bytes_unstopped : ∃ s s' : TorrentFileStream, perform oneFile byteAt (new oneFile true 0) (.readData 5 (allAt 7)) = some s ∧
    s.currentChunk = 1 ∧ perform oneFile byteAt s (.seek 2 (allAt 7)) = some s' := by
  have start : Smooth oneFile (new oneFile true 0) (.readData 5 (allAt 7)) := by
    intro i _ upTo
    have less : chunkEnd oneFile i ≤ 5 := upTo.asked
    have first : i = 0 := by
      cases i with
      | zero => rfl
      | succ i =>
        cases i with
        | zero => exact absurd less (by decide)
        | succ i =>
          have : (i + 1 + 1) * 4 ≤ chunkEnd oneFile (i + 1 + 1) := Nat.le_add_right _ _
          omega
    subst first
    refine ⟨by decide,fun _ csel some_ => ?_,fun less => absurd less (by decide)⟩
    cases some_
    exact .inr fun _ => by decide
  obtain ⟨s,performed⟩ := (@reached_unstopped oneFile byteAt _ (by decide) (.new true 0)).2 _ start
  have reached : Reached oneFile byteAt (Smooth oneFile) s := .step (.new true 0) _ start performed
  have at_ : s.currentChunk = 1 := by
    cases performed
    rfl
  have back : Smooth oneFile s (.seek 2 (allAt 7)) := by
    refine ⟨by decide,fun multi => (nomatch multi),fun csel some_ => .inr fun next => ?_⟩
    cases performed
    cases some_
    exact absurd next (by decide)
  obtain ⟨s',sought⟩ := (reached_unstopped (by decide) reached).2 _ back
  exact ⟨s,s',performed,at_,sought⟩

-- The cursor is moved behind the range at the end of the file, and two chunks are
-- asked for in one millisecond.
theorem playing_to_end_stops :
    (∃ s, perform oneFile byteAt (new oneFile true 0) (.seek 8 (allAt 7)) = some s ∧
      perform oneFile byteAt s (.readData 4 (allAt 9)) = none) ∧
    perform oneFile byteAt (new oneFile true 0) (.readData 8 (allAt 7)) = none := by
  exact ⟨⟨_,rfl,rfl⟩,rfl⟩

end KtorrentStream.Torrent.TorrentFileStream
