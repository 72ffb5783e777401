import KtorrentStream.Download.WebSeedRanges
set_option autoImplicit true

namespace KtorrentStream.Download
open Util Torrent Torrent.Files
open Diskio.MultiFileCache (chunkLen_eq)

namespace WebSeed

-- Bytes go to the chunk and the offset that their position in the torrent has,
-- unless that chunk is on disk.
def Arrival.InPlace (t : Files) (h : Arrival) : Prop :=
  h.position % t.chunkSize + h.bytes.length ≤ t.chunkLen (h.position / t.chunkSize) ∧
    h.place = if h.onDisk (h.position / t.chunkSize) then none else some (h.position / t.chunkSize,h.position % t.chunkSize)

-- What arrives goes on where it stopped, also behind a lost connection.
def Laid (t : Files) (a : Nat) : List Arrival → Nat → Prop
  | [],b => a = b
  | h :: rest,b => h.position = a ∧ h.InPlace t ∧ Laid t (a + h.bytes.length) rest b

structure Faithful (tor : Seeded) (first last : Nat) (s : WebSeed) : Prop where
  -- The requests of a connection, with those that are still to be sent.
  requested : s.conn.isSome = true → s.asked ++ s.rangeQueue = split tor.files s.resumed (endOf tor.files last)
  -- The chunks are completed one behind the other, each when its last byte is there.
  stored : ∃ b, Laid tor.files (first * tor.files.chunkSize) s.arrived b ∧ b ≤ endOf tor.files last ∧
    (∀ c, c ∈ s.completed.map Prod.fst ↔ (first ≤ c ∧ c ≤ last) ∧ endOf tor.files c ≤ b) ∧
    (s.completed.map Prod.fst).Pairwise (· < ·)
  reported : s.ready = (s.completed.filter fun c => !c.2).map Prod.fst

-- Where the download stands once the bytes that arrived are handled.
def standsAt (tor : Seeded) (s : WebSeed) (bytes : List UInt8) : Nat :=
  s.curChunk * tor.files.chunkSize + s.bytesOfCurChunk +
    match s.conn with
    | some (some (r,got)) => min bytes.length (r.len - got)
    | _ => 0

-- A connection of a torrent with files is lost between chunks or between files.
def Resumable (tor : Seeded) (s : WebSeed) (step : Step) : Prop :=
  step.connection = .closed → tor.multiFile = true →
    s.standsAt tor step.bytes % tor.files.chunkSize = 0 ∨ ∃ k, tor.files.start k = s.standsAt tor step.bytes

def AllResumable (tor : Seeded) : List Step → WebSeed → Prop
  | [],_ => True
  | step :: steps,s => Resumable tor s step ∧ ∀ s', s.update tor step = some s' → AllResumable tor steps s'

-- As the constructor, reset and the end of a range leave it.
structure Idle (tor : Seeded) (s : WebSeed) : Prop where
  enabled : s.enabled = true
  queue : tor.multiFile = false → s.rangeQueue = []
  range : s.lastChunk = noChunk tor
  ready : s.conn = none ∨ s.conn = some none
  fresh : s.arrived = [] ∧ s.completed = [] ∧ s.ready = []
  valid : PosValid tor.files s.cache

section Record
variable {tor : Seeded} {first last cur b : Nat} {s s' : WebSeed}

-- Laid, with the chunk that the bytes have come to.
structure Record (tor : Seeded) (first last : Nat) (s : WebSeed) (cur b : Nat) : Prop where
  laid : Laid tor.files (first * tor.files.chunkSize) s.arrived b
  completed : s.completed.map Prod.fst = List.range' first (cur - first)
  reported : s.ready = (s.completed.filter fun c => !c.2).map Prod.fst
  low : first ≤ cur
  high : cur ≤ last + 1
  within : cur ≤ last → cur * tor.files.chunkSize ≤ b ∧ b < endOf tor.files cur
  ends : cur = last + 1 → b = endOf tor.files last

theorem Laid.snoc (laid : Laid t a l b) (position : h.position = b) (inPlace : Arrival.InPlace t h) :
    Laid t a (l ++ [h]) (b + h.bytes.length) := by
  induction l generalizing a with
  | nil =>
    cases laid
    exact ⟨position,inPlace,by rw [Laid]⟩
  | cons g l more =>
    obtain ⟨at_,fits,rest⟩ := laid
    exact ⟨at_,fits,more rest⟩

theorem endOf_mono (fits : t.chunkSize < 4294967296) (less : c ≤ d) (inside : d < t.numChunks) : endOf t c ≤ endOf t d := by
  rw [endOf_eq fits inside,endOf_eq fits (Nat.lt_of_le_of_lt less inside)]
  have := Nat.mul_le_mul_right t.chunkSize (show c + 1 ≤ d + 1 by omega)
  omega

theorem start_lt_endOf (fits : t.chunkSize < 4294967296) (inside : c < t.numChunks) : c * t.chunkSize < endOf t c := by
  have whole := lt_numChunks.mp inside
  have positive := t.chunked
  rw [endOf_eq fits inside,Nat.succ_mul]
  omega

theorem Record.congr (record : Record tor first last s cur b) (arrived : s'.arrived = s.arrived) (completed : s'.completed = s.completed)
    (ready : s'.ready = s.ready) : Record tor first last s' cur b :=
  ⟨arrived ▸ record.laid,completed ▸ record.completed,by rw [ready,completed,record.reported],record.low,record.high,record.within,record.ends⟩

theorem Record.faithful (record : Record tor first last s cur b) (fits : tor.files.chunkSize < 4294967296)
    (inside : last < tor.files.numChunks)
    (requested : s.conn.isSome = true → s.asked ++ s.rangeQueue = split tor.files s.resumed (endOf tor.files last)) :
    Faithful tor first last s := by
  have low := record.low
  have high := record.high
  refine ⟨requested,⟨b,record.laid,?_,?_,?_⟩,record.reported⟩
  · rcases Nat.lt_or_ge last cur with past | upTo
    · exact Nat.le_of_eq (record.ends (by omega))
    · exact Nat.le_trans (Nat.le_of_lt (record.within upTo).2) (endOf_mono fits upTo inside)
  · intro c
    rw [record.completed,List.mem_range'_1]
    constructor
    · rintro ⟨from_,to_⟩
      refine ⟨⟨from_,by omega⟩,?_⟩
      rcases Nat.lt_or_ge last cur with past | upTo
      · rw [record.ends (by omega)]
        exact endOf_mono fits (by omega) inside
      · have next := endOf_next fits (show c + 1 < tor.files.numChunks by omega)
        have less := Nat.mul_le_mul_right tor.files.chunkSize (show c + 1 ≤ cur by omega)
        have here := (record.within upTo).1
        omega
    · rintro ⟨⟨from_,to_⟩,done⟩
      refine ⟨from_,?_⟩
      rcases Nat.lt_or_ge c cur with before | behind
      · omega
      · have here := (record.within (by omega)).2
        have := endOf_mono fits behind (by omega)
        omega
  · rw [record.completed]
    exact List.pairwise_lt_range'

end Record

section Data
variable {tor : Seeded} {first last position : Nat} {s s' : WebSeed} {m : Moment} {bytes : List UInt8}

-- While data is handled: where cur_chunk and bytes_of_cur_chunk are.
structure Progress (tor : Seeded) (first last : Nat) (s : WebSeed) (b : Nat) : Prop where
  lastChunk : s.lastChunk = last
  record : Record tor first last s s.curChunk b
  stands : s.curChunk ≤ last → s.curChunk * tor.files.chunkSize + s.bytesOfCurChunk = b
  active : s.curChunk ≤ last → s.current ≠ none

structure Same (s s' : WebSeed) : Prop where
  enabled : s'.enabled = s.enabled
  firstChunk : s'.firstChunk = s.firstChunk
  conn : s'.conn = s.conn
  rangeQueue : s'.rangeQueue = s.rangeQueue
  cache : s'.cache = s.cache
  resumed : s'.resumed = s.resumed
  asked : s'.asked = s.asked

theorem Same.refl (s : WebSeed) : Same s s := ⟨rfl,rfl,rfl,rfl,rfl,rfl,rfl⟩

theorem Same.trans (left : Same s₁ s₂) (right : Same s₂ s₃) : Same s₁ s₃ :=
  ⟨right.enabled.trans left.enabled,right.firstChunk.trans left.firstChunk,right.conn.trans left.conn,
    right.rangeQueue.trans left.rangeQueue,right.cache.trans left.cache,right.resumed.trans left.resumed,right.asked.trans left.asked⟩

theorem store_same (s : WebSeed) (m : Moment) (position : Nat) (bytes : List UInt8) : Same s (s.store m position bytes) :=
  ⟨rfl,rfl,rfl,rfl,rfl,rfl,rfl⟩

theorem store_laid (fits : tor.files.chunkSize < 4294967296) (inside : last < tor.files.numChunks)
    (progress : Progress tor first last s position) (more : s.curChunk ≤ last) (room : s.bytesOfCurChunk + bytes.length ≤ tor.files.chunkLen s.curChunk) :
    Laid tor.files (first * tor.files.chunkSize) (s.store m position bytes).arrived (position + bytes.length) := by
  have stands := progress.stands more
  have within := (progress.record.within more).2
  have len := chunkLen_eq fits (show s.curChunk < tor.files.numChunks by omega)
  unfold endOf at within
  have chunk : position / tor.files.chunkSize = s.curChunk := by
    apply Nat.div_eq_of_lt_le
    · omega
    · rw [Nat.succ_mul]
      omega
  have offset : position % tor.files.chunkSize = s.bytesOfCurChunk := by
    rw [← stands,Nat.mul_comm,Nat.mul_add_mod,Nat.mod_eq_of_lt (by omega)]
  apply progress.record.laid.snoc rfl
  refine ⟨by dsimp only; rw [chunk,offset]; exact room,?_⟩
  dsimp only
  rw [chunk,offset]
  by_cases had : m.onDisk s.curChunk = true <;> simp [had]

theorem store_progress (fits : tor.files.chunkSize < 4294967296) (inside : last < tor.files.numChunks)
    (progress : Progress tor first last s position) (more : s.curChunk ≤ last) (room : s.bytesOfCurChunk + bytes.length < tor.files.chunkLen s.curChunk) :
    Progress tor first last (s.store m position bytes) (position + bytes.length) := by
  have stands := progress.stands more
  have within := progress.record.within more
  obtain ⟨_,completed,reported,low,high,_,_⟩ := progress.record
  refine ⟨progress.lastChunk,⟨store_laid fits inside progress more (Nat.le_of_lt room),completed,reported,low,high,?_,?_⟩,?_,progress.active⟩
  · intro _
    show s.curChunk * _ ≤ _ ∧ _ < endOf tor.files s.curChunk
    unfold endOf
    omega
  · intro past
    have : s.curChunk = last + 1 := past
    omega
  · intro _
    show s.curChunk * _ + (s.bytesOfCurChunk + bytes.length) = _
    omega

-- The chunk is complete: it is reported, and the next one begins.
theorem chunkEnd_progress (fits : tor.files.chunkSize < 4294967296) (inside : last < tor.files.numChunks)
    (progress : Progress tor first last s position) (more : s.curChunk ≤ last) (full : s.bytesOfCurChunk + bytes.length = tor.files.chunkLen s.curChunk) :
    ∃ thrown s', (s.store m position bytes).chunkEnd tor m = (thrown,s') ∧
      (thrown = false → Progress tor first last s' (position + bytes.length) ∧ Same s s') ∧
      (thrown = true → Record tor first last s' (s.curChunk + 1) (position + bytes.length) ∧ s'.conn = none) := by
  have stands := progress.stands more
  have laid := store_laid (m := m) fits inside progress more (Nat.le_of_eq full)
  obtain ⟨_,completed,reported,low,high,_,_⟩ := progress.record
  have arrives : position + bytes.length = endOf tor.files s.curChunk := by
    unfold endOf
    omega
  have count : s.completed.map Prod.fst ++ [s.curChunk] = List.range' first (s.curChunk + 1 - first) := by
    rw [completed,show s.curChunk + 1 - first = s.curChunk - first + 1 by omega,List.range'_concat]
    congr 2
    omega
  have record : ∀ s' : WebSeed, s'.arrived = (s.store m position bytes).arrived →
      s'.completed = s.completed ++ [(s.curChunk,m.onDisk s.curChunk)] →
      s'.ready = (if m.onDisk s.curChunk then s.ready else s.ready ++ [s.curChunk]) →
      Record tor first last s' (s.curChunk + 1) (position + bytes.length) := by
    intro s' arrived now ready
    refine ⟨arrived ▸ laid,?_,?_,by omega,by omega,?_,?_⟩
    · rw [now,List.map_append]
      exact count
    · rw [now,ready,reported,List.filter_append,List.map_append]
      cases m.onDisk s.curChunk <;> simp
    · intro upTo
      rw [arrives,endOf_next fits (by omega)]
      exact ⟨Nat.le_refl _,start_lt_endOf fits (by omega)⟩
    · intro past
      rw [arrives,show s.curChunk = last by omega]
  unfold chunkEnd
  by_cases bad : (!m.onDisk (s.store m position bytes).curChunk && !m.verified (s.store m position bytes).curChunk) = true
  · exact ⟨true,_,if_pos bad,fun no => Bool.noConfusion no,fun _ => ⟨record _ rfl rfl rfl,rfl⟩⟩
  · dsimp only
    rw [if_neg bad]
    split
    · rename_i next
      refine ⟨false,_,rfl,fun _ => ⟨⟨progress.lastChunk,record _ rfl rfl rfl,fun upTo => ?_,fun _ => Option.some_ne_none _⟩,?_⟩,fun no => Bool.noConfusion no⟩
      · show (s.curChunk + 1) * _ + 0 = _
        have upTo : s.curChunk + 1 ≤ last := upTo
        rw [arrives,endOf_next fits (by omega)]
        rfl
      · exact ⟨rfl,rfl,rfl,rfl,rfl,rfl,rfl⟩
    · rename_i past
      have past : ¬ s.curChunk + 1 ≤ last := progress.lastChunk ▸ past
      refine ⟨false,_,rfl,fun _ => ⟨⟨progress.lastChunk,record _ rfl rfl rfl,fun upTo => absurd upTo past,fun upTo => absurd upTo past⟩,?_⟩,
        fun no => Bool.noConfusion no⟩
      exact ⟨rfl,rfl,rfl,rfl,rfl,rfl,rfl⟩

theorem handleData_progress (fits : tor.files.chunkSize < 4294967296) (inside : last < tor.files.numChunks) (fuel : Nat) (tmp : List UInt8)
    (progress : Progress tor first last s position) (room : position + tmp.length ≤ endOf tor.files last) (enough : tmp.length < fuel) :
    ∃ thrown s', handleData tor m fuel position tmp s = some (thrown,s') ∧
      (thrown = false → Progress tor first last s' (position + tmp.length) ∧ Same s s') ∧
      (thrown = true → (∃ cur b, Record tor first last s' cur b) ∧ s'.conn = none) := by
  induction fuel generalizing s position tmp with
  | zero => omega
  | succ fuel more =>
    unfold handleData
    rw [progress.lastChunk]
    by_cases some_ : tmp ≠ [] ∧ s.curChunk ≤ last
    · rw [if_pos some_]
      obtain ⟨bytes,upTo⟩ := some_
      have stands := progress.stands upTo
      have within := (progress.record.within upTo).2
      have len := chunkLen_eq fits (show s.curChunk < tor.files.numChunks by omega)
      have length := List.length_pos_iff.mpr bytes
      unfold endOf at within
      dsimp only
      rw [uint32Sub_of_le (by omega) (by omega),if_neg (show (s.store m position _).current ≠ none from progress.active upTo)]
      generalize took : min (tor.files.chunkLen s.curChunk - s.bytesOfCurChunk) tmp.length = bl
      have taken : (tmp.take bl).length = bl := by
        rw [List.length_take]
        omega
      have left : (tmp.drop bl).length = tmp.length - bl := List.length_drop
      have total : position + bl + (tmp.drop bl).length = position + tmp.length := by omega
      by_cases full : (s.store m position (tmp.take bl)).bytesOfCurChunk = tor.files.chunkLen s.curChunk
      · rw [if_pos full]
        obtain ⟨thrown,s₁,ended,goes,stops⟩ := chunkEnd_progress (m := m) fits inside progress upTo full
        rw [ended]
        rw [taken] at goes stops
        cases thrown with
        | true => exact ⟨true,s₁,rfl,fun no => Bool.noConfusion no,fun _ => ⟨⟨_,_,(stops rfl).1⟩,(stops rfl).2⟩⟩
        | false =>
          obtain ⟨progress₁,same₁⟩ := goes rfl
          obtain ⟨thrown,s₂,handled,goes₂,stops₂⟩ := more (tmp.drop bl) progress₁ (by omega) (by omega)
          refine ⟨thrown,s₂,handled,fun no => ?_,stops₂⟩
          rw [total] at goes₂
          exact ⟨(goes₂ no).1,same₁.trans (goes₂ no).2⟩
      · rw [if_neg full]
        have less : s.bytesOfCurChunk + (tmp.take bl).length < tor.files.chunkLen s.curChunk := by
          have : s.bytesOfCurChunk + (tmp.take bl).length ≠ tor.files.chunkLen s.curChunk := full
          omega
        have progress₁ := store_progress (m := m) fits inside progress upTo less
        rw [taken] at progress₁
        obtain ⟨thrown,s₂,handled,goes₂,stops₂⟩ := more (tmp.drop bl) progress₁ (by omega) (by omega)
        refine ⟨thrown,s₂,handled,fun no => ?_,stops₂⟩
        rw [total] at goes₂
        exact ⟨(goes₂ no).1,(store_same s m position _).trans (goes₂ no).2⟩
    · rw [if_neg some_]
      refine ⟨false,s,rfl,fun _ => ⟨?_,Same.refl s⟩,fun no => Bool.noConfusion no⟩
      -- Behind the last chunk there is nothing left to handle.
      have none : tmp.length = 0 := by
        by_cases empty : tmp = []
        · rw [empty,List.length_nil]
        · have past : ¬ s.curChunk ≤ last := fun upTo => some_ ⟨empty,upTo⟩
          have high := progress.record.high
          have ends := progress.record.ends (by omega)
          omega
      rw [none,Nat.add_zero]
      exact progress

end Data

section Requests
variable {tor : Seeded} {first last b got : Nat} {s s' : WebSeed} {r : FileRange}

-- A download that goes on: the request r with got bytes of its reply, and behind
-- it the ranges up to the end of last_chunk.
structure Active (tor : Seeded) (first last : Nat) (s : WebSeed) (b : Nat) (r : FileRange) (got : Nat) : Prop where
  enabled : s.enabled = true
  lastChunk : s.lastChunk = last
  busy : s.firstChunk < tor.files.numChunks
  upTo : s.curChunk ≤ last
  record : Record tor first last s s.curChunk b
  stands : s.curChunk * tor.files.chunkSize + s.bytesOfCurChunk = b
  conn : s.conn = some (some (r,got))
  open_ : got < r.len
  here : tor.files.start r.file + r.off + got = b
  within : tor.files.start r.file + r.off + r.len ≤ endOf tor.files last
  queue : s.rangeQueue = split tor.files (tor.files.start r.file + r.off + r.len) (endOf tor.files last)
  requested : s.asked ++ s.rangeQueue = split tor.files s.resumed (endOf tor.files last)
  single : tor.multiFile = false → s.rangeQueue = []
  valid : PosValid tor.files s.cache

structure Over (tor : Seeded) (first last : Nat) (s : WebSeed) : Prop where
  ended : s.conn = none ∨ tor.files.numChunks ≤ s.firstChunk
  record : ∃ cur b, Record tor first last s cur b
  requested : s.conn.isSome = true → s.asked ++ s.rangeQueue = split tor.files s.resumed (endOf tor.files last)

-- A connection without a request, before the first of the ranges is asked for.
structure Connected (tor : Seeded) (first last : Nat) (s : WebSeed) (b : Nat) : Prop where
  enabled : s.enabled = true
  lastChunk : s.lastChunk = last
  busy : s.firstChunk < tor.files.numChunks
  upTo : s.curChunk ≤ last
  record : Record tor first last s s.curChunk b
  stands : s.curChunk * tor.files.chunkSize + s.bytesOfCurChunk = b
  conn : s.conn = some none
  valid : PosValid tor.files s.cache

theorem Connected.below (connected : Connected tor first last s b) (fits : tor.files.chunkSize < 4294967296)
    (inside : last < tor.files.numChunks) : b < endOf tor.files last :=
  Nat.lt_of_lt_of_le (connected.record.within connected.upTo).2 (endOf_mono fits connected.upTo inside)

theorem Connected.get (connected : Connected tor first last s b) (fits : tor.files.chunkSize < 4294967296) (inside : last < tor.files.numChunks)
    (front : split tor.files b (endOf tor.files last) = r :: rest)
    (asked : s.asked ++ r :: rest = split tor.files s.resumed (endOf tor.files last)) (single : tor.multiFile = false → rest = []) :
    Active tor first last ({s with rangeQueue := rest}.get r) b r 0 := by
  obtain ⟨r',first_,begins,some_,ends,_⟩ := split_first (connected.below fits inside) (endOf_le fits inside)
  rw [first_] at front
  obtain ⟨rfl,behind⟩ := List.cons.inj front
  have request : ({s with rangeQueue := rest} : WebSeed).get r' = {s with rangeQueue := rest,conn := some (some (r',0)),asked := s.asked ++ [r']} := by
    unfold WebSeed.get
    simp only [connected.conn]
  rw [request]
  exact {
    enabled := connected.enabled
    lastChunk := connected.lastChunk
    busy := connected.busy
    upTo := connected.upTo
    record := connected.record.congr rfl rfl rfl
    stands := connected.stands
    conn := rfl
    open_ := some_
    here := begins
    within := by
      rw [begins,ends]
      exact Nat.min_le_left _ _
    queue := by rw [begins,behind]
    requested := by
      rw [← asked,List.append_assoc]
      rfl
    single := single
    valid := connected.valid}

theorem split_single (single : tor.files.numFiles = 1) (less : a < b) (whole : b ≤ tor.files.totalSize) :
    split tor.files a b = [⟨0,a,b - a⟩] := by
  obtain ⟨⟨file,off,len⟩,first_,begins,some_,ends,few⟩ := split_first less whole
  dsimp only at begins some_ ends few
  have zero : file = 0 := by omega
  subst zero
  have start : tor.files.start 0 = 0 := rfl
  have total : tor.files.start (0 + 1) = tor.files.totalSize := by
    rw [← tor.files.start_numFiles,single]
  rw [total] at ends
  have all : a + len = b := by omega
  rw [first_]
  dsimp only
  rw [all,split_of_le (Nat.le_refl _)]
  congr 2 <;> omega

theorem wholeLen_eq (fits : tor.files.chunkSize < 4294967296) (order : s.firstChunk ≤ s.lastChunk) (inside : s.lastChunk < tor.files.numChunks) :
    s.firstChunk * tor.files.chunkSize + s.wholeLen tor = endOf tor.files s.lastChunk := by
  have product : s.lastChunk * tor.files.chunkSize =
      s.firstChunk * tor.files.chunkSize + (s.lastChunk - s.firstChunk) * tor.files.chunkSize := by
    rw [← Nat.add_mul]
    congr 1
    omega
  have whole := lt_numChunks.mp inside
  unfold wholeLen
  split
  · rename_i last
    have end_ : ¬ s.lastChunk + 1 < tor.files.numChunks := by omega
    rw [lt_numChunks] at end_
    rw [endOf_eq fits inside,← last,Nat.add_sub_cancel,Nat.mul_comm tor.files.chunkSize]
    rw [Nat.succ_mul] at end_ ⊢
    omega
  · rw [endOf_next fits (by omega),Nat.succ_mul]
    omega

theorem Connected.fillRanges (connected : Connected tor first last s b) (fits : tor.files.chunkSize < 4294967296)
    (inside : last < tor.files.numChunks) (order : s.firstChunk ≤ last) : ∃ cache, PosValid tor.files cache ∧
      s.fillRanges tor = {s with rangeQueue := split tor.files (s.firstChunk * tor.files.chunkSize) (endOf tor.files last),cache := cache} := by
  have eq := connected.lastChunk
  subst eq
  exact fillRanges_eq fits connected.valid order inside

theorem Connected.cached {cache : PosCache} (connected : Connected tor first last s b) (queue : List FileRange) (valid : PosValid tor.files cache) :
    Connected tor first last {s with rangeQueue := queue,cache := cache} b :=
  ⟨connected.enabled,connected.lastChunk,connected.busy,connected.upTo,connected.record.congr rfl rfl rfl,connected.stands,connected.conn,valid⟩

theorem Connected.getSingle (connected : Connected tor first last s b) (fits : tor.files.chunkSize < 4294967296)
    (inside : last < tor.files.numChunks) (single : tor.multiFile = false) (empty : s.rangeQueue = []) (asked : s.asked = [])
    (resumed : s.resumed = b) : ∃ r, Active tor first last (s.get ⟨0,b,endOf tor.files last - b⟩) b r 0 := by
  have one := split_single (tor.single single) (connected.below fits inside) (endOf_le fits inside)
  have active := connected.get fits inside one (by rw [asked,resumed,one]; rfl) fun _ => rfl
  rw [← empty] at active
  exact ⟨_,active⟩

theorem Active.started (active : Active tor first last s b r got) (c : Nat) : Active tor first last (s.chunkStarted c) b r got :=
  ⟨active.enabled,active.lastChunk,active.busy,active.upTo,active.record.congr rfl rfl rfl,active.stands,active.conn,active.open_,
    active.here,active.within,active.queue,active.requested,active.single,active.valid⟩

theorem connectToServer_eq (conn : s.conn = none ∨ s.conn = some none) : s.connectToServer = {s with conn := some none} := by
  unfold connectToServer
  rcases conn with none | idle
  · rw [if_pos none]
  · rw [if_neg (by simp [idle]),← idle]

theorem download_fresh (fits : tor.files.chunkSize < 4294967296) (inside : last < tor.files.numChunks) (enabled : s.enabled = true)
    (conn : s.conn = none ∨ s.conn = some none) (empty : tor.multiFile = false → s.rangeQueue = []) (valid : PosValid tor.files s.cache)
    (upTo : f ≤ last) (record : Record tor first last s f (f * tor.files.chunkSize))
    (fresh : ¬ (f = s.curChunk ∧ last = s.lastChunk ∧ s.bytesOfCurChunk > 0)) :
    ∃ r, Active tor first last (s.download tor f last) (f * tor.files.chunkSize) r 0 := by
  unfold download
  rw [if_pos enabled,connectToServer_eq conn]
  dsimp only
  rw [if_neg fresh]
  have connected : Connected tor first last ({s with conn := some none}.newRange tor f last) (f * tor.files.chunkSize) :=
    ⟨enabled,rfl,Nat.lt_of_le_of_lt upTo inside,upTo,record.congr rfl rfl rfl,Nat.add_zero _,rfl,valid⟩
  split
  · rename_i multi
    obtain ⟨cache,valid,filled⟩ := connected.fillRanges fits inside upTo
    obtain ⟨r,front,_⟩ := split_first (connected.below fits inside) (endOf_le fits inside)
    have queue : split tor.files (({s with conn := some none}.newRange tor f last).firstChunk * tor.files.chunkSize) (endOf tor.files last) = _ := front
    refine ⟨r,?_⟩
    rw [filled,queue]
    exact (connected.cached _ valid).get fits inside front front.symm fun no => absurd (no.symm.trans multi) Bool.false_ne_true
  · rename_i no
    have single : tor.multiFile = false := by simpa using no
    have whole := wholeLen_eq fits (s := {s with conn := some none}.newRange tor f last) upTo inside
    have length : ({s with conn := some none}.newRange tor f last).wholeLen tor = endOf tor.files last - f * tor.files.chunkSize := by
      have whole : f * tor.files.chunkSize + _ = endOf tor.files last := whole
      omega
    rw [length]
    exact connected.getSingle fits inside single (empty single) rfl rfl

-- download inside a chunk. The queue is filled from the start of the chunk, so the
-- resume point has to be where one of the ranges starts.
theorem download_resumed (fits : tor.files.chunkSize < 4294967296) (inside : last < tor.files.numChunks) (enabled : s.enabled = true)
    (conn : s.conn = none ∨ s.conn = some none) (empty : tor.multiFile = false → s.rangeQueue = []) (valid : PosValid tor.files s.cache)
    (lastChunk : s.lastChunk = last) (upTo : s.curChunk ≤ last) (record : Record tor first last s s.curChunk b)
    (stands : s.curChunk * tor.files.chunkSize + s.bytesOfCurChunk = b) (some_ : 0 < s.bytesOfCurChunk)
    (starts : tor.multiFile = true → ∃ k, tor.files.start k = b) :
    ∃ r, Active tor first last (s.download tor s.curChunk last) b r 0 := by
  unfold download
  rw [if_pos enabled,connectToServer_eq conn]
  dsimp only
  rw [if_pos ⟨rfl,lastChunk.symm,some_⟩]
  have connected : Connected tor first last ({s with conn := some none}.resumeRange tor) b :=
    ⟨enabled,lastChunk,Nat.lt_of_le_of_lt upTo inside,upTo,record.congr rfl rfl rfl,stands,rfl,valid⟩
  unfold continueCurChunk
  dsimp only
  split
  · rename_i multi
    obtain ⟨cache,valid,filled⟩ := connected.fillRanges fits inside upTo
    obtain ⟨k,boundary⟩ := starts multi
    have len := chunkLen_eq fits (show s.curChunk < tor.files.numChunks by omega)
    have within := (record.within upTo).2
    have below := connected.below fits inside
    unfold endOf at within
    obtain ⟨r,rest,skipped,front⟩ := skipRanges_eq (show s.bytesOfCurChunk < 4294967296 by omega) (stands ▸ below) (endOf_le fits inside)
      (boundary.trans stands.symm) _ rfl (Nat.zero_le _)
    rw [stands] at front
    rw [Nat.add_zero] at skipped
    have active := (connected.cached (split tor.files (s.curChunk * tor.files.chunkSize) (endOf tor.files last)) valid).get fits inside front (by rw [← front,← stands]; rfl)
      fun no => absurd (no.symm.trans multi) Bool.false_ne_true
    have chosen : skipRanges ({s with conn := some none}.resumeRange tor).bytesOfCurChunk 0
      (split tor.files (({s with conn := some none}.resumeRange tor).firstChunk * tor.files.chunkSize) (endOf tor.files last)) = (some r,rest) := skipped
    rw [filled]
    dsimp only
    rw [chosen]
    exact ⟨r,active.started _⟩
  · rename_i no
    have single : tor.multiFile = false := by simpa using no
    have whole : s.curChunk * tor.files.chunkSize + ({s with conn := some none}.resumeRange tor).wholeLen tor = endOf tor.files s.lastChunk :=
      wholeLen_eq (s := {s with conn := some none}.resumeRange tor) fits (show s.curChunk ≤ s.lastChunk by omega) (show s.lastChunk < _ by omega)
    have ends : endOf tor.files s.lastChunk = endOf tor.files last := by rw [lastChunk]
    have length : ({s with conn := some none}.resumeRange tor).wholeLen tor - s.bytesOfCurChunk = endOf tor.files last - b := by omega
    obtain ⟨r,active⟩ := connected.getSingle fits inside single (empty single) rfl stands
    have request : (⟨0,({s with conn := some none}.resumeRange tor).firstChunk * tor.files.chunkSize +
        ({s with conn := some none}.resumeRange tor).bytesOfCurChunk,({s with conn := some none}.resumeRange tor).wholeLen tor -
        ({s with conn := some none}.resumeRange tor).bytesOfCurChunk⟩ : FileRange) = ⟨0,b,endOf tor.files last - b⟩ := by
      rw [← length,← stands]
      rfl
    rw [request]
    exact ⟨r,active.started _⟩

end Requests

section Steps
variable {tor : Seeded} {first last b got n : Nat} {s s' : WebSeed} {r : FileRange} {m : Moment} {bytes : List UInt8}

structure ReadOn (tor : Seeded) (first last : Nat) (s s' : WebSeed) (b : Nat) (r : FileRange) (got n : Nat) : Prop where
  enabled : s'.enabled = s.enabled
  rangeQueue : s'.rangeQueue = s.rangeQueue
  cache : s'.cache = s.cache
  resumed : s'.resumed = s.resumed
  asked : s'.asked = s.asked
  conn : s'.conn = some (if r.len ≤ got + n then none else some (r,got + n))
  record : Record tor first last s' s'.curChunk (b + n)
  more : s'.curChunk ≤ last → s'.lastChunk = last ∧ s'.firstChunk = s.firstChunk ∧
    s'.curChunk * tor.files.chunkSize + s'.bytesOfCurChunk = b + n
  done : ¬ s'.curChunk ≤ last → s'.firstChunk = noChunk tor ∧ s'.lastChunk = noChunk tor

theorem Progress.readOn (progress : Progress tor first last s' (b + n)) (same : Same s₁ s') (enabled : s₁.enabled = s.enabled)
    (firstChunk : s₁.firstChunk = s.firstChunk) (rangeQueue : s₁.rangeQueue = s.rangeQueue) (cache : s₁.cache = s.cache)
    (resumed : s₁.resumed = s.resumed) (asked : s₁.asked = s.asked)
    (conn : s₁.conn = some (if r.len ≤ got + n then none else some (r,got + n))) :
    ReadOn tor first last s (s'.rangeDone tor) b r got n := by
  have lastChunk := progress.lastChunk
  unfold rangeDone
  by_cases past : s'.curChunk > s'.lastChunk
  · rw [if_pos past]
    exact ⟨same.enabled.trans enabled,same.rangeQueue.trans rangeQueue,same.cache.trans cache,same.resumed.trans resumed,
      same.asked.trans asked,same.conn.trans conn,progress.record.congr rfl rfl rfl,fun upTo => absurd (show s'.curChunk ≤ last from upTo) (by omega),
      fun _ => ⟨rfl,rfl⟩⟩
  · rw [if_neg past]
    exact ⟨same.enabled.trans enabled,same.rangeQueue.trans rangeQueue,same.cache.trans cache,same.resumed.trans resumed,
      same.asked.trans asked,same.conn.trans conn,progress.record,
      fun upTo => ⟨lastChunk,same.firstChunk.trans firstChunk,progress.stands upTo⟩,fun past => absurd past (by omega)⟩

theorem startCurrent_eq (s : WebSeed) : ∃ c, s.startCurrent = {s with current := some c} := by
  unfold startCurrent
  cases current : s.current with
  | none => exact ⟨_,rfl⟩
  | some c =>
    refine ⟨c,?_⟩
    rw [if_neg (Option.some_ne_none c),← current]

theorem readData_active (m : Moment) (bytes : List UInt8) (fits : tor.files.chunkSize < 4294967296) (inside : last < tor.files.numChunks)
    (active : Active tor first last s b r got) :
    ∃ thrown s', s.readData tor m bytes = some (thrown,s') ∧
      (thrown = false → ReadOn tor first last s s' b r got (min bytes.length (r.len - got))) ∧
      (thrown = true → (∃ cur b, Record tor first last s' cur b) ∧ s'.conn = none) := by
  have taken : (bytes.take (r.len - got)).length = min bytes.length (r.len - got) := by
    rw [List.length_take]
    omega
  have rest := active.open_
  have here := active.here
  have within := active.within
  unfold readData getData
  simp only [active.conn]
  by_cases none : bytes.take (r.len - got) = []
  · rw [if_pos none]
    have zero : min bytes.length (r.len - got) = 0 := by rw [← taken,none,List.length_nil]
    rw [zero]
    have stays : s.rangeDone tor = s := by
      unfold rangeDone
      rw [if_neg (by rw [active.lastChunk]; exact Nat.not_lt.mpr active.upTo)]
    refine ⟨false,_,rfl,fun _ => ?_,fun no => Bool.noConfusion no⟩
    rw [stays]
    exact ⟨rfl,rfl,rfl,rfl,rfl,by rw [active.conn,if_neg (show ¬ r.len ≤ got + 0 by omega)]; rfl,active.record,
      fun _ => ⟨active.lastChunk,rfl,active.stands⟩,fun past => absurd active.upTo past⟩
  · rw [if_neg none]
    dsimp only
    rw [if_pos (by rw [active.lastChunk]; exact active.upTo),taken]
    generalize count : min bytes.length (r.len - got) = n at taken
    obtain ⟨c,started⟩ := startCurrent_eq {s with conn := some (if r.len ≤ got + n then Option.none else some (r,got + n))}
    have progress : Progress tor first last
        {s with conn := some (if r.len ≤ got + n then Option.none else some (r,got + n)),current := some c} b :=
      ⟨active.lastChunk,active.record.congr rfl rfl rfl,fun _ => active.stands,fun _ => Option.some_ne_none _⟩
    obtain ⟨thrown,s₂,handled,goes,stops⟩ :=
      handleData_progress (m := m) fits inside (n + 1) (bytes.take (r.len - got)) progress (by omega) (by omega)
    rw [here,started,handled]
    cases thrown with
    | true => exact ⟨true,s₂,rfl,fun no => Bool.noConfusion no,stops⟩
    | false =>
      obtain ⟨progress₂,same⟩ := goes rfl
      rw [taken] at progress₂
      exact ⟨false,_,rfl,fun _ => progress₂.readOn same rfl rfl rfl rfl rfl rfl rfl,fun no => Bool.noConfusion no⟩

-- In every state of a run.
def Sound (tor : Seeded) (first last : Nat) (s : WebSeed) : Prop :=
  (∃ b r got, Active tor first last s b r got) ∨ Over tor first last s

theorem Active.running (active : Active tor first last s b r got) : (s.conn.isSome && s.busy tor) = true := by
  rw [active.conn,WebSeed.busy,decide_eq_true active.busy]
  rfl

theorem Over.stopped (gone : Over tor first last s) : (s.conn.isSome && s.busy tor) = false := by
  rcases gone.ended with none | past
  · rw [none]
    rfl
  · rw [WebSeed.busy,decide_eq_false (Nat.not_lt.mpr past),Bool.and_false]

theorem Over.thrown (record : ∃ cur b, Record tor first last s cur b) (conn : s.conn = none) : Over tor first last s :=
  ⟨.inl conn,record,fun some_ => by rw [conn] at some_; cases some_⟩

theorem ReadOn.finished (read : ReadOn tor first last s s' b r got n) (active : Active tor first last s b r got) (most : n ≤ r.len - got)
    (past : ¬ s'.curChunk ≤ last) : s'.conn = some none ∧ s'.rangeQueue = [] := by
  have high := read.record.high
  have ends := read.record.ends (by omega)
  have within := active.within
  have here := active.here
  have open_ := active.open_
  refine ⟨by rw [read.conn,if_pos (by omega)],?_⟩
  rw [read.rangeQueue,active.queue]
  exact split_of_le (by omega)

theorem ReadOn.alive (fits : tor.files.chunkSize < 4294967296) (inside : last < tor.files.numChunks)
    (active : Active tor first last s b r got) (on : ReadOn tor first last s s' b r got n) (most : n ≤ r.len - got) :
    Sound tor first last (s'.proceed tor .alive) := by
  have open_ := active.open_
  have here := active.here
  unfold proceed
  dsimp only
  by_cases upTo : s'.curChunk ≤ last
  · obtain ⟨lastChunk,firstChunk,stands⟩ := on.more upTo
    by_cases whole : r.len ≤ got + n
    · have connected : Connected tor first last s' (b + n) :=
        ⟨on.enabled.trans active.enabled,lastChunk,firstChunk ▸ active.busy,upTo,on.record,stands,by rw [on.conn,if_pos whole],on.cache ▸ active.valid⟩
      obtain ⟨r',front,_⟩ := split_first (connected.below fits inside) (endOf_le fits inside)
      have queue : s'.rangeQueue = r' :: split tor.files (b + n + r'.len) (endOf tor.files last) := by
        rw [on.rangeQueue,active.queue,← front,show tor.files.start r.file + r.off + r.len = b + n by omega]
      have asked : s'.asked ++ r' :: split tor.files (b + n + r'.len) (endOf tor.files last) = split tor.files s'.resumed (endOf tor.files last) := by
        rw [← queue,on.asked,on.rangeQueue,on.resumed,active.requested]
      have single : tor.multiFile = false → split tor.files (b + n + r'.len) (endOf tor.files last) = [] := by
        intro no
        have empty := active.single no
        rw [← on.rangeQueue,queue] at empty
        cases empty
      have next := connected.get fits inside front asked single
      rw [if_pos ⟨by rw [queue]; exact List.cons_ne_nil _ _,by rw [on.conn,if_pos whole]⟩]
      unfold getNext
      rw [queue]
      exact .inl ⟨_,_,_,next⟩
    · have conn : s'.conn = some (some (r,got + n)) := by rw [on.conn,if_neg whole]
      rw [if_neg (by rw [conn]; exact fun both => nomatch both.2)]
      exact .inl ⟨b + n,r,got + n,⟨on.enabled.trans active.enabled,lastChunk,firstChunk ▸ active.busy,upTo,on.record,stands,conn,by omega,
        by omega,active.within,on.rangeQueue.trans active.queue,by rw [on.asked,on.rangeQueue,on.resumed,active.requested],
        fun no => on.rangeQueue.trans (active.single no),on.cache ▸ active.valid⟩⟩
  · obtain ⟨conn,empty⟩ := on.finished active most upTo
    rw [if_neg fun both => both.1 empty]
    exact .inr ⟨.inr (by rw [(on.done upTo).1]; exact Nat.le_succ _),⟨_,_,on.record⟩,
      fun _ => by rw [on.asked,on.rangeQueue,on.resumed,active.requested]⟩

theorem ReadOn.closed (fits : tor.files.chunkSize < 4294967296) (inside : last < tor.files.numChunks)
    (active : Active tor first last s b r got) (on : ReadOn tor first last s s' b r got n)
    (resumable : tor.multiFile = true → (b + n) % tor.files.chunkSize = 0 ∨ ∃ k, tor.files.start k = b + n) :
    Sound tor first last (s'.proceed tor .closed) := by
  unfold proceed
  dsimp only
  by_cases upTo : s'.curChunk ≤ last
  · obtain ⟨lastChunk,firstChunk,stands⟩ := on.more upTo
    have lost : ({s' with conn := none}.chunkStopped).lastChunk = last := lastChunk
    have enabled : s'.enabled = true := on.enabled.trans active.enabled
    have empty : tor.multiFile = false → s'.rangeQueue = [] := fun no => on.rangeQueue.trans (active.single no)
    have valid : PosValid tor.files s'.cache := on.cache ▸ active.valid
    have within := (on.record.within upTo).2
    have len := chunkLen_eq fits (show s'.curChunk < tor.files.numChunks by omega)
    unfold endOf at within
    rw [if_pos (by rw [lost]; exact inside),lost]
    by_cases zero : s'.bytesOfCurChunk = 0
    · have record : Record tor first last ({s' with conn := none}.chunkStopped) s'.curChunk (s'.curChunk * tor.files.chunkSize) := by
        rw [zero,Nat.add_zero] at stands
        rw [stands]
        exact on.record.congr rfl rfl rfl
      obtain ⟨r',active'⟩ := download_fresh (s := {s' with conn := none}.chunkStopped) fits inside enabled (.inl rfl) empty valid upTo record
        fun both => absurd zero (Nat.ne_of_gt both.2.2)
      exact .inl ⟨_,_,_,active'⟩
    · have record : Record tor first last ({s' with conn := none}.chunkStopped) s'.curChunk (b + n) := on.record.congr rfl rfl rfl
      have starts : tor.multiFile = true → ∃ k, tor.files.start k = b + n := by
        intro multi
        rcases resumable multi with between | file
        · rw [← stands,Nat.mul_comm,Nat.mul_add_mod,Nat.mod_eq_of_lt (by omega)] at between
          exact absurd between zero
        · exact file
      obtain ⟨r',active'⟩ := download_resumed (s := {s' with conn := none}.chunkStopped) fits inside enabled (.inl rfl) empty valid lastChunk upTo
        record stands (Nat.pos_of_ne_zero zero) starts
      exact .inl ⟨_,_,_,active'⟩
  · have gone : ({s' with conn := none}.chunkStopped).lastChunk = noChunk tor := (on.done upTo).2
    rw [if_neg (by rw [gone]; exact Nat.not_lt.mpr (Nat.le_succ _))]
    exact .inr (Over.thrown ⟨_,_,on.record.congr rfl rfl rfl⟩ rfl)

theorem Active.update (fits : tor.files.chunkSize < 4294967296) (inside : last < tor.files.numChunks)
    (active : Active tor first last s b r got) (resumable : Resumable tor s step) :
    ∃ s', s.update tor step = some s' ∧ Sound tor first last s' := by
  obtain ⟨thrown,s₁,read,goes,stops⟩ := readData_active step.moment step.bytes fits inside active
  have stop : s.standsAt tor step.bytes = b + min step.bytes.length (r.len - got) := by
    unfold standsAt
    rw [active.conn,active.stands]
  unfold Resumable at resumable
  rw [stop] at resumable
  unfold WebSeed.update
  rw [if_pos active.running,read]
  cases thrown with
  | true => exact ⟨s₁,rfl,.inr (Over.thrown (stops rfl).1 (stops rfl).2)⟩
  | false =>
    refine ⟨_,rfl,?_⟩
    cases connection : step.connection with
    | alive => exact (goes rfl).alive fits inside active (Nat.min_le_right _ _)
    | closed => exact (goes rfl).closed fits inside active (resumable connection)
    | failed => exact .inr (Over.thrown ⟨_,_,(goes rfl).record.congr rfl rfl rfl⟩ rfl)

theorem Sound.update (sound : Sound tor first last s) (fits : tor.files.chunkSize < 4294967296) (inside : last < tor.files.numChunks)
    (resumable : Resumable tor s step) : ∃ s', s.update tor step = some s' ∧ Sound tor first last s' := by
  rcases sound with ⟨b,r,got,active⟩ | gone
  · exact active.update fits inside resumable
  · refine ⟨s,?_,.inr gone⟩
    unfold WebSeed.update
    rw [gone.stopped]
    rfl

theorem Sound.run (sound : Sound tor first last s) (fits : tor.files.chunkSize < 4294967296) (inside : last < tor.files.numChunks)
    (steps : List Step) (resumable : AllResumable tor steps s) : ∃ s', s.run tor steps = some s' ∧ Sound tor first last s' := by
  induction steps generalizing s with
  | nil => exact ⟨s,rfl,sound⟩
  | cons step steps more =>
    obtain ⟨s₁,stepped,sound₁⟩ := sound.update fits inside resumable.1
    obtain ⟨s₂,ran,sound₂⟩ := more sound₁ (resumable.2 s₁ stepped)
    refine ⟨s₂,?_,sound₂⟩
    unfold WebSeed.run at ran ⊢
    rw [List.foldlM_cons,stepped]
    exact ran

theorem Sound.faithful (sound : Sound tor first last s) (fits : tor.files.chunkSize < 4294967296) (inside : last < tor.files.numChunks) :
    Faithful tor first last s := by
  rcases sound with ⟨b,r,got,active⟩ | gone
  · exact active.record.faithful fits inside fun _ => active.requested
  · obtain ⟨cur,b,record⟩ := gone.record
    exact record.faithful fits inside gone.requested

-- Every run of a download whose connections are lost only between chunks or files.
theorem resumed_faithful (tor : Seeded) (s : WebSeed) (first last : Nat) (steps : List Step) (fits : tor.files.chunkSize < 4294967296)
    (idle : Idle tor s) (order : first ≤ last) (inside : last < tor.files.numChunks)
    (resumable : AllResumable tor steps (s.download tor first last)) :
    ∃ s', (s.download tor first last).run tor steps = some s' ∧ Faithful tor first last s' := by
  have nothing : Record tor first last s first (first * tor.files.chunkSize) := by
    obtain ⟨arrived,completed,ready⟩ := idle.fresh
    refine ⟨by rw [arrived]; rfl,by rw [completed,Nat.sub_self]; rfl,by rw [ready,completed]; rfl,Nat.le_refl _,by omega,?_,by omega⟩
    exact fun _ => ⟨Nat.le_refl _,start_lt_endOf fits (by omega)⟩
  have range := idle.range
  unfold noChunk at range
  obtain ⟨r,active⟩ := download_fresh fits inside idle.enabled idle.ready idle.queue idle.valid order nothing fun both => by omega
  obtain ⟨s',ran,sound⟩ := Sound.run (.inl ⟨_,_,_,active⟩) fits inside steps resumable
  exact ⟨s',ran,sound.faithful fits inside⟩

end Steps

section Lost

theorem eight_bytes : 0 < 8 := by decide

def threeFiles : Seeded := ⟨⟨8,[10,0,6],eight_bytes,by decide,by decide⟩,true,by decide⟩

def newSeed : WebSeed := ⟨true,3,3,0,0,none,none,[],none,⟨0,0⟩,0,[],[],[],[]⟩

def quiet : Moment := ⟨fun _ => false,fun _ => true⟩

-- The connection is lost where the first file ends, inside the second chunk.
theorem lost_between_files : ∃ s', (newSeed.download threeFiles 0 1).run threeFiles
    [⟨List.replicate 10 7,.alive,quiet⟩,⟨[],.closed,quiet⟩,⟨List.replicate 6 7,.alive,quiet⟩] = some s' ∧ Faithful threeFiles 0 1 s' := by
  have idle : Idle threeFiles newSeed := ⟨rfl,fun _ => rfl,rfl,.inl rfl,⟨rfl,rfl,rfl⟩,start_posValid _⟩
  refine resumed_faithful threeFiles newSeed 0 1 _ (by decide) idle (by decide) (by decide) ⟨fun no => (nomatch no),fun s₁ first => ?_⟩
  refine ⟨fun _ _ => .inr ⟨1,?_⟩,fun s₂ _ => ⟨fun no => (nomatch no),fun _ _ => trivial⟩⟩
  cases first
  decide

-- Behind three bytes the server is asked for the last file, and its bytes would go
-- into the first chunk.
theorem lost_inside_file : ∃ s', (newSeed.download threeFiles 0 1).run threeFiles
    [⟨[7,7,7],.alive,quiet⟩,⟨[],.closed,quiet⟩] = some s' ∧ ¬ Faithful threeFiles 0 1 s' := by
  refine ⟨_,rfl,fun faithful => ?_⟩
  have requested := faithful.requested rfl
  revert requested
  decide

end Lost

end WebSeed

end KtorrentStream.Download
