import KtorrentStream.Lib.Runs
import KtorrentStream.Diskio.ChunkManager
set_option autoImplicit true

namespace KtorrentStream.Download
open KtorrentStream.Lib KtorrentStream.Util KtorrentStream.Diskio

structure SeedRange where
  busy : Bool
  firstChunk : Nat
  lastChunk : Nat

def SeedRange.inCurrentRange (ws : SeedRange) (chunk : Nat) : Bool := chunk ≥ ws.firstChunk && chunk ≤ ws.lastChunk

-- What selectRange can see: the chunks, those that have a ChunkDownload, and the web
-- seeds with webseed_endgame_mode.
structure RangeSource (n : Nat) where
  manager : ChunkManager n
  downloading : Nat → Bool
  webseeds : List SeedRange
  endgame : Bool

structure ChunkRange where
  start : Nat
  len : Nat

def expand (i : Nat) (curr : ChunkRange) : ChunkRange := if curr.start = 0 ∧ curr.len = 0 then ⟨i,1⟩ else {curr with len := curr.len + 1}

namespace RangeSource

variable {n : Nat} (s : RangeSource n)

def canDownloadFromWebSeed (chunk : Nat) : Bool :=
  if s.endgame then true
  else if s.webseeds.any fun ws => ws.busy && ws.inCurrentRange chunk then false
  else !s.downloading chunk

def usable (i : Nat) : Bool := !s.manager.bitset.get i && s.canDownloadFromWebSeed i

-- One round of the loop: the range to return, or the current and the best range.
def selectStep (maxLen i : Nat) (curr best : ChunkRange) : Option ChunkRange × ChunkRange × ChunkRange :=
  if s.usable i then
    let curr := expand i curr
    if curr.len ≥ maxLen then (some curr,curr,best)
    else if i = n - 1 then (none,curr,if curr.start > 0 ∧ curr.len > best.len then curr else best)
    else (none,curr,best)
  else (none,⟨0,0⟩,if curr.start > 0 ∧ curr.len > best.len then curr else best)

def selectLoop (maxLen : Nat) : Nat → Nat → ChunkRange → ChunkRange → Option ChunkRange
  | 0,_,_,best => if best.len ≠ 0 then some best else none
  | rounds + 1,i,curr,best =>
    match s.selectStep maxLen i curr best with
    | (some found,_,_) => some found
    | (none,curr,best) => selectLoop maxLen rounds (i + 1) curr best

def selectRange (maxLen : Nat) : Option (Nat × Nat) :=
  (s.selectLoop maxLen n 0 ⟨0,0⟩ ⟨0,0⟩).map fun r => (r.start,r.start + r.len - 1)

end RangeSource

-- The webseed_range_size of a Downloader with so many web seeds.
def webseedRangeSize (numChunks webseeds : Nat) : Nat :=
  if webseeds > 0 then
    let size := numChunks / webseeds
    let size := if size = 0 then 1 else size
    if size > numChunks / 10 then numChunks / 10 else size
  else 1

namespace RangeSource

variable {n : Nat} (s : RangeSource n) (maxLen : Nat)

def eligible (i : Nat) : Bool := s.usable i && !(s.manager.chunk i).isExcluded

end RangeSource

namespace RunChoice

def Long (p : Nat → Bool) (n len first last : Nat) : Prop := Run p n first last ∧ len ≤ last + 1 - first

def FirstLong (p : Nat → Bool) (n len first last : Nat) : Prop := Long p n len first last ∧ ∀ a b, Long p n len a b → first ≤ a

def Longest (p : Nat → Bool) (n first last : Nat) : Prop := Run p n first last ∧ ∀ a b, Run p n a b → b + 1 - a ≤ last + 1 - first

-- What is to be selected: all of a longest run, or the front of the first one that is
-- long enough.
structure Right (p : Nat → Bool) (n maxLen first last : Nat) : Prop where
  order : first ≤ last
  inside : last < n
  all : ∀ i, first ≤ i → i ≤ last → p i = true
  short : last + 1 - first ≤ maxLen
  best : (∃ end_, FirstLong p n maxLen first end_ ∧ last + 1 - first = maxLen) ∨ (∀ a b, ¬ Long p n maxLen a b) ∧ Longest p n first last

-- Of the runs that do not begin at place 0, the first of the longest.
structure FirstBehind (p : Nat → Bool) (n first last : Nat) : Prop where
  run : Run p n first last
  behind : 0 < first
  longest : ∀ a b, Run p n a b → 0 < a → b + 1 - a ≤ last + 1 - first
  earliest : ∀ a b, Run p n a b → 0 < a → b + 1 - a = last + 1 - first → first ≤ a

end RunChoice

open RunChoice

namespace RangeSource

variable {n : Nat} {s : RangeSource n} {maxLen i : Nat} {curr best : ChunkRange} {S S' : Nat → Nat → Prop}

-- The best range is the first of the longest runs that have ended, those at chunk 0 not
-- regarded.
def Best (S : Nat → Nat → Prop) (best : ChunkRange) : Prop :=
  (best.len = 0 ∧ ∀ a b, S a b → a = 0) ∨
    (0 < best.len ∧ S best.start (best.start + best.len - 1) ∧ 0 < best.start ∧
      ∀ a b, S a b → 0 < a → b + 1 - a ≤ best.len ∧ (b + 1 - a = best.len → best.start ≤ a))

theorem Best.add (kept : Best S best) (c : ChunkRange) (later : 0 < best.len → 0 < c.len → best.start ≤ c.start)
    (ended : 0 < c.len → S' c.start (c.start + c.len - 1)) (old : ∀ a b, S a b → S' a b)
    (only : ∀ a b, S' a b → S a b ∨ a = c.start ∧ 0 < c.len ∧ b + 1 = c.start + c.len) :
    Best S' (if c.start > 0 ∧ c.len > best.len then c else best) := by
  split
  · rename_i better
    refine Or.inr ⟨by omega,ended (by omega),better.1,fun a b seen behind => ?_⟩
    rcases only a b seen with before | ⟨rfl,some_,ends⟩
    · rcases kept with ⟨_,front⟩ | ⟨_,_,_,most⟩
      · have := front a b before
        omega
      · have := (most a b before behind).1
        omega
    · omega
  · rename_i worse
    rcases kept with ⟨none_,front⟩ | ⟨holds,here,behind,most⟩
    · refine Or.inl ⟨none_,fun a b seen => ?_⟩
      rcases only a b seen with before | ⟨rfl,some_,ends⟩
      · exact front a b before
      · omega
    · refine Or.inr ⟨holds,old _ _ here,behind,fun a b seen first => ?_⟩
      rcases only a b seen with before | ⟨rfl,some_,ends⟩
      · exact most a b before first
      · have := later holds some_
        omega

def Ended (s : RangeSource n) (i a b : Nat) : Prop := Run s.usable n a b ∧ (b + 1 < i ∨ b + 1 = n ∧ i = n)

-- The current range is all of the run that reaches up to chunk i.
structure Current (s : RangeSource n) (i : Nat) (curr : ChunkRange) : Prop where
  ends : 0 < curr.len → curr.start + curr.len = i
  starts : curr.len = 0 → curr.start = 0 ∧ (i = 0 ∨ s.usable (i - 1) = false)
  all : ∀ j, curr.start ≤ j → j < curr.start + curr.len → s.usable j = true
  front : curr.start = 0 ∨ s.usable (curr.start - 1) = false

structure Scanned (s : RangeSource n) (maxLen i : Nat) (curr best : ChunkRange) : Prop where
  current : Current s i curr
  short : curr.len < maxLen
  none_ : ∀ a b, Run s.usable n a b → b < i → b + 1 - a < maxLen
  best : Best (Ended s i) best

theorem Current.run (current : Current s i curr) (some_ : 0 < curr.len) (inside : i ≤ n) (stops : i = n ∨ s.usable i = false) :
    Run s.usable n curr.start (curr.start + curr.len - 1) := by
  have ends := current.ends some_
  refine ⟨by omega,by omega,fun j low high => current.all j low (by omega),current.front,?_⟩
  rw [show curr.start + curr.len - 1 + 1 = i by omega]
  exact stops

theorem Current.unique (current : Current s i curr) (run : Run s.usable n a b) (ends : b + 1 = i) : a = curr.start ∧ b + 1 = curr.start + curr.len := by
  have last := run.all b run.order (Nat.le_refl b)
  rcases Nat.eq_zero_or_pos curr.len with zero | some_
  · rcases (current.starts zero).2 with start | stops
    · omega
    · rw [show i - 1 = b by omega,last] at stops
      cases stops
  · have whole := current.ends some_
    refine ⟨?_,by omega⟩
    have covers := run.covers (d := b) (fun j low high => current.all j low (by omega)) run.inside (by omega) run.order
    rcases current.front with zero | stops
    · omega
    · by_contra apart
      have on := run.all (curr.start - 1) (by omega) (by omega)
      rw [stops] at on
      cases on

theorem Current.expand (current : Current s i curr) (on : s.usable i = true) :
    Current s (i + 1) (expand i curr) ∧ (expand i curr).len = curr.len + 1 := by
  unfold Download.expand
  split
  · rename_i fresh
    obtain ⟨_,stops⟩ := current.starts fresh.2
    refine ⟨⟨fun _ => rfl,fun zero => (nomatch zero),fun j low high => ?_,stops⟩,by rw [fresh.2]⟩
    rw [show j = i by dsimp only at low high; omega]
    exact on
  · rename_i going
    have some_ : 0 < curr.len := by
      rcases Nat.eq_zero_or_pos curr.len with zero | some_
      · exact absurd ⟨(current.starts zero).1,zero⟩ going
      · exact some_
    have ends := current.ends some_
    refine ⟨⟨fun _ => by dsimp only; omega,fun zero => (nomatch zero),fun j low high => ?_,current.front⟩,rfl⟩
    by_cases last : j = i
    · rw [last]
      exact on
    · exact current.all j low (by dsimp only at high; omega)

theorem Best.congr (kept : Best S best) (same : ∀ a b, S' a b ↔ S a b) : Best S' best := by
  rcases kept with ⟨none_,front⟩ | ⟨some_,here,behind,most⟩
  · exact Or.inl ⟨none_,fun a b seen => front a b ((same a b).mp seen)⟩
  · exact Or.inr ⟨some_,(same _ _).mpr here,behind,fun a b seen => most a b ((same a b).mp seen)⟩

-- A block of usable chunks that is still open begins behind the best range.
theorem Best.start_le (kept : Best (Ended s i) best) (some_ : 0 < best.len) (inside : i < n)
    (block : ∀ j, c ≤ j → j < i → s.usable j = true) : best.start ≤ c := by
  rcases kept with ⟨none_,_⟩ | ⟨_,⟨run,ended⟩,_,_⟩
  · omega
  · by_contra before
    have on := block (best.start + best.len - 1 + 1) (by omega) (by omega)
    rcases run.back with ends | stops
    · omega
    · rw [stops] at on
      cases on

theorem Ended.next (ended : Ended s i a b) (inside : i < n) : Ended s (i + 1) a b := ⟨ended.1,by have := ended.2; omega⟩

-- The front of the first long run, where a current range has got long enough.
theorem Current.firstLong (current : Current s (i + 1) curr) (inside : i < n) (some_ : 0 < curr.len) (long : maxLen ≤ curr.len)
    (none_ : ∀ a b, Run s.usable n a b → b < i → b + 1 - a < maxLen) : ∃ e, FirstLong s.usable n maxLen curr.start e := by
  have ends := current.ends some_
  obtain ⟨a,b,run,low,high⟩ := Run.exists_at (current.all i (by omega) (by omega)) inside
  have covers := run.covers (d := i) (fun j first last => current.all j first (by omega)) inside (by omega) low
  have start : a = curr.start := by
    by_contra apart
    rcases current.front with zero | stops
    · omega
    · have on := run.all (curr.start - 1) (by omega) (by omega)
      rw [stops] at on
      cases on
  subst start
  refine ⟨b,⟨run,by omega⟩,fun a' b' other => ?_⟩
  obtain ⟨run',long'⟩ := other
  by_contra before
  have behind : i ≤ b' := by
    by_contra ended
    have := none_ a' b' run' (by omega)
    omega
  have := (run.eq_of_meet run' (by omega) (by omega)).1
  omega

theorem selectStep_spec (scanned : Scanned s maxLen i curr best) (inside : i < n) (some_ : 1 ≤ maxLen) :
    (∃ found c b, s.selectStep maxLen i curr best = (some found,c,b) ∧ found.len = maxLen ∧ ∃ e, FirstLong s.usable n maxLen found.start e) ∨
    ∃ c b, s.selectStep maxLen i curr best = (none,c,b) ∧ Scanned s maxLen (i + 1) c b := by
  obtain ⟨current,short,none_,kept⟩ := scanned
  unfold selectStep
  cases on : s.usable i with
  | true =>
      obtain ⟨next,len⟩ := current.expand on
      have ends := next.ends (by omega)
      rw [if_pos rfl]
      dsimp only
      generalize expand i curr = g at next len ends ⊢
      by_cases long : g.len ≥ maxLen
      · left
        exact ⟨g,g,best,if_pos long,by omega,next.firstLong inside (by omega) long none_⟩
      · right
        have stillNone : ∀ a b, Run s.usable n a b → b < i + 1 → b + 1 - a < maxLen := by
          intro a b run before
          by_cases here : b = i
          · have := next.unique run (by omega)
            omega
          · exact none_ a b run (by omega)
        have closed : ∀ a b, Run s.usable n a b → b + 1 ≠ i := by
          intro a b run here
          rcases run.back with ends | stops
          · omega
          · rw [here,on] at stops
            cases stops
        rw [if_neg long]
        by_cases last : i = n - 1
        · rw [if_pos last]
          refine ⟨g,_,rfl,next,by omega,stillNone,kept.add g (fun holds _ => ?_) (fun _ => ?_) (fun a b ended => ended.next inside) fun a b ended => ?_⟩
          · exact kept.start_le holds inside fun j low high => next.all j low (by omega)
          · exact ⟨next.run (by omega) (by omega) (Or.inl (by omega)),Or.inr (by omega)⟩
          · by_cases before : b + 1 < i
            · exact Or.inl ⟨ended.1,Or.inl before⟩
            · have := closed a b ended.1
              have := next.unique ended.1 (by have := ended.2; omega)
              exact Or.inr (by omega)
        · rw [if_neg last]
          refine ⟨g,best,rfl,next,by omega,stillNone,kept.congr fun a b => ⟨fun ended => ⟨ended.1,?_⟩,fun ended => ended.next inside⟩⟩
          have := closed a b ended.1
          have := ended.2
          omega
  | false =>
      right
      rw [if_neg Bool.false_ne_true]
      have outside : ∀ a b, Run s.usable n a b → b ≠ i := by
        intro a b run here
        have used := run.all b run.order (Nat.le_refl b)
        rw [here,on] at used
        cases used
      refine ⟨⟨0,0⟩,_,rfl,⟨fun more => (nomatch more),fun _ => ⟨rfl,Or.inr on⟩,fun j _ high => absurd high (Nat.not_lt_zero j),Or.inl rfl⟩,some_,
        fun a b run before => ?_,kept.add curr (fun holds _ => ?_) (fun holds => ?_) (fun a b ended => ended.next inside) fun a b ended => ?_⟩
      · have := outside a b run
        exact none_ a b run (by omega)
      · exact kept.start_le holds inside fun j low high => by
          rename_i open_
          exact current.all j low (by have := current.ends open_; omega)
      · have := current.ends holds
        exact ⟨current.run holds (by omega) (Or.inr on),Or.inl (by omega)⟩
      · by_cases before : b + 1 < i
        · exact Or.inl ⟨ended.1,Or.inl before⟩
        · have := outside a b ended.1
          have order := ended.1.order
          have := current.unique ended.1 (by have := ended.2; omega)
          exact Or.inr (by omega)

-- What selectRange returns: the front of the first long run, or else the first of the
-- longest among those that do not begin at chunk 0.
inductive Outcome (s : RangeSource n) (maxLen : Nat) : Option (Nat × Nat) → Prop where
  | long (first : FirstLong s.usable n maxLen a e) : Outcome s maxLen (some (a,a + maxLen - 1))
  | behind (none_ : ∀ a b, ¬ Long s.usable n maxLen a b) (first : FirstBehind s.usable n a b) : Outcome s maxLen (some (a,b))
  | front (none_ : ∀ a b, ¬ Long s.usable n maxLen a b) (all : ∀ a b, Run s.usable n a b → a = 0) : Outcome s maxLen none

theorem selectLoop_outcome (some_ : 1 ≤ maxLen) (rounds : Nat) (scanned : Scanned s maxLen i curr best) (left : i + rounds = n) :
    Outcome s maxLen ((s.selectLoop maxLen rounds i curr best).map fun r => (r.start,r.start + r.len - 1)) := by
  induction rounds generalizing i curr best with
  | zero =>
      have last : i = n := by omega
      subst last
      obtain ⟨_,_,none_,kept⟩ := scanned
      have none_ : ∀ a b, ¬ Long s.usable i maxLen a b := by
        rintro a b ⟨run,long⟩
        have := none_ a b run run.inside
        omega
      have ended : ∀ a b, Run s.usable i a b → Ended s i a b := fun a b run => ⟨run,by have := run.inside; omega⟩
      unfold selectLoop
      rcases kept with ⟨empty,front⟩ | ⟨holds,here,behind,most⟩
      · rw [if_neg (by omega)]
        exact .front none_ fun a b run => front a b (ended a b run)
      · rw [if_pos (by omega)]
        refine .behind none_ ⟨here.1,behind,fun a b run first => ?_,fun a b run first => ?_⟩
        · have := (most a b (ended a b run) first).1
          omega
        · have := (most a b (ended a b run) first).2
          omega
  | succ rounds ih =>
      unfold selectLoop
      rcases selectStep_spec scanned (by omega) some_ with ⟨found,c,b,step,len,e,first⟩ | ⟨c,b,step,next⟩
      · rw [step]
        dsimp only [Option.map_some]
        rw [len]
        exact .long first
      · rw [step]
        exact ih next (by omega)

theorem selectRange_outcome (s : RangeSource n) (some_ : 1 ≤ maxLen) : Outcome s maxLen (s.selectRange maxLen) := by
  refine selectLoop_outcome some_ n ?_ (Nat.zero_add n)
  refine ⟨⟨fun more => (nomatch more),fun _ => ⟨rfl,Or.inl rfl⟩,fun j _ high => absurd high (Nat.not_lt_zero j),Or.inl rfl⟩,some_,
    fun a b _ before => absurd before (Nat.not_lt_zero b),Or.inl ⟨rfl,fun a b ended => ?_⟩⟩
  have := ended.1.inside
  have := ended.2
  omega

structure SelectsRight (s : RangeSource n) (maxLen : Nat) : Prop where
  found : (s.selectRange maxLen).isSome ↔ ∃ i < n, s.eligible i = true
  right : ∀ first last, s.selectRange maxLen = some (first,last) → Right s.eligible n maxLen first last

-- The excluded chunks do not matter, nor does the run at chunk 0: the front of the first
-- run that is long enough has no excluded chunk; and where there is no such run, some run
-- that does not begin at chunk 0 is as long as any of eligible chunks, and the first of
-- the longest has no excluded chunk.
structure Unaffected (s : RangeSource n) (maxLen : Nat) : Prop where
  long : ∀ a e, FirstLong s.usable n maxLen a e → ∀ i, a ≤ i → i < a + maxLen → (s.manager.chunk i).isExcluded = false
  front : (∀ a b, ¬ Long s.usable n maxLen a b) →
    ∀ a b, Run s.eligible n a b → ∃ c d, Run s.usable n c d ∧ 0 < c ∧ b + 1 - a ≤ d + 1 - c
  behind : (∀ a b, ¬ Long s.usable n maxLen a b) →
    ∀ a b, FirstBehind s.usable n a b → ∀ i, a ≤ i → i ≤ b → (s.manager.chunk i).isExcluded = false

theorem eligible_iff : s.eligible i = true ↔ s.usable i = true ∧ (s.manager.chunk i).isExcluded = false := by
  unfold eligible
  rw [Bool.and_eq_true,Bool.not_eq_true']

theorem usable_of_eligible (i : Nat) (on : s.eligible i = true) : s.usable i = true := (eligible_iff.mp on).1

theorem not_long_eligible (none_ : ∀ a b, ¬ Long s.usable n maxLen a b) (a b : Nat) : ¬ Long s.eligible n maxLen a b := by
  rintro ⟨run,long⟩
  obtain ⟨c,d,wider,low,high⟩ := run.weaken usable_of_eligible
  exact none_ c d ⟨wider,by omega⟩

theorem right_of_long (first : FirstLong s.usable n maxLen a e) (some_ : 1 ≤ maxLen)
    (kept : ∀ i, a ≤ i → i < a + maxLen → (s.manager.chunk i).isExcluded = false) : Right s.eligible n maxLen a (a + maxLen - 1) := by
  obtain ⟨⟨run,long⟩,least⟩ := first
  have small := run.inside
  have order := run.order
  have all : ∀ i, a ≤ i → i ≤ a + maxLen - 1 → s.eligible i = true := fun i low high =>
    eligible_iff.mpr ⟨run.all i low (by omega),kept i low (by omega)⟩
  obtain ⟨c,d,here,low,high⟩ := Run.exists_at (n := n) (all a (Nat.le_refl a) (by omega)) (by omega)
  have covers := here.covers all (by omega) high (by omega)
  have start : c = a := by
    by_contra apart
    rcases run.front with zero | stops
    · omega
    · have on := usable_of_eligible (a - 1) (here.all (a - 1) (by omega) (by omega))
      rw [stops] at on
      cases on
  subst start
  refine ⟨by omega,by omega,all,by omega,Or.inl ⟨d,⟨⟨here,by omega⟩,fun a' b' other => ?_⟩,by omega⟩⟩
  obtain ⟨run',long'⟩ := other
  obtain ⟨c',d',wider,low',high'⟩ := run'.weaken usable_of_eligible
  exact Nat.le_trans (least c' d' ⟨wider,by omega⟩) low'

theorem right_of_behind (none_ : ∀ a b, ¬ Long s.usable n maxLen a b) (first : FirstBehind s.usable n a b)
    (front : ∀ a b, Run s.eligible n a b → ∃ c d, Run s.usable n c d ∧ 0 < c ∧ b + 1 - a ≤ d + 1 - c)
    (kept : ∀ i, a ≤ i → i ≤ b → (s.manager.chunk i).isExcluded = false) : Right s.eligible n maxLen a b := by
  have run := first.run
  have all : ∀ i, a ≤ i → i ≤ b → s.eligible i = true := fun i low high => eligible_iff.mpr ⟨run.all i low high,kept i low high⟩
  have off : ∀ i, s.usable i = false → s.eligible i = false := fun i unused => by
    unfold eligible
    rw [unused]
    rfl
  have short : ¬ maxLen ≤ b + 1 - a := fun long => none_ a b ⟨run,long⟩
  refine ⟨run.order,run.inside,all,by omega,Or.inr ⟨not_long_eligible none_,⟨run.order,run.inside,all,?_,?_⟩,fun a' b' other => ?_⟩⟩
  · exact run.front.imp id (off _)
  · exact run.back.imp id (off _)
  · obtain ⟨c,d,wider,some_,more⟩ := front a' b' other
    exact Nat.le_trans more (first.longest c d wider some_)

theorem selects_of_unaffected (some_ : 1 ≤ maxLen) (careful : s.Unaffected maxLen) : s.SelectsRight maxLen := by
  have outcome := s.selectRange_outcome some_
  generalize result : s.selectRange maxLen = r at outcome
  have finds : ∀ a b, r = some (a,b) → Right s.eligible n maxLen a b → s.SelectsRight maxLen := by
    intro a b same right
    refine ⟨iff_of_true (by rw [result,same]; rfl) ⟨a,by have := right.order; have := right.inside; omega,right.all a (Nat.le_refl a) right.order⟩,?_⟩
    intro first last found
    rw [result,same] at found
    cases found
    exact right
  cases outcome with
  | long first => exact finds _ _ rfl (right_of_long first some_ (careful.long _ _ first))
  | behind none_ first => exact finds _ _ rfl (right_of_behind none_ first (careful.front none_) (careful.behind none_ _ _ first))
  | front none_ all =>
      refine ⟨iff_of_false (by rw [result]; exact Bool.false_ne_true) ?_,fun first last found => by rw [result] at found; cases found⟩
      rintro ⟨i,inside,on⟩
      obtain ⟨a,b,run,_⟩ := Run.exists_at on inside
      obtain ⟨c,d,wider,some_,_⟩ := careful.front none_ a b run
      have := all c d wider
      omega

theorem unaffected_of_selects (some_ : 1 ≤ maxLen) (selects : s.SelectsRight maxLen) : s.Unaffected maxLen := by
  have outcome := s.selectRange_outcome some_
  generalize result : s.selectRange maxLen = r at outcome
  have unexcluded : ∀ a b, r = some (a,b) → ∀ i, a ≤ i → i ≤ b → (s.manager.chunk i).isExcluded = false := by
    intro a b same i low high
    exact (eligible_iff.mp ((selects.right a b (result.trans same)).all i low high)).2
  cases outcome with
  | @long first e here =>
      have unlike : ¬ ∀ a b, ¬ Long s.usable n maxLen a b := fun none_ => none_ _ _ here.1
      refine ⟨fun a e' other i low high => ?_,fun none_ => absurd none_ unlike,fun none_ => absurd none_ unlike⟩
      have same : a = first := Nat.le_antisymm (other.2 _ _ here.1) (here.2 _ _ other.1)
      exact unexcluded first _ rfl i (by omega) (by omega)
  | @behind first last none_ here =>
      refine ⟨fun a e other => absurd other.1 (none_ a e),fun _ a b run => ?_,fun _ a b other => ?_⟩
      · rcases (selects.right _ _ result).best with ⟨e,long,_⟩ | ⟨_,longest⟩
        · exact absurd long.1 (not_long_eligible none_ _ e)
        · exact ⟨first,last,here.run,here.behind,longest.2 a b run⟩
      · have less := other.longest _ _ here.run here.behind
        have more := here.longest _ _ other.run other.behind
        have start : a = first := Nat.le_antisymm (other.earliest _ _ here.run here.behind (by omega)) (here.earliest _ _ other.run other.behind (by omega))
        have one := other.run.order
        have two := here.run.order
        exact fun i low high => unexcluded first last rfl i (by omega) (by omega)
  | front none_ all =>
      refine ⟨fun a e other => absurd other.1 (none_ a e),fun _ a b run => ?_,fun _ a b other => ?_⟩
      · have found := selects.found.mpr ⟨a,by have := run.order; have := run.inside; omega,run.all a (Nat.le_refl a) run.order⟩
        rw [result] at found
        cases found
      · have := all a b other.run
        have := other.behind
        omega

theorem webseedRangeSize_pos (numChunks webseeds : Nat) : 1 ≤ webseedRangeSize numChunks webseeds ↔ webseeds = 0 ∨ 10 ≤ numChunks := by
  unfold webseedRangeSize
  by_cases some_ : webseeds > 0
  · rw [if_pos some_]
    dsimp only
    generalize numChunks / webseeds = size
    split <;> split <;> omega
  · rw [if_neg some_]
    omega

-- The range is right, and is asked for with a length of at least 1, if and only if neither
-- the excluded chunks nor the run at chunk 0 matter, and the torrent has ten chunks if it
-- has web seeds.
theorem range_selected_iff (s : RangeSource n) (some_ : 1 ≤ maxLen) (webseeds : Nat) :
    (s.SelectsRight maxLen ∧ 1 ≤ webseedRangeSize n webseeds) ↔ s.Unaffected maxLen ∧ (webseeds = 0 ∨ 10 ≤ n) :=
  and_congr ⟨unaffected_of_selects some_,selects_of_unaffected some_⟩ (webseedRangeSize_pos n webseeds)

-- A torrent of which only some chunks are missing.
def missingOnly (missing : List Nat) (n : Nat) : RangeSource n where
  manager := (List.range n).foldl (fun m i => if missing.contains i then m else (m.chunkDownloaded true i).2) (.new n [])
  downloading := fun _ => false
  webseeds := [⟨false,0,0⟩]
  endgame := false

theorem missing_last_selected : (missingOnly [1] 2).SelectsRight 1 ∧ 1 ≤ webseedRangeSize 2 0 := by
  have long : Long (missingOnly [1] 2).usable 2 1 1 1 := by
    refine ⟨⟨Nat.le_refl 1,by decide,fun i low high => ?_,Or.inr (by decide +kernel),Or.inl rfl⟩,by decide⟩
    rw [Nat.le_antisymm high low]
    decide +kernel
  refine (range_selected_iff (missingOnly [1] 2) (Nat.le_refl 1) 0).mpr ⟨⟨fun a e first i low high => ?_,fun none_ => absurd long (none_ 1 1),
    fun none_ => absurd long (none_ 1 1)⟩,Or.inl rfl⟩
  have inside := first.1.1.inside
  have order := first.1.1.order
  have few : ∀ i < 2, ((missingOnly [1] 2).manager.chunk i).isExcluded = false := by decide +kernel
  exact few i (by omega)

-- Chunk 0 is all that is missing; and of fewer than ten chunks none are to be asked for at
-- a time.
theorem front_forgotten : ¬ (missingOnly [0] 3).SelectsRight 2 ∧ webseedRangeSize 3 1 = 0 := by
  refine ⟨fun selects => ?_,by decide⟩
  have found := selects.found.mpr ⟨0,by decide,by decide +kernel⟩
  revert found
  decide +kernel

end RangeSource

end KtorrentStream.Download
