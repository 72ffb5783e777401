import Mathlib.Logic.Function.Basic
set_option autoImplicit true

namespace KtorrentStream.Lib

-- A receiver that puts numbered segments back in order. Segments after `base`
-- count; `got` keeps all that have been stored, `last` is the end of the run of
-- stored segments that starts at base + 1, and the reader has taken the segments
-- before `first` and `part` elements of `first` itself.
structure Reassembly (β : Type u) where
  base : Nat
  last : Nat
  first : Nat
  part : Nat
  got : Nat → Option (List β)

namespace Reassembly

structure Valid (r : Reassembly β) : Prop where
  started : r.base < r.first
  ready : r.first ≤ r.last + 1
  onset : ∀ n, r.got n ≠ none → r.base < n
  received : ∀ n, r.base < n → n ≤ r.last → r.got n ≠ none
  gap : r.got (r.last + 1) = none
  fresh : r.got r.first = none → r.part = 0

def content (r : Reassembly β) (n : Nat) : List β := (r.got n).getD []

-- The elements the reader has been given so far.
def delivered (r : Reassembly β) : List β :=
  (List.range' (r.base + 1) (r.first - (r.base + 1))).flatMap r.content ++ (r.content r.first).take r.part

-- What is left to read of a segment that is in store.
def unread (r : Reassembly β) (n : Nat) (data : List β) : List β :=
  if n = r.first then data.drop r.part else data

def start (base : Nat) : Reassembly β := ⟨base,base,base + 1,0,fun _ => none⟩

def store (r : Reassembly β) (n : Nat) (data : List β) (upTo : Nat) : Reassembly β :=
  {r with got := Function.update r.got n (some data),last := upTo}

def takePart (r : Reassembly β) (count : Nat) : Reassembly β := {r with part := r.part + count}

def takeRest (r : Reassembly β) : Reassembly β := {r with first := r.first + 1,part := 0}

theorem unread_of_ne (data : List β) (other : n ≠ r.first) : unread r n data = data :=
  if_neg other

theorem unread_takePart (data : List β) (current : n = r.first) :
    (takePart r count).unread n data = data.drop (r.part + count) :=
  if_pos current

theorem unread_takePart_of_ne (data : List β) (other : n ≠ r.first) :
    (takePart r count).unread n data = data :=
  if_neg other

theorem unread_takeRest (r : Reassembly β) (data : List β) : r.takeRest.unread n data = data := by
  simp [unread,takeRest]

theorem start_valid (base : Nat) : (start base : Reassembly β).Valid where
  started := Nat.lt_succ_self _
  ready := Nat.le_refl _
  onset := fun _ some => absurd rfl some
  received := fun _ after upTo => absurd after (Nat.not_lt.mpr upTo)
  gap := rfl
  fresh := fun _ => rfl

theorem start_delivered (base : Nat) : (start base : Reassembly β).delivered = [] := by
  simp [delivered,start,content]

theorem store_valid (valid : Valid r) (ahead : r.last < n) (later : r.last ≤ upTo)
    (run : ∀ m, r.last < m → m ≤ upTo → (r.store n data upTo).got m ≠ none)
    (gap : (r.store n data upTo).got (upTo + 1) = none) : (r.store n data upTo).Valid where
  started := valid.started
  ready := Nat.le_trans valid.ready (Nat.succ_le_succ later)
  onset := by
    intro m stored
    by_cases same : m = n
    · have := valid.started
      have := valid.ready
      show r.base < m
      omega
    · exact valid.onset m (by simpa [store,Function.update_of_ne same] using stored)
  received := by
    intro m after within
    by_cases old : m ≤ r.last
    · have other : m ≠ n := by omega
      simpa [store,Function.update_of_ne other] using valid.received m after old
    · exact run m (by omega) within
  gap := gap
  fresh := by
    intro missing
    by_cases same : r.first = n
    · simp [store,same] at missing
    · exact valid.fresh (by simpa [store,Function.update_of_ne same] using missing)

theorem content_store (data : List β) (upTo : Nat) (other : m ≠ n) :
    (store r n data upTo).content m = r.content m := by
  simp [content,store,Function.update_of_ne other]

theorem delivered_store (valid : Valid r) (ahead : r.last < n) (missing : r.got n = none) :
    (r.store n data upTo).delivered = r.delivered := by
  have ready := valid.ready
  have read : (List.range' (r.base + 1) (r.first - (r.base + 1))).flatMap (r.store n data upTo).content =
      (List.range' (r.base + 1) (r.first - (r.base + 1))).flatMap r.content := by
    simp only [List.flatMap_def]
    refine congrArg List.flatten (List.map_congr_left ?_)
    intro m inside
    rw [List.mem_range'_1] at inside
    exact content_store data upTo (by omega)
  have current : ((r.store n data upTo).content r.first).take r.part = (r.content r.first).take r.part := by
    by_cases same : r.first = n
    · rw [valid.fresh (same ▸ missing)]
      rfl
    · rw [content_store data upTo same]
  exact congrArg₂ _ read current

theorem takePart_valid (valid : Valid r) (present : r.got r.first = some data) :
    (r.takePart count).Valid where
  started := valid.started
  ready := valid.ready
  onset := valid.onset
  received := valid.received
  gap := valid.gap
  fresh := by
    intro missing
    simp [takePart,present] at missing

theorem delivered_takePart (present : r.got r.first = some data) :
    (takePart r count).delivered = r.delivered ++ (data.drop r.part).take count := by
  have same : (takePart r count).content = r.content := rfl
  simp only [delivered,same]
  simp [takePart,content,present,List.take_add]

theorem takeRest_valid (valid : Valid r) (present : r.got r.first = some data) :
    r.takeRest.Valid where
  started := Nat.lt_succ_of_lt valid.started
  ready := by
    have ready := valid.ready
    have other : r.first ≠ r.last + 1 := fun same => by simp [same,valid.gap] at present
    show r.first + 1 ≤ r.last + 1
    omega
  onset := valid.onset
  received := valid.received
  gap := valid.gap
  fresh := fun _ => rfl

theorem delivered_takeRest (valid : Valid r) (present : r.got r.first = some data) :
    r.takeRest.delivered = r.delivered ++ data.drop r.part := by
  have started := valid.started
  have count : r.first + 1 - (r.base + 1) = r.first - (r.base + 1) + 1 := by omega
  have place : r.base + 1 + 1 * (r.first - (r.base + 1)) = r.first := by omega
  have same : r.takeRest.content = r.content := rfl
  simp only [delivered,same]
  simp only [takeRest,count,List.range'_concat,place,List.flatMap_append]
  simp [content,present]

-- The segments up to `last` in order, and what is left of them for the reader.
def stream (r : Reassembly β) : List β := (List.range' (r.base + 1) (r.last - r.base)).flatMap r.content

def rest (r : Reassembly β) : List β :=
  (List.range' r.first (r.last + 1 - r.first)).flatMap fun n => r.unread n (r.content n)

theorem stream_eq (valid : Valid r) : r.stream = r.delivered ++ r.rest := by
  have started := valid.started
  have ready := valid.ready
  have count : r.last - r.base = r.first - (r.base + 1) + (r.last + 1 - r.first) := by omega
  have place : r.base + 1 + 1 * (r.first - (r.base + 1)) = r.first := by omega
  rw [stream,count,← List.range'_append,place,List.flatMap_append,delivered,rest,List.append_assoc]
  congr 1
  cases left : r.last + 1 - r.first with
  | zero =>
      have empty : r.content r.first = [] := by
        rw [show r.first = r.last + 1 by omega,content,valid.gap]
        rfl
      simp [empty]
  | succ more =>
      have others : (List.range' (r.first + 1) more).flatMap (fun n => r.unread n (r.content n)) =
          (List.range' (r.first + 1) more).flatMap r.content := by
        simp only [List.flatMap_def]
        refine congrArg List.flatten (List.map_congr_left ?_)
        intro n inside
        rw [List.mem_range'_1] at inside
        exact unread_of_ne _ (by omega)
      rw [List.range'_succ,List.flatMap_cons,List.flatMap_cons,others,← List.append_assoc]
      simp [unread]

theorem start_rest (base : Nat) : (start base : Reassembly β).rest = [] := by
  simp [rest,start]

theorem rest_of_end (finished : r.first = r.last + 1) : rest r = [] := by
  simp [rest,finished]

-- A segment stored ahead lengthens the stream by the run it completes.
theorem stream_store (valid : Valid r) (ahead : r.last < n) (later : r.last ≤ upTo) :
    (r.store n data upTo).stream =
      r.stream ++ (List.range' (r.last + 1) (upTo - r.last)).flatMap (r.store n data upTo).content := by
  have started := valid.started
  have ready := valid.ready
  have count : upTo - r.base = r.last - r.base + (upTo - r.last) := by omega
  have place : r.base + 1 + 1 * (r.last - r.base) = r.last + 1 := by omega
  have old : (List.range' (r.base + 1) (r.last - r.base)).flatMap (r.store n data upTo).content = r.stream := by
    simp only [stream,List.flatMap_def]
    refine congrArg List.flatten (List.map_congr_left ?_)
    intro m inside
    rw [List.mem_range'_1] at inside
    exact content_store data upTo (by omega)
  show (List.range' (r.base + 1) (upTo - r.base)).flatMap _ = _
  rw [count,← List.range'_append,place,List.flatMap_append,old]

-- Segments that agree with a source, in any order and with any gaps, are
-- delivered as a prefix of that source.
section Source
variable {r : Reassembly β} {source : List (List β)}

def Agrees (r : Reassembly β) (source : List (List β)) : Prop :=
  ∀ k data, r.got (r.base + 1 + k) = some data → source[k]? = some data

theorem content_of_agrees (valid : Valid r) (agrees : r.Agrees source) (upTo : r.base + 1 + k ≤ r.last) :
    source[k]? = some (r.content (r.base + 1 + k)) := by
  obtain ⟨data,present⟩ := Option.ne_none_iff_exists'.mp (valid.received (r.base + 1 + k) (by omega) upTo)
  rw [agrees k data present,content,present]
  rfl

theorem last_le_of_agrees (valid : Valid r) (agrees : r.Agrees source) : r.last ≤ r.base + source.length := by
  by_cases any : r.base < r.last
  · have inside := content_of_agrees (k := r.last - (r.base + 1)) valid agrees (by omega)
    have bound := (List.getElem?_eq_some_iff.mp inside).choose
    omega
  · omega

theorem read_of_agrees (count : Nat) (valid : Valid r) (agrees : r.Agrees source) (upTo : r.base + count ≤ r.last) :
    (List.range' (r.base + 1) count).flatMap r.content = (source.take count).flatten := by
  induction count with
  | zero => simp
  | succ count ih =>
      have next := content_of_agrees (k := count) valid agrees (by omega)
      rw [List.range'_concat,List.flatMap_append,ih (by omega),List.take_add_one,next]
      simp

theorem delivered_prefix (valid : Valid r) (agrees : r.Agrees source) : r.delivered <+: source.flatten := by
  have started := valid.started
  have ready := valid.ready
  have read := read_of_agrees (r.first - (r.base + 1)) valid agrees (by omega)
  have place : r.base + 1 + (r.first - (r.base + 1)) = r.first := by omega
  rw [delivered,read]
  cases present : r.got r.first with
  | none =>
      simp only [content,present,Option.getD_none,List.take_nil,List.append_nil]
      exact ⟨(source.drop _).flatten,by rw [← List.flatten_append,List.take_append_drop]⟩
  | some data =>
      have next : source[r.first - (r.base + 1)]? = some data := agrees _ _ (by rw [place,present])
      have whole : (source.take (r.first - (r.base + 1) + 1)).flatten ++
          (source.drop (r.first - (r.base + 1) + 1)).flatten = source.flatten := by
        rw [← List.flatten_append,List.take_append_drop]
      rw [← whole,List.take_add_one,next,List.flatten_append,List.append_assoc]
      simp only [content,present,Option.getD_some,Option.toList_some,List.flatten_singleton]
      exact (List.prefix_append_right_inj _).mpr ((List.take_prefix _ _).trans (List.prefix_append _ _))

theorem delivered_all (valid : Valid r) (agrees : r.Agrees source) (empty : r.first = r.last + 1) :
    r.delivered = (source.take (r.last - r.base)).flatten := by
  have started := valid.started
  have count : r.first - (r.base + 1) = r.last - r.base := by omega
  rw [delivered,count,read_of_agrees _ valid agrees (by omega)]
  simp [content,empty,valid.gap]

end Source
end Reassembly
end KtorrentStream.Lib
