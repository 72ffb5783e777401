import KtorrentStream.Bcodec.Grammar
set_option autoImplicit true

namespace KtorrentStream.Bcodec
variable {qt : QtNumber} {data : QByteArray}

theorem drop_cons (suffix : data.bytes.drop pos = c :: rest) :
    data.bytes[pos]? = some c ∧ pos < data.size ∧ data.bytes.drop (pos+1) = rest := by
  have head : data.bytes[pos]? = some c := by
    have := congrArg (·[0]?) suffix
    simpa using this
  refine ⟨head,(List.getElem?_eq_some_iff.mp head).1,?_⟩
  have := congrArg (List.drop 1) suffix
  simpa using this

theorem drop_append (suffix : data.bytes.drop pos = bs ++ rest) :
    data.bytes.drop (pos+bs.length) = rest := by
  rw [← List.drop_drop,suffix,List.drop_left]

theorem drop_size (suffix : data.bytes.drop pos = bs) (inside : pos ≤ data.size) :
    data.size = pos+bs.length := by
  have := congrArg List.length suffix
  simp only [List.length_drop] at this
  unfold QByteArray.size at *
  omega

theorem textUntil_eq (suffix : data.bytes.drop pos = n ++ stop :: rest) (absent : stop ∉ n) :
    textUntil data stop pos = n ∧ pos+n.length < data.size := by
  constructor
  · unfold textUntil
    rw [suffix,List.takeWhile_append_of_pos]
    · simp
    · intro c member
      simpa using fun equal : c = stop => absent (equal ▸ member)
  · exact (drop_cons (drop_append suffix)).2.1

theorem textUntil_split (data : QByteArray) (stop : UInt8) (pos : Nat)
    (inside : pos+(textUntil data stop pos).length < data.size) :
    ∃ rest, data.bytes.drop pos = textUntil data stop pos ++ stop :: rest ∧
      stop ∉ textUntil data stop pos := by
  have whole : textUntil data stop pos ++ (data.bytes.drop pos).dropWhile (fun c => decide (c ≠ stop)) =
      data.bytes.drop pos := List.takeWhile_append_dropWhile
  have absent : stop ∉ textUntil data stop pos := by
    intro member
    have := List.all_eq_true.mp (List.all_takeWhile (l := data.bytes.drop pos)) stop member
    simp at this
  cases remaining : (data.bytes.drop pos).dropWhile (fun c => decide (c ≠ stop)) with
  | nil =>
    rw [remaining,List.append_nil] at whole
    have := congrArg List.length whole
    simp only [List.length_drop] at this
    unfold QByteArray.size at inside
    omega
  | cons c rest =>
    have stopped := List.head_dropWhile_not (l := data.bytes.drop pos)
      (fun c => decide (c ≠ stop)) (by rw [remaining]; simp)
    simp only [remaining,List.head_cons] at stopped
    have same : c = stop := by simpa using stopped
    exact ⟨rest,by rw [← whole,remaining,same],absent⟩

theorem parseInt_text {c : UInt8} {n rest : List UInt8}
    (suffix : data.bytes.drop off = c :: (n ++ 101 :: rest)) (noEnd : 101 ∉ n) :
    parseInt qt data off = match qt.toInt n with
      | some v => .ok (.value (.int v) off (n.length+2),off+(n.length+2))
      | none => match qt.toLongLong n with
        | some v => .ok (.value (.int64 v) off (n.length+2),off+(n.length+2))
        | none => raise (.cannotConvert n) := by
  obtain ⟨text,inside⟩ := textUntil_eq (drop_cons suffix).2.2 noEnd
  have within : ¬ off+1+n.length ≥ data.size := by omega
  have next : off+1+n.length+1 = off+(n.length+2) := by omega
  cases small : qt.toInt n with
  | some v => simp only [parseInt,text,within,if_false,next,Nat.add_sub_cancel_left,small]
  | none =>
    cases big : qt.toLongLong n <;>
      simp only [parseInt,text,within,if_false,next,Nat.add_sub_cancel_left,small,big]

theorem parseString_text {n rest : List UInt8}
    (suffix : data.bytes.drop off = n ++ 58 :: rest) (noColon : 58 ∉ n) :
    parseString qt data off = match qt.toInt n with
      | none => raise (.cannotConvert n)
      | some len =>
        if len < 0 then raise (.cannotConvert n)
        else if rest.length < len.toNat then raise .incomplete
        else .ok (.value (.string (rest.take len.toNat)) off (n.length+1+len.toNat),
          off+(n.length+1+len.toNat)) := by
  obtain ⟨text,inside⟩ := textUntil_eq suffix noColon
  have within : ¬ off+n.length ≥ data.size := by omega
  have after : data.bytes.drop (off+n.length+1) = rest := (drop_cons (drop_append suffix)).2.2
  have size := drop_size after (by omega)
  simp only [parseString,text,within,if_false]
  cases number : qt.toInt n with
  | none => rfl
  | some len =>
    -- the Uint32 sum cannot wrap: both terms are below 2^31
    have small := (qt.toInt_range n len number).2
    have bound := data.size_lt
    have wrap : (off+n.length+1+len.toNat) % 2^32 = off+n.length+1+len.toNat :=
      Nat.mod_eq_of_lt (by unfold QByteArray.size at *; omega)
    have short : off+n.length+1+len.toNat > data.size ↔ rest.length < len.toNat := by omega
    have next : off+n.length+1+len.toNat = off+(n.length+1+len.toNat) := by omega
    simp only [wrap,short,after]
    simp only [next,Nat.add_sub_cancel_left]

-- The inversions of the two value parsers: what they accept is complete.
theorem parseInt_sound (head : data.bytes[off]? = some 105) (parsed : parseInt qt data off = .ok (node,next)) :
    ∃ bs rest, data.bytes.drop off = bs ++ rest ∧ Complete qt off bs (.node node) ∧ next = off+bs.length := by
  have suffix : data.bytes.drop off = 105 :: data.bytes.drop (off+1) := by
    obtain ⟨inside,same⟩ := List.getElem?_eq_some_iff.mp head
    rw [List.drop_eq_getElem_cons inside,same]
  by_cases past : off+1+(textUntil data 101 (off+1)).length ≥ data.size
  · simp [parseInt,past,raise] at parsed
  · obtain ⟨rest,split,noEnd⟩ := textUntil_split data 101 (off+1) (by omega)
    rw [split] at suffix
    rw [parseInt_text suffix noEnd] at parsed
    generalize textUntil data 101 (off+1) = n at *
    have bytes : data.bytes.drop off = (105 :: n ++ [101]) ++ rest := by rw [suffix]; simp
    cases number : qt.toInt n with
    | some v =>
      simp only [number,Except.ok.injEq,Prod.mk.injEq] at parsed
      obtain ⟨rfl,rfl⟩ := parsed
      have piece : Complete qt off _ _ := .int noEnd number
      refine ⟨_,rest,bytes,?_,by simp⟩
      simpa using piece
    | none =>
      cases big : qt.toLongLong n with
      | none => simp [number,big,raise] at parsed
      | some v =>
        simp only [number,big,Except.ok.injEq,Prod.mk.injEq] at parsed
        obtain ⟨rfl,rfl⟩ := parsed
        have piece : Complete qt off _ _ := .int64 noEnd number big
        refine ⟨_,rest,bytes,?_,by simp⟩
        simpa using piece

theorem parseString_sound (head : data.bytes[off]? = some d) (digit : 48 ≤ d ∧ d ≤ 57)
    (parsed : parseString qt data off = .ok (node,next)) :
    ∃ bs rest, data.bytes.drop off = bs ++ rest ∧ Complete qt off bs (.node node) ∧ next = off+bs.length := by
  by_cases past : off+(textUntil data 58 off).length ≥ data.size
  · simp [parseString,past,raise] at parsed
  · obtain ⟨rest,split,noColon⟩ := textUntil_split data 58 off (by omega)
    rw [parseString_text split noColon] at parsed
    generalize textUntil data 58 off = n at *
    cases number : qt.toInt n with
    | none => simp [number,raise] at parsed
    | some len =>
      simp only [number] at parsed
      split at parsed
      · simp [raise] at parsed
      · rename_i positive
        split at parsed
        · simp [raise] at parsed
        · rename_i enough
          simp only [Except.ok.injEq,Prod.mk.injEq] at parsed
          obtain ⟨rfl,rfl⟩ := parsed
          have taken : (rest.take len.toNat).length = len.toNat := by simp; omega
          cases n with
          | nil =>
            rw [List.nil_append] at split
            have same := (drop_cons split).1
            rw [head,Option.some.injEq] at same
            subst same
            exact absurd digit.2 (by decide)
          | cons c n =>
            have same := (drop_cons (by simpa using split)).1
            rw [head,Option.some.injEq] at same
            subst same
            have size : qt.toInt (d :: n) = some ((rest.take len.toNat).length : Int) := by
              rw [number,taken,Int.toNat_of_nonneg (by omega)]
            have piece : Complete qt off _ _ := .string digit noColon size
            have length : (d :: n ++ 58 :: rest.take len.toNat).length = (d :: n).length+1+len.toNat := by
              simp only [List.length_append,List.length_cons,taken]; omega
            rw [length] at piece
            exact ⟨d :: n ++ 58 :: rest.take len.toNat,rest.drop len.toNat,by rw [split]; simp,piece,
              by rw [length]⟩

theorem decodeFuel_value (head : data.bytes[pos]? = some c) (notDict : c ≠ 100) (notList : c ≠ 108) :
    decodeFuel qt data (fuel+1) pos =
      if c = 105 then (parseInt qt data pos).map fun r => (some r.1,r.2)
      else if 48 ≤ c ∧ c ≤ 57 then (parseString qt data pos).map fun r => (some r.1,r.2)
      else raise (.illegalToken c) := by
  simp [decodeFuel,head,notDict,notList]

theorem listLoop_step (head : data.bytes[pos]? = some c) (notEnd : c ≠ 101)
    (first : decodeFuel qt data fuel pos = .ok (some n,mid)) :
    listLoop qt data (fuel+1) pos = (listLoop qt data fuel mid).map fun r => (n :: r.1,r.2) := by
  have inside : pos < data.size := (List.getElem?_eq_some_iff.mp head).1
  simp only [listLoop,inside,head,first,bind,Except.bind]
  cases listLoop qt data fuel mid <;> simp [notEnd,Except.map,pure,Except.pure]

theorem dictLoop_step (head : data.bytes[pos]? = some c) (notEnd : c ≠ 101)
    (keyNode : decodeFuel qt data fuel pos = .ok (some (.value (.string key) koff klen),mid))
    (value : decodeFuel qt data fuel mid = .ok (some n,later)) :
    dictLoop qt data (fuel+1) pos = (dictLoop qt data fuel later).map fun r => ((key,n) :: r.1,r.2) := by
  have inside : pos < data.size := (List.getElem?_eq_some_iff.mp head).1
  simp only [dictLoop,inside,head,keyNode]
  simp only [keyOf,bind,Except.bind,value]
  cases dictLoop qt data fuel later <;> simp [notEnd,Except.map,pure,Except.pure]

-- A loop stops at the closing 'e' and also at the end of the data.
def LoopEnd (data : QByteArray) (pos : Nat) : Prop :=
  data.size ≤ pos ∨ data.bytes[pos]? = some 101

theorem listLoop_end (stop : LoopEnd data pos) : listLoop qt data (fuel+1) pos = .ok ([],pos) := by
  have stopped : ¬ (pos < data.size ∧ data.bytes[pos]? ≠ some 101) := by
    rintro ⟨inside,other⟩
    rcases stop with past | close
    · omega
    · exact other close
  simp only [listLoop,stopped,if_false]

theorem dictLoop_end (stop : LoopEnd data pos) : dictLoop qt data (fuel+1) pos = .ok ([],pos) := by
  have stopped : ¬ (pos < data.size ∧ data.bytes[pos]? ≠ some 101) := by
    rintro ⟨inside,other⟩
    rcases stop with past | close
    · omega
    · exact other close
  simp only [dictLoop,stopped,if_false]

theorem parseList_of_loop (ran : loop (pos+1) = .ok (ns,last)) :
    parseList loop pos = .ok (.list ns pos (last+1-pos),last+1) := by
  simp [parseList,ran,bind,Except.bind,pure,Except.pure]

theorem parseDict_of_loop (ran : loop (pos+1) = .ok (es,last)) :
    parseDict loop pos = .ok (.dict es pos (last+1-pos),last+1) := by
  simp [parseDict,ran,bind,Except.bind,pure,Except.pure]

-- What the decoder does on a complete piece, whatever follows it. A node needs
-- two units of fuel for each of its bytes; a loop passes over its items and
-- leaves the rest of its fuel to what comes behind them.
def Decodes (qt : QtNumber) (data : QByteArray) (pos : Nat) (bs : List UInt8) : Piece → Prop
  | .node n => ∀ fuel, 2*bs.length+1 ≤ fuel → decodeFuel qt data fuel pos = .ok (some n,pos+bs.length)
  | .items ns => ∀ fuel, 2*bs.length+2 ≤ fuel+ns.length → listLoop qt data (fuel+ns.length) pos =
      (listLoop qt data fuel (pos+bs.length)).map fun r => (ns ++ r.1,r.2)
  | .entries es => ∀ fuel, 2*bs.length+2 ≤ fuel+es.length → dictLoop qt data (fuel+es.length) pos =
      (dictLoop qt data fuel (pos+bs.length)).map fun r => (es ++ r.1,r.2)

theorem map_id_append (x : Except Failure (List α × Nat)) : x.map (fun r => ([] ++ r.1,r.2)) = x := by
  cases x <;> rfl

theorem complete_decodes (piece : Complete qt pos bs p) (suffix : data.bytes.drop pos = bs ++ rest) :
    Decodes qt data pos bs p := by
  induction piece generalizing rest with
  | @string d n off arr digit noColon length =>
    intro fuel enough
    obtain ⟨fuel,rfl⟩ : ∃ f, fuel = f+1 := ⟨fuel-1,by omega⟩
    have split : data.bytes.drop off = (d :: n) ++ 58 :: (arr ++ rest) := by rw [suffix]; simp
    have head := (drop_cons (by simpa using split)).1
    have range : 48 ≤ d ∧ d ≤ 57 := digit
    have tokens : d ≠ 100 ∧ d ≠ 108 ∧ d ≠ 105 := by
      refine ⟨?_,?_,?_⟩ <;> rintro rfl <;> exact absurd digit.2 (by decide)
    rw [decodeFuel_value head tokens.1 tokens.2.1,if_neg tokens.2.2,if_pos range,
      parseString_text split noColon,length]
    have positive : ¬ (arr.length : Int) < 0 := by omega
    have size : n.length+1+1+arr.length = n.length+(arr.length+1)+1 := by omega
    simp [Except.map,positive,size]
  | @int n v off noEnd number =>
    intro fuel enough
    obtain ⟨fuel,rfl⟩ : ∃ f, fuel = f+1 := ⟨fuel-1,by omega⟩
    have split : data.bytes.drop off = 105 :: (n ++ 101 :: rest) := by rw [suffix]; simp
    rw [decodeFuel_value (drop_cons split).1 (by decide) (by decide),if_pos rfl,
      parseInt_text split noEnd,number]
    simp [Except.map]
  | @int64 n v off noEnd big number =>
    intro fuel enough
    obtain ⟨fuel,rfl⟩ : ∃ f, fuel = f+1 := ⟨fuel-1,by omega⟩
    have split : data.bytes.drop off = 105 :: (n ++ 101 :: rest) := by rw [suffix]; simp
    rw [decodeFuel_value (drop_cons split).1 (by decide) (by decide),if_pos rfl,
      parseInt_text split noEnd,big,number]
    simp [Except.map]
  | @list off bs ns body ih =>
    intro fuel enough
    obtain ⟨fuel,rfl⟩ : ∃ f, fuel = f+1 := ⟨fuel-1,by omega⟩
    have split : data.bytes.drop off = 108 :: (bs ++ 101 :: rest) := by rw [suffix]; simp
    obtain ⟨head,_,after⟩ := drop_cons split
    have items : ns.length ≤ bs.length := complete_fits body
    have close := (drop_cons (drop_append after)).1
    simp only [List.length_append,List.length_cons,List.length_nil] at enough
    obtain ⟨spare,rfl⟩ : ∃ spare, fuel = spare+1+ns.length := ⟨fuel-ns.length-1,by omega⟩
    have loop := ih after (spare+1) (by omega)
    rw [listLoop_end (Or.inr close)] at loop
    have length : off+1+bs.length+1-off = bs.length+1+1 := by omega
    simp only [decodeFuel,head,parseList_of_loop loop]
    simp [Except.map,length]
    omega
  | @dict off bs es body ih =>
    intro fuel enough
    obtain ⟨fuel,rfl⟩ : ∃ f, fuel = f+1 := ⟨fuel-1,by omega⟩
    have split : data.bytes.drop off = 100 :: (bs ++ 101 :: rest) := by rw [suffix]; simp
    obtain ⟨head,_,after⟩ := drop_cons split
    have entries : es.length ≤ bs.length := complete_fits body
    have close := (drop_cons (drop_append after)).1
    simp only [List.length_append,List.length_cons,List.length_nil] at enough
    obtain ⟨spare,rfl⟩ : ∃ spare, fuel = spare+1+es.length := ⟨fuel-es.length-1,by omega⟩
    have loop := ih after (spare+1) (by omega)
    rw [dictLoop_end (Or.inr close)] at loop
    have length : off+1+bs.length+1-off = bs.length+1+1 := by omega
    simp only [decodeFuel,head,parseDict_of_loop loop]
    simp [Except.map,length]
    omega
  | noItem =>
    intro fuel enough
    exact (map_id_append _).symm
  | @item off b n bs ns first others ihFirst ihOthers =>
    intro fuel enough
    rw [List.append_assoc] at suffix
    simp only [List.length_cons,List.length_append] at enough ⊢
    obtain ⟨c,tail,same,notEnd⟩ := complete_head first
    have start : data.bytes.drop off = c :: (tail ++ (bs ++ rest)) := by rw [suffix,same]; simp
    have head := (drop_cons start).1
    have positive : 1 ≤ b.length := (complete_fits first).1
    have one := ihFirst suffix (fuel+ns.length) (by omega)
    have more := ihOthers (drop_append suffix) fuel (by omega)
    rw [← Nat.add_assoc,listLoop_step head notEnd one,more,Nat.add_assoc]
    cases listLoop qt data fuel (off+(b.length+bs.length)) <;> rfl
  | noEntry =>
    intro fuel enough
    exact (map_id_append _).symm
  | @entry off kb key koff klen b n bs es keyNode value others ihKey ihValue ihOthers =>
    intro fuel enough
    rw [List.append_assoc,List.append_assoc] at suffix
    simp only [List.length_cons,List.length_append] at enough ⊢
    obtain ⟨c,tail,same,notEnd⟩ := complete_head keyNode
    have start : data.bytes.drop off = c :: (tail ++ (b ++ (bs ++ rest))) := by rw [suffix,same]; simp
    have head := (drop_cons start).1
    have positive : 1 ≤ b.length := (complete_fits value).1
    have keyPositive : 1 ≤ kb.length := (complete_fits keyNode).1
    have one := ihKey suffix (fuel+es.length) (by omega)
    have two := ihValue (drop_append suffix) (fuel+es.length) (by omega)
    have more := ihOthers (drop_append (drop_append suffix)) fuel (by omega)
    rw [← Nat.add_assoc,dictLoop_step head notEnd one two,more,
      show off+kb.length+b.length+bs.length = off+(kb.length+b.length+bs.length) by omega]
    cases dictLoop qt data fuel (off+(kb.length+b.length+bs.length)) <;> rfl

theorem drop_of_head (head : data.bytes[pos]? = some c) :
    data.bytes.drop pos = c :: data.bytes.drop (pos+1) := by
  obtain ⟨inside,same⟩ := List.getElem?_eq_some_iff.mp head
  rw [List.drop_eq_getElem_cons inside,same]

-- What an accepting run has read. Either complete bytes, or everything up to
-- the end of the data, inside a list or dictionary that never closes; then the
-- cursor has moved past the end.
def NodeRead (qt : QtNumber) (data : QByteArray) (pos : Nat) (n : BNode) (next : Nat) : Prop :=
  (∃ bs rest, data.bytes.drop pos = bs ++ rest ∧ Complete qt pos bs (.node n) ∧ next = pos+bs.length) ∨
  (Truncated qt pos (data.bytes.drop pos) ∧ data.size < next ∧
    n.getOffset+n.getLength = next ∧ ∀ v off len, n ≠ .value v off len)

def ItemsRead (qt : QtNumber) (data : QByteArray) (pos : Nat) (ns : List BNode) (next : Nat) : Prop :=
  (∃ bs rest, data.bytes.drop pos = bs ++ rest ∧ Complete qt pos bs (.items ns) ∧
    next = pos+bs.length ∧ (rest = [] ∨ ∃ more, rest = 101 :: more)) ∨
  (∃ bs t done, data.bytes.drop pos = bs ++ t ∧ Complete qt pos bs (.items done) ∧
    Truncated qt (pos+bs.length) t ∧ data.size < next)

def EntriesRead (qt : QtNumber) (data : QByteArray) (pos : Nat) (es : List (List UInt8 × BNode))
    (next : Nat) : Prop :=
  (∃ bs rest, data.bytes.drop pos = bs ++ rest ∧ Complete qt pos bs (.entries es) ∧
    next = pos+bs.length ∧ (rest = [] ∨ ∃ more, rest = 101 :: more)) ∨
  (∃ bs kb t done key koff klen, data.bytes.drop pos = bs ++ kb ++ t ∧
    Complete qt pos bs (.entries done) ∧
    Complete qt (pos+bs.length) kb (.node (.value (.string key) koff klen)) ∧
    Truncated qt (pos+bs.length+kb.length) t ∧ data.size < next)

theorem loop_stopped (stop : ¬ (pos < data.size ∧ data.bytes[pos]? ≠ some 101)) :
    data.bytes.drop pos = [] ∨ ∃ more, data.bytes.drop pos = 101 :: more := by
  by_cases inside : pos < data.size
  · have close : data.bytes[pos]? = some 101 := by
      by_contra other
      exact stop ⟨inside,other⟩
    exact Or.inr ⟨_,drop_of_head close⟩
  · exact Or.inl (List.drop_eq_nil_of_le (by unfold QByteArray.size at inside; omega))

theorem parseList_sound (read : ItemsRead qt data (pos+1) ns last) (head : data.bytes[pos]? = some 108) :
    NodeRead qt data pos (.list ns pos (last+1-pos)) (last+1) := by
  have suffix := drop_of_head head
  have inside : pos < data.size := (List.getElem?_eq_some_iff.mp head).1
  rcases read with ⟨bs,rest,split,body,rfl,ending⟩ | ⟨bs,t,done,split,body,cut,past⟩
  · rcases ending with rfl | ⟨more,rfl⟩
    · refine Or.inr ⟨?_,?_,?_,by simp⟩
      · rw [suffix,split,List.append_nil]
        exact .list body
      · have := drop_size split (by omega)
        simp only [List.append_nil] at this
        omega
      · simp only [BNode.getOffset,BNode.getLength]; omega
    · refine Or.inl ⟨108 :: bs ++ [101],more,by rw [suffix,split]; simp,?_,by simp; omega⟩
      have length : pos+1+bs.length+1-pos = (108 :: bs ++ [101]).length := by simp; omega
      rw [length]
      exact .list body
  · refine Or.inr ⟨?_,by omega,by simp only [BNode.getOffset,BNode.getLength]; omega,by simp⟩
    rw [suffix,split]
    exact .inList body cut

theorem parseDict_sound (read : EntriesRead qt data (pos+1) es last) (head : data.bytes[pos]? = some 100) :
    NodeRead qt data pos (.dict es pos (last+1-pos)) (last+1) := by
  have suffix := drop_of_head head
  have inside : pos < data.size := (List.getElem?_eq_some_iff.mp head).1
  rcases read with ⟨bs,rest,split,body,rfl,ending⟩ | ⟨bs,kb,t,done,key,koff,klen,split,body,keyNode,cut,past⟩
  · rcases ending with rfl | ⟨more,rfl⟩
    · refine Or.inr ⟨?_,?_,?_,by simp⟩
      · rw [suffix,split,List.append_nil]
        exact .dict body
      · have := drop_size split (by omega)
        simp only [List.append_nil] at this
        omega
      · simp only [BNode.getOffset,BNode.getLength]; omega
    · refine Or.inl ⟨100 :: bs ++ [101],more,by rw [suffix,split]; simp,?_,by simp; omega⟩
      have length : pos+1+bs.length+1-pos = (100 :: bs ++ [101]).length := by simp; omega
      rw [length]
      exact .dict body
  · refine Or.inr ⟨?_,by omega,by simp only [BNode.getOffset,BNode.getLength]; omega,by simp⟩
    rw [suffix,split]
    exact .inDict body keyNode cut

-- A truncated node leaves nothing for the loop that holds it: past the end of
-- the data it stops at once.
theorem listLoop_past (past : data.size < pos) (ran : listLoop qt data fuel pos = .ok (ns,next)) :
    ns = [] ∧ next = pos := by
  cases fuel with
  | zero => simp [listLoop] at ran
  | succ fuel =>
    rw [listLoop_end (Or.inl (by omega))] at ran
    simp only [Except.ok.injEq,Prod.mk.injEq] at ran
    exact ⟨ran.1.symm,ran.2.symm⟩

theorem dictLoop_past (past : data.size < pos) (ran : dictLoop qt data fuel pos = .ok (es,next)) :
    es = [] ∧ next = pos := by
  cases fuel with
  | zero => simp [dictLoop] at ran
  | succ fuel =>
    rw [dictLoop_end (Or.inl (by omega))] at ran
    simp only [Except.ok.injEq,Prod.mk.injEq] at ran
    exact ⟨ran.1.symm,ran.2.symm⟩

theorem bind_ok {x : Except ε α} {f : α → Except ε β} (ran : (x >>= f) = .ok r) :
    ∃ a, x = .ok a ∧ f a = .ok r := by
  cases x with
  | error e => cases ran
  | ok a => exact ⟨a,rfl,ran⟩

theorem map_ok {x : Except ε α} {f : α → β} (ran : x.map f = .ok r) : ∃ a, x = .ok a ∧ f a = r := by
  cases x with
  | error e => cases ran
  | ok a => exact ⟨a,rfl,by simpa [Except.map] using ran⟩

theorem list_item_read (first : NodeRead qt data pos n mid) (rest : ItemsRead qt data mid ns next)
    (past : data.size < mid → ns = [] ∧ next = mid) : ItemsRead qt data pos (n :: ns) next := by
  rcases first with ⟨b,tail,split,node,rfl⟩ | ⟨cut,ended,_⟩
  · have after := drop_append split
    rcases rest with ⟨bs,left,more,items,rfl,ending⟩ | ⟨bs,t,done,more,items,cut,ended⟩
    · refine Or.inl ⟨b ++ bs,left,?_,.item node items,by simp; omega,ending⟩
      rw [split,← after,more,List.append_assoc]
    · refine Or.inr ⟨b ++ bs,t,n :: done,?_,.item node items,?_,ended⟩
      · rw [split,← after,more,List.append_assoc]
      · rw [List.length_append,← Nat.add_assoc]
        exact cut
  · obtain ⟨rfl,rfl⟩ := past ended
    exact Or.inr ⟨[],data.bytes.drop pos,[],rfl,.noItem,cut,ended⟩

theorem dict_entry_read (keyRead : NodeRead qt data pos (.value (.string key) koff klen) mid)
    (value : NodeRead qt data mid n later) (rest : EntriesRead qt data later es next)
    (past : data.size < later → es = [] ∧ next = later) :
    EntriesRead qt data pos ((key,n) :: es) next := by
  rcases keyRead with ⟨kb,tail,keySplit,keyNode,rfl⟩ | ⟨_,_,_,notValue⟩
  · have afterKey := drop_append keySplit
    rcases value with ⟨b,tail',split,node,rfl⟩ | ⟨cut,ended,_⟩
    · have after := drop_append split
      rcases rest with ⟨bs,left,more,entries,rfl,ending⟩ |
        ⟨bs,kb',t,done,key',ko,kl,more,entries,keyNode',cut,ended⟩
      · refine Or.inl ⟨kb ++ b ++ bs,left,?_,.entry keyNode node entries,by simp; omega,ending⟩
        rw [keySplit,← afterKey,split,← after,more]; simp
      · have place : pos+(kb ++ b ++ bs).length = pos+kb.length+b.length+bs.length := by simp; omega
        refine Or.inr ⟨kb ++ b ++ bs,kb',t,(key,n) :: done,key',ko,kl,?_,.entry keyNode node entries,
          by rw [place]; exact keyNode',by rw [place]; exact cut,ended⟩
        rw [keySplit,← afterKey,split,← after,more]; simp
    · obtain ⟨rfl,rfl⟩ := past ended
      refine Or.inr ⟨[],kb,data.bytes.drop (pos+kb.length),[],key,koff,klen,?_,.noEntry,keyNode,cut,ended⟩
      rw [keySplit,afterKey]; simp
  · exact absurd rfl (notValue _ _ _)

-- The null pointer is returned at the end of the data only.
theorem decode_null (ran : decodeFuel qt data fuel pos = .ok (none,next)) : data.size ≤ pos := by
  cases fuel with
  | zero => simp [decodeFuel] at ran
  | succ fuel =>
    cases head : data.bytes[pos]? with
    | none => exact List.getElem?_eq_none_iff.mp head
    | some c =>
      simp only [decodeFuel,head] at ran
      split at ran
      · obtain ⟨_,_,same⟩ := map_ok ran; cases same
      · split at ran
        · obtain ⟨_,_,same⟩ := map_ok ran; cases same
        · split at ran
          · obtain ⟨_,_,same⟩ := map_ok ran; cases same
          · split at ran
            · obtain ⟨_,_,same⟩ := map_ok ran; cases same
            · simp [raise] at ran

theorem keyOf_ok (keyed : keyOf first = .ok key) :
    ∃ koff klen, first = some (.value (.string key) koff klen) := by
  unfold keyOf at keyed
  split at keyed
  · cases keyed; exact ⟨_,_,rfl⟩
  · simp [raise] at keyed

theorem decode_reads (qt : QtNumber) (data : QByteArray) (fuel : Nat) :
    (∀ pos n next, decodeFuel qt data fuel pos = .ok (some n,next) → NodeRead qt data pos n next) ∧
    (∀ pos ns next, listLoop qt data fuel pos = .ok (ns,next) → ItemsRead qt data pos ns next) ∧
    (∀ pos es next, dictLoop qt data fuel pos = .ok (es,next) → EntriesRead qt data pos es next) := by
  induction fuel with
  | zero => simp [decodeFuel,listLoop,dictLoop]
  | succ fuel ih =>
    obtain ⟨single,items,entries⟩ := ih
    refine ⟨?_,?_,?_⟩
    · intro pos n next ran
      cases head : data.bytes[pos]? with
      | none => simp [decodeFuel,head] at ran
      | some c =>
        simp only [decodeFuel,head] at ran
        split at ran
        · rename_i token
          obtain ⟨⟨node,last⟩,parsed,same⟩ := map_ok ran
          obtain ⟨⟨es,last'⟩,loop,built⟩ := bind_ok parsed
          cases same
          cases built
          exact parseDict_sound (entries _ _ _ loop) (token ▸ head)
        · split at ran
          · rename_i token
            obtain ⟨⟨node,last⟩,parsed,same⟩ := map_ok ran
            obtain ⟨⟨ns,last'⟩,loop,built⟩ := bind_ok parsed
            cases same
            cases built
            exact parseList_sound (items _ _ _ loop) (token ▸ head)
          · split at ran
            · rename_i token
              obtain ⟨⟨node,last⟩,parsed,same⟩ := map_ok ran
              cases same
              exact Or.inl (parseInt_sound (token ▸ head) parsed)
            · split at ran
              · rename_i digit
                obtain ⟨⟨node,last⟩,parsed,same⟩ := map_ok ran
                cases same
                exact Or.inl (parseString_sound head digit parsed)
              · simp [raise] at ran
    · intro pos ns next ran
      simp only [listLoop] at ran
      split at ran
      · rename_i going
        obtain ⟨⟨first,mid⟩,decoded,ran⟩ := bind_ok ran
        obtain ⟨⟨rest,last⟩,loop,built⟩ := bind_ok ran
        cases first with
        | none => exact absurd (decode_null decoded) (by omega)
        | some n =>
          cases built
          exact list_item_read (single _ _ _ decoded) (items _ _ _ loop) (fun ended => listLoop_past ended loop)
      · rename_i stop
        cases ran
        exact Or.inl ⟨[],_,rfl,.noItem,rfl,loop_stopped stop⟩
    · intro pos es next ran
      simp only [dictLoop] at ran
      split at ran
      · rename_i going
        obtain ⟨⟨first,mid⟩,decoded,ran⟩ := bind_ok ran
        obtain ⟨key,keyed,ran⟩ := bind_ok ran
        obtain ⟨⟨value,later⟩,valued,ran⟩ := bind_ok ran
        cases value with
        | none => simp [raise] at ran
        | some n =>
          obtain ⟨⟨rest,last⟩,loop,built⟩ := bind_ok ran
          obtain ⟨koff,klen,rfl⟩ := keyOf_ok keyed
          cases built
          exact dict_entry_read (single _ _ _ decoded) (single _ _ _ valued) (entries _ _ _ loop)
            (fun ended => dictLoop_past ended loop)
      · rename_i stop
        cases ran
        exact Or.inl ⟨[],_,rfl,.noEntry,rfl,loop_stopped stop⟩

theorem read_progress (read : NodeRead qt data pos n next) : pos < next := by
  rcases read with ⟨bs,rest,_,piece,rfl⟩ | ⟨cut,ended,_⟩
  · have := (complete_fits piece).1
    omega
  · obtain ⟨c,rest,same,_⟩ := truncated_head cut
    have := (drop_cons same).2.1
    omega

theorem bind_error {x : Except ε α} {f : α → Except ε β} (ran : (x >>= f) = .error e) :
    x = .error e ∨ ∃ a, x = .ok a ∧ f a = .error e := by
  cases x with
  | error e' => exact Or.inl (by simpa [bind,Except.bind] using ran)
  | ok a => exact Or.inr ⟨a,rfl,ran⟩

theorem map_error {x : Except ε α} {f : α → β} (ran : x.map f = .error e) : x = .error e := by
  cases x with
  | error e' => simpa [Except.map] using ran
  | ok a => cases ran

theorem parseInt_fueled : parseInt qt data pos ≠ .error .fuel := by
  intro ran
  unfold parseInt raise at ran
  dsimp only at ran
  split at ran
  · cases ran
  · split at ran
    · cases ran
    · split at ran <;> cases ran

theorem parseString_fueled : parseString qt data pos ≠ .error .fuel := by
  intro ran
  unfold parseString raise at ran
  dsimp only at ran
  split at ran
  · cases ran
  · split at ran
    · cases ran
    · split at ran
      · cases ran
      · split at ran <;> cases ran

theorem keyOf_fueled : keyOf first ≠ .error .fuel := by
  intro keyed
  unfold keyOf raise at keyed
  split at keyed <;> cases keyed

-- Enough fuel never runs out: every decode inside the data and every turn of a
-- loop moves the cursor forward.
theorem decode_fueled (fuel : Nat) :
    (∀ pos, 2*(data.size-pos)+1 ≤ fuel → decodeFuel qt data fuel pos ≠ .error .fuel) ∧
    (∀ pos, 2*(data.size-pos)+2 ≤ fuel → listLoop qt data fuel pos ≠ .error .fuel) ∧
    (∀ pos, 2*(data.size-pos)+2 ≤ fuel → dictLoop qt data fuel pos ≠ .error .fuel) := by
  induction fuel with
  | zero => exact ⟨by omega,by omega,by omega⟩
  | succ fuel ih =>
    obtain ⟨single,items,entries⟩ := ih
    have reads := (decode_reads qt data fuel).1
    refine ⟨?_,?_,?_⟩
    · intro pos enough ran
      cases head : data.bytes[pos]? with
      | none => simp [decodeFuel,head] at ran
      | some c =>
        have inside : pos < data.size := (List.getElem?_eq_some_iff.mp head).1
        simp only [decodeFuel,head] at ran
        split at ran
        · rcases bind_error (map_error ran) with stuck | ⟨_,_,built⟩
          · exact entries (pos+1) (by omega) stuck
          · cases built
        · split at ran
          · rcases bind_error (map_error ran) with stuck | ⟨_,_,built⟩
            · exact items (pos+1) (by omega) stuck
            · cases built
          · split at ran
            · exact parseInt_fueled (map_error ran)
            · split at ran
              · exact parseString_fueled (map_error ran)
              · simp [raise] at ran
    · intro pos enough ran
      simp only [listLoop] at ran
      split at ran
      · rename_i going
        rcases bind_error ran with stuck | ⟨⟨first,mid⟩,decoded,ran⟩
        · exact single pos (by omega) stuck
        · cases first with
          | none => exact absurd (decode_null decoded) (by omega)
          | some n =>
            have forward := read_progress (reads _ _ _ decoded)
            rcases bind_error ran with stuck | ⟨_,_,built⟩
            · exact items mid (by omega) stuck
            · cases built
      · cases ran
    · intro pos enough ran
      simp only [dictLoop] at ran
      split at ran
      · rename_i going
        rcases bind_error ran with stuck | ⟨⟨first,mid⟩,decoded,ran⟩
        · exact single pos (by omega) stuck
        · rcases bind_error ran with stuck | ⟨key,keyed,ran⟩
          · exact keyOf_fueled stuck
          · obtain ⟨koff,klen,rfl⟩ := keyOf_ok keyed
            have forward := read_progress (reads _ _ _ decoded)
            rcases bind_error ran with stuck | ⟨⟨value,later⟩,valued,ran⟩
            · exact single mid (by omega) stuck
            · cases value with
              | none => simp [raise] at ran
              | some v =>
                have further := read_progress (reads _ _ _ valued)
                rcases bind_error ran with stuck | ⟨_,_,built⟩
                · exact entries later (by omega) stuck
                · cases built
      · cases ran

-- The accepting run on truncated bytes, with the fuel the whole rest of the
-- data pays for.
theorem truncated_decodes (cut : Truncated qt pos bs) (suffix : data.bytes.drop pos = bs) :
    ∀ fuel, 2*bs.length+1 ≤ fuel → ∃ n next, decodeFuel qt data fuel pos = .ok (some n,next) ∧
      data.size < next := by
  induction cut with
  | @list off bs ns body =>
    intro fuel enough
    obtain ⟨head,inside,after⟩ := drop_cons suffix
    have items : ns.length ≤ bs.length := complete_fits body
    have size := drop_size after (by omega)
    simp only [List.length_cons] at enough
    obtain ⟨spare,rfl⟩ : ∃ spare, fuel = spare+1+ns.length+1 := ⟨fuel-ns.length-2,by omega⟩
    rw [← List.append_nil bs] at after
    have loop := complete_decodes body after (spare+1) (by omega)
    rw [listLoop_end (Or.inl (by omega))] at loop
    exact ⟨_,_,by simp only [decodeFuel,head,parseList_of_loop loop]; rfl,by simp; omega⟩
  | @inList off bs ns t body inner ih =>
    intro fuel enough
    rw [List.cons_append] at suffix
    obtain ⟨head,inside,after⟩ := drop_cons suffix
    have items : ns.length ≤ bs.length := complete_fits body
    have rest := drop_append after
    obtain ⟨c,tail,same,notEnd⟩ := truncated_head inner
    simp only [List.length_cons,List.length_append] at enough
    obtain ⟨spare,rfl⟩ : ∃ spare, fuel = spare+1+1+ns.length+1 := ⟨fuel-ns.length-3,by omega⟩
    obtain ⟨n,next,decoded,past⟩ := ih rest (spare+1) (by omega)
    have loop := complete_decodes body after (spare+1+1) (by omega)
    rw [listLoop_step (drop_cons (rest.trans same)).1 notEnd decoded,
      listLoop_end (Or.inl (by omega))] at loop
    exact ⟨_,_,by simp only [decodeFuel,head,parseList_of_loop loop]; rfl,by simp; omega⟩
  | @dict off bs es body =>
    intro fuel enough
    obtain ⟨head,inside,after⟩ := drop_cons suffix
    have entries : es.length ≤ bs.length := complete_fits body
    have size := drop_size after (by omega)
    simp only [List.length_cons] at enough
    obtain ⟨spare,rfl⟩ : ∃ spare, fuel = spare+1+es.length+1 := ⟨fuel-es.length-2,by omega⟩
    rw [← List.append_nil bs] at after
    have loop := complete_decodes body after (spare+1) (by omega)
    rw [dictLoop_end (Or.inl (by omega))] at loop
    exact ⟨_,_,by simp only [decodeFuel,head,parseDict_of_loop loop]; rfl,by simp; omega⟩
  | @inDict off bs es kb key koff klen t body keyNode inner ih =>
    intro fuel enough
    rw [List.append_assoc,List.cons_append] at suffix
    obtain ⟨head,inside,after⟩ := drop_cons suffix
    have entries : es.length ≤ bs.length := complete_fits body
    have atKey := drop_append after
    obtain ⟨c,tail,same,notEnd⟩ := complete_head keyNode
    have start : data.bytes.drop (off+1+bs.length) = c :: (tail ++ t) := by rw [atKey,same]; simp
    have keyHead := (drop_cons start).1
    simp only [List.length_cons,List.length_append] at enough
    obtain ⟨spare,rfl⟩ : ∃ spare, fuel = spare+1+1+es.length+1 := ⟨fuel-es.length-3,by omega⟩
    obtain ⟨n,next,decoded,past⟩ := ih (drop_append atKey) (spare+1) (by omega)
    have keyed := complete_decodes keyNode atKey (spare+1) (by omega)
    have loop := complete_decodes body after (spare+1+1) (by omega)
    rw [dictLoop_step keyHead notEnd keyed decoded,dictLoop_end (Or.inl (by omega))] at loop
    exact ⟨_,_,by simp only [decodeFuel,head,parseDict_of_loop loop]; rfl,by simp; omega⟩

theorem decode_of_complete (suffix : data.bytes.drop off = bs ++ rest)
    (piece : Complete qt off bs (.node n)) : decode qt data off = .ok (some n,off+bs.length) := by
  refine complete_decodes piece suffix _ ?_
  have := congrArg List.length suffix
  simp only [List.length_drop,List.length_append] at this
  unfold QByteArray.size
  omega

theorem decode_terminates : decode qt data off ≠ .error .fuel :=
  (decode_fueled _).1 off (by omega)

end KtorrentStream.Bcodec
