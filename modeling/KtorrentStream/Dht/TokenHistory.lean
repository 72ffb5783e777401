import KtorrentStream.Dht.Database
import KtorrentStream.Dht.MessageRoundTrip
set_option autoImplicit true

namespace KtorrentStream.Dht
open KtorrentStream.Lib KtorrentStream.Net

-- A call of genToken with the current time, or of checkToken.
inductive TokenCall
  | genToken (addr : Address) (now : Nat)
  | checkToken (token : Key) (addr : Address)

namespace Database
variable (generate : List UInt8 → Key)

def tokenCall (db : Database) : TokenCall → Database
  | .genToken addr now => (db.genToken generate addr now).2
  | .checkToken token addr => (db.checkToken generate token addr).2

def tokenCalls (calls : List TokenCall) : Database := calls.foldl (tokenCall generate) .new

-- The answer of checkToken after the calls.
def accepts (calls : List TokenCall) (token : Key) (addr : Address) : Bool :=
  ((tokenCalls generate calls).checkToken generate token addr).1

def Gives (token : Key) (addr : Address) (now : Nat) (call : TokenCall) : Prop :=
  call = .genToken addr now ∧ tokenFor generate addr now = token

def GeneratedFor (calls : List TokenCall) (token : Key) (addr : Address) : Prop :=
  ∃ call ∈ calls, ∃ now, Gives generate token addr now call

-- Each time the token was accepted it has been generated again since.
def NotAccepted (calls : List TokenCall) (token : Key) : Prop :=
  ∀ before addr after, calls = before ++ .checkToken token addr :: after → accepts generate before token addr = true →
    ∃ call ∈ after, ∃ other now, Gives generate token other now call

-- The input that a call hashes, if it does.
def hashed (db : Database) : TokenCall → Option (List UInt8)
  | .genToken addr now => some (pack addr ++ BigEndian.digits 8 now)
  | .checkToken token addr => (db.tokens token).map fun ts => pack addr ++ BigEndian.digits 8 ts

def Hashed (calls : List TokenCall) (input : List UInt8) : Prop :=
  ∃ before call after, calls = before ++ call :: after ∧ hashed (tokenCalls generate before) call = some input

variable {generate : List UInt8 → Key} {calls : List TokenCall} {token : Key} {addr other : Address} {now ts : Nat}

theorem pack_injective (same : pack addr = pack other) : addr = other := by
  have parsed := congrArg parseItem same
  rw [parseItem_pack,parseItem_pack] at parsed
  exact Option.some.inj parsed

theorem addr_of_hashed (same : pack addr ++ BigEndian.digits 8 now = pack other ++ BigEndian.digits 8 ts) : addr = other := by
  have length : (BigEndian.digits 8 now).length = (BigEndian.digits 8 ts).length := by
    rw [BigEndian.digits_length,BigEndian.digits_length]
  exact pack_injective (List.append_inj' same length).1

theorem tokenCalls_append (calls : List TokenCall) (call : TokenCall) :
    tokenCalls generate (calls ++ [call]) = tokenCall generate (tokenCalls generate calls) call := by
  unfold tokenCalls
  rw [List.foldl_append,List.foldl_cons,List.foldl_nil]

theorem checkToken_true {db : Database} :
    (db.checkToken generate token addr).1 = true ↔ ∃ ts, db.tokens token = some ts ∧ tokenFor generate addr ts = token := by
  unfold checkToken
  cases held : db.tokens token with
  | none => simp
  | some ts =>
    by_cases same : token = tokenFor generate addr ts
    · simp [← same]
    · simp [same,Ne.symm same]

theorem checkToken_accepted {db : Database} (accepted : (db.checkToken generate token addr).1 = true) :
    (db.checkToken generate token addr).2 = {db with tokens := Function.update db.tokens token none} := by
  obtain ⟨ts,held,same⟩ := checkToken_true.mp accepted
  unfold checkToken
  rw [held]
  dsimp only
  rw [if_neg (not_not.mpr same.symm)]

theorem checkToken_refused {db : Database} (refused : (db.checkToken generate token addr).1 = false) :
    (db.checkToken generate token addr).2 = db := by
  unfold checkToken at refused ⊢
  cases held : db.tokens token with
  | none => rfl
  | some ts =>
    rw [held] at refused
    dsimp only at refused ⊢
    split at refused
    · rename_i different
      rw [if_pos different]
    · cases refused

-- A check of another token, or one that fails, leaves the time of a token.
theorem checkToken_keeps {db : Database} {asked : Key} (keeps : asked ≠ token ∨ (db.checkToken generate asked addr).1 = false) :
    (db.checkToken generate asked addr).2.tokens token = db.tokens token := by
  cases answer : (db.checkToken generate asked addr).1 with
  | false => rw [checkToken_refused answer]
  | true =>
    rw [checkToken_accepted answer]
    rcases keeps with different | refused
    · exact Function.update_of_ne (Ne.symm different) _ _
    · rw [refused] at answer
      cases answer

theorem notAccepted_append {call : TokenCall} (not_accepted : NotAccepted generate calls token)
    (fine : ∀ addr, call = .checkToken token addr → accepts generate calls token addr = false) :
    NotAccepted generate (calls ++ [call]) token := by
  intro before addr after split accepted
  rcases List.eq_nil_or_concat' after with rfl | ⟨rest,last,rfl⟩
  · obtain ⟨same,last⟩ := List.append_inj' split rfl
    rw [← same,fine addr (List.cons.inj last).1] at accepted
    cases accepted
  · rw [← List.cons_append,← List.append_assoc] at split
    obtain ⟨same,_⟩ := List.append_inj' split rfl
    obtain ⟨call,member,given⟩ := not_accepted before addr rest same accepted
    exact ⟨call,List.mem_append_left _ member,given⟩

theorem notAccepted_gives {call : TokenCall} (given : Gives generate token addr now call) :
    NotAccepted generate (calls ++ [call]) token := by
  intro before asked after split accepted
  rcases List.eq_nil_or_concat' after with rfl | ⟨rest,last,rfl⟩
  · obtain ⟨_,last⟩ := List.append_inj' split rfl
    rw [given.1] at last
    cases last
  · rw [← List.cons_append,← List.append_assoc] at split
    obtain ⟨_,last⟩ := List.append_inj' split rfl
    have same : call = _ := (List.cons.inj last).1
    exact ⟨_,List.mem_append_right _ List.mem_cons_self,addr,now,same ▸ given⟩

theorem notAccepted_front {call : TokenCall} (not_accepted : NotAccepted generate (calls ++ [call]) token)
    (other : ∀ addr now, ¬ Gives generate token addr now call) : NotAccepted generate calls token := by
  intro before asked after split accepted
  obtain ⟨again,member,addr,now,given⟩ := not_accepted before asked (after ++ [call]) (by simp [split]) accepted
  rcases List.mem_append.mp member with old | last
  · exact ⟨again,old,addr,now,given⟩
  · rw [List.mem_singleton.mp last] at given
    exact absurd given (other addr now)

-- What the table of tokens says of the calls so far.
theorem tokens_held (held : (tokenCalls generate calls).tokens token = some ts) :
    (∃ call ∈ calls, ∃ addr, Gives generate token addr ts call) ∧ NotAccepted generate calls token := by
  induction calls using List.reverseRecOn generalizing ts with
  | nil => cases held
  | append_singleton calls call ih =>
    rw [tokenCalls_append] at held
    have kept (old : (tokenCalls generate calls).tokens token = some ts) :
        ∃ call' ∈ calls ++ [call], ∃ addr, Gives generate token addr ts call' := by
      obtain ⟨earlier,member,given⟩ := (ih old).1
      exact ⟨earlier,List.mem_append_left _ member,given⟩
    cases call with
    | genToken addr now =>
      by_cases same : tokenFor generate addr now = token
      · have given : Gives generate token addr now (.genToken addr now) := ⟨rfl,same⟩
        have replaced : (tokenCall generate (tokenCalls generate calls) (.genToken addr now)).tokens token = some now := by
          rw [← same]
          exact Function.update_self _ _ _
        rw [replaced] at held
        cases held
        exact ⟨⟨_,List.mem_append_right _ List.mem_cons_self,addr,given⟩,notAccepted_gives given⟩
      · have old : (tokenCalls generate calls).tokens token = some ts := by
          rw [← held]
          exact (Function.update_of_ne (Ne.symm same) _ _).symm
        exact ⟨kept old,notAccepted_append (ih old).2 fun _ check => by cases check⟩
    | checkToken asked addr =>
      have keeps : asked ≠ token ∨ ((tokenCalls generate calls).checkToken generate asked addr).1 = false := by
        by_cases same : asked = token
        · refine .inr (Bool.eq_false_iff.mpr fun accepted => ?_)
          have removed : ((tokenCalls generate calls).checkToken generate asked addr).2.tokens token = none := by
            rw [checkToken_accepted accepted,same]
            exact Function.update_self _ _ _
          rw [show (tokenCall generate (tokenCalls generate calls) (.checkToken asked addr)).tokens token = none from removed] at held
          cases held
        · exact .inl same
      have old : (tokenCalls generate calls).tokens token = some ts := by
        rw [← held]
        exact (checkToken_keeps keeps).symm
      refine ⟨kept old,notAccepted_append (ih old).2 fun from_ check => ?_⟩
      cases check
      exact keeps.resolve_left fun different => different rfl

theorem tokens_of_given (given : ∃ call ∈ calls, ∃ addr now, Gives generate token addr now call)
    (not_accepted : NotAccepted generate calls token) : ∃ ts, (tokenCalls generate calls).tokens token = some ts := by
  induction calls using List.reverseRecOn with
  | nil =>
    obtain ⟨call,member,_⟩ := given
    cases member
  | append_singleton calls call ih =>
    rw [tokenCalls_append]
    have older (other : ∀ addr now, ¬ Gives generate token addr now call) :
        ∃ ts, (tokenCalls generate calls).tokens token = some ts := by
      obtain ⟨earlier,member,addr,now,given⟩ := given
      rcases List.mem_append.mp member with old | last
      · exact ih ⟨earlier,old,addr,now,given⟩ (notAccepted_front not_accepted other)
      · rw [List.mem_singleton.mp last] at given
        exact absurd given (other addr now)
    cases call with
    | genToken addr now =>
      by_cases same : tokenFor generate addr now = token
      · refine ⟨now,?_⟩
        rw [← same]
        exact Function.update_self _ _ _
      · obtain ⟨ts,held⟩ := older fun addr' now' given => by
          cases given.1
          exact same given.2
        refine ⟨ts,?_⟩
        rw [← held]
        exact Function.update_of_ne (Ne.symm same) _ _
    | checkToken asked addr =>
      obtain ⟨ts,held⟩ := older fun addr' now' given => by cases given.1
      refine ⟨ts,?_⟩
      rw [← held]
      apply checkToken_keeps
      by_cases same : asked = token
      · refine .inr (Bool.eq_false_iff.mpr fun accepted => ?_)
        rw [same] at accepted
        obtain ⟨call,member,_⟩ := not_accepted calls addr [] (by rw [same]) accepted
        cases member
      · exact .inl same

-- What is hashed for a token that was generated, and again when it is checked.
theorem hashed_given (member : TokenCall.genToken addr now ∈ calls) (rest : List TokenCall) :
    Hashed generate (calls ++ rest) (pack addr ++ BigEndian.digits 8 now) := by
  obtain ⟨before,after,split⟩ := List.append_of_mem member
  exact ⟨before,.genToken addr now,after ++ rest,by rw [split,List.append_assoc,List.cons_append],rfl⟩

-- A token is accepted exactly from the address it was generated for, once for each time it
-- was generated.
theorem tokens_checked (generate : List UInt8 → Key) (calls : List TokenCall) (token : Key) (addr : Address)
    (injective : ∀ x y, Hashed generate (calls ++ [.checkToken token addr]) x →
      Hashed generate (calls ++ [.checkToken token addr]) y → generate x = generate y → x = y) :
    (accepts generate calls token addr = true ↔ GeneratedFor generate calls token addr ∧ NotAccepted generate calls token) ∧
      (accepts generate calls token addr = true →
        (∀ other, accepts generate (calls ++ [.checkToken token addr]) token other = false) ∧
        ∀ other, other ≠ token →
          (tokenCalls generate (calls ++ [.checkToken token addr])).tokens other = (tokenCalls generate calls).tokens other) ∧
      (accepts generate calls token addr = false →
        tokenCalls generate (calls ++ [.checkToken token addr]) = tokenCalls generate calls) := by
  -- a token that is held for a time is the one for the address only
  have hashes {ts : Nat} {from_ : Address} (held : (tokenCalls generate calls).tokens token = some ts)
      (member : TokenCall.genToken from_ ts ∈ calls) (same : tokenFor generate from_ ts = tokenFor generate addr ts) :
      from_ = addr := by
    have checked : Hashed generate (calls ++ [.checkToken token addr]) (pack addr ++ BigEndian.digits 8 ts) :=
      ⟨calls,.checkToken token addr,[],rfl,congrArg (Option.map _) held⟩
    exact addr_of_hashed (injective _ _ (hashed_given member _) checked same)
  refine ⟨⟨fun accepted => ?_,?_⟩,fun accepted => ⟨fun other => ?_,fun other different => ?_⟩,fun refused => ?_⟩
  · obtain ⟨ts,held,same⟩ := checkToken_true.mp accepted
    obtain ⟨⟨call,member,from_,rfl,given⟩,not_accepted⟩ := tokens_held held
    cases hashes held member (given.trans same.symm)
    exact ⟨⟨_,member,ts,rfl,given⟩,not_accepted⟩
  · rintro ⟨⟨call,member,now,rfl,given⟩,not_accepted⟩
    obtain ⟨ts,held⟩ := tokens_of_given ⟨_,member,addr,now,rfl,given⟩ not_accepted
    obtain ⟨⟨call,last,from_,rfl,again⟩,_⟩ := tokens_held held
    cases addr_of_hashed (injective _ _ (hashed_given last _) (hashed_given member _) (again.trans given.symm))
    exact checkToken_true.mpr ⟨ts,held,again⟩
  · refine Bool.eq_false_iff.mpr fun again => ?_
    obtain ⟨ts,held,_⟩ := checkToken_true.mp again
    rw [tokenCalls_append] at held
    have removed : (tokenCall generate (tokenCalls generate calls) (.checkToken token addr)).tokens token = none := by
      show ((tokenCalls generate calls).checkToken generate token addr).2.tokens token = none
      rw [checkToken_accepted accepted]
      exact Function.update_self _ _ _
    rw [removed] at held
    cases held
  · rw [tokenCalls_append]
    exact checkToken_keeps (.inl (Ne.symm different))
  · rw [tokenCalls_append]
    exact checkToken_refused refused

-- A node asks for a token and announces itself with it.
def askedAddress : Address := .v4 16909060 6881

def askedToken : Key := Key.ofByteArray [160,126,37,201,192,222,95,248,112,255,251,146,173,233,95,119,129,48,88,121]

-- The SHA-1 of the address and the time 0.
def askedHash : List UInt8 → Key := fun _ => askedToken

theorem askedToken_checked : (∀ x y, Hashed askedHash ([.genToken askedAddress 0] ++ [.checkToken askedToken askedAddress]) x →
      Hashed askedHash ([.genToken askedAddress 0] ++ [.checkToken askedToken askedAddress]) y → askedHash x = askedHash y → x = y) ∧
    accepts askedHash [.genToken askedAddress 0] askedToken askedAddress = true := by
  have one (x : List UInt8) (input : Hashed askedHash ([.genToken askedAddress 0] ++ [.checkToken askedToken askedAddress]) x) :
      x = pack askedAddress ++ BigEndian.digits 8 0 := by
    obtain ⟨before,call,after,split,found⟩ := input
    rcases before with _ | ⟨first,_ | ⟨second,more⟩⟩
    · cases split
      exact (Option.some.inj found).symm
    · cases split
      exact (Option.some.inj found).symm
    · simp at split
  have injective : ∀ x y, Hashed askedHash ([.genToken askedAddress 0] ++ [.checkToken askedToken askedAddress]) x →
      Hashed askedHash ([.genToken askedAddress 0] ++ [.checkToken askedToken askedAddress]) y → askedHash x = askedHash y → x = y :=
    fun x y first second _ => (one x first).trans (one y second).symm
  refine ⟨injective,(tokens_checked askedHash [.genToken askedAddress 0] askedToken askedAddress injective).1.mpr ?_⟩
  refine ⟨⟨_,List.mem_cons_self,0,rfl,rfl⟩,?_⟩
  intro before addr after split
  rcases before with _ | ⟨first,rest⟩
  · cases split
  · simp at split

end Database

end KtorrentStream.Dht
