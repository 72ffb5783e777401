import KtorrentStream.Lib.Along
import KtorrentStream.Torrent.Load
set_option autoImplicit true

namespace KtorrentStream.Peer
open KtorrentStream.Lib KtorrentStream.Torrent

-- What handshakeReceived makes of the bytes in handshake, that are all or the first of
-- them: whether it finishes with failure.
abbrev Refusal := List UInt8 → Bool → Bool

def Authenticate.refuses (allowed : Bool) (infoHash ourPeerId : List UInt8) : Refusal := fun hs full =>
  !allowed || (hs.drop 28).take 20 != infoHash || (full && ourPeerId == (hs.drop 48).take 20)

-- findPeerManager gives the peer id of the torrent and the peers it is connected to.
def ServerAuthenticate.refuses (allowed : Bool) (findPeerManager : List UInt8 → Option (List UInt8 × List (List UInt8))) : Refusal :=
  fun hs full =>
    let peerId := (hs.drop 48).take 20
    match findPeerManager ((hs.drop 28).take 20) with
    | none => true
    | some (ours,connected) => !allowed || (full && (ours == peerId || connected.contains peerId))

-- finish has the argument of onFinish, once it is called. received has what the calls of
-- handshakeReceived(true) see: handshake and ext_support. unread waits in the socket.
structure AuthenticateBase where
  unread : List UInt8
  finish : Option Bool
  handshake : List UInt8
  bytesOfHandshakeReceived : Nat
  extSupport : Nat
  received : List (List UInt8 × Nat)

def makeHandshake (dht : Bool) (infoHash ourPeerId : List UInt8) : List UInt8 :=
  19 :: ascii "BitTorrent protocol" ++ [0,0,0,0,0,16,0,if dht then 5 else 4] ++ infoHash ++ ourPeerId

def hasBit (hs : List UInt8) (i : Nat) (bit : UInt8) : Bool := hs.getD i 0 &&& bit != 0

def supportedExtensions (dht : Bool) (hs : List UInt8) (ext : Nat) : Nat :=
  let ext := if dht && hasBit hs 27 1 then ext ||| 1 else ext
  let ext := if hasBit hs 27 4 then ext ||| 4 else ext
  if hasBit hs 25 16 then ext ||| 16 else ext

def ValidHeader (hs : List UInt8) : Prop := hs.getD 0 0 = 19 ∧ (hs.drop 1).take 19 = ascii "BitTorrent protocol"

instance (hs : List UInt8) : Decidable (ValidHeader hs) := inferInstanceAs (Decidable (_ ∧ _))

namespace AuthenticateBase

def new : AuthenticateBase := ⟨[],none,List.replicate 68 0,0,0,[]⟩

variable (r : Refusal) (dht : Bool) (a : AuthenticateBase)

def onFinish (succes : Bool) : AuthenticateBase := {a with finish := some succes}

-- sock->readData(handshake + off,n)
def readData (off n : Nat) : AuthenticateBase :=
  {a with
    handshake := a.handshake.take off ++ (a.unread.take n ++ a.handshake.drop (off + (a.unread.take n).length))
    unread := a.unread.drop n}

-- The rest of onReadyRead, with what is in handshake. handshakeReceived(true) finishes.
def complete : AuthenticateBase :=
  if ValidHeader a.handshake then
    let ext := supportedExtensions dht a.handshake a.extSupport
    {a with extSupport := ext,received := a.received ++ [(a.handshake,ext)]}.onFinish (!r a.handshake true)
  else a.onFinish false

def onReadyRead : AuthenticateBase :=
  let ba := a.unread.length
  if ba = 0 then a.onFinish false
  else if a.finish.isSome ∨ ba < 48 then a
  else if a.bytesOfHandshakeReceived = 0 then
    if ba < 68 then
      let part := a.readData 0 ba
      let part := {part with
        bytesOfHandshakeReceived := part.bytesOfHandshakeReceived + ba
        extSupport := if 27 ≤ ba ∧ hasBit part.handshake 27 1 then part.extSupport ||| 1 else part.extSupport}
      if r part.handshake false then part.onFinish false else part
    else (a.readData 0 68).complete r dht
  else (a.readData a.bytesOfHandshakeReceived (68 - a.bytesOfHandshakeReceived)).complete r dht

-- Bytes arrive, and AuthenticationMonitor calls onReadyRead if it is not finished.
def handleData (bytes : List UInt8) : AuthenticateBase :=
  let ready := {a with unread := a.unread ++ bytes}
  if a.finish.isSome then ready else ready.onReadyRead r dht

end AuthenticateBase

structure Handshake where
  bytes : List UInt8
  size : bytes.length = 68

-- handshakeReceived(true) is called once, with the whole handshake and its flags, or it is
-- finished with failure; and what comes behind the handshake is still there.
structure Handled (dht : Bool) (hs : Handshake) (payload : List UInt8) (a : AuthenticateBase) : Prop where
  valid : ValidHeader hs.bytes → a.received = [(hs.bytes,supportedExtensions dht hs.bytes 0)]
  invalid : ¬ValidHeader hs.bytes → a.received = [] ∧ a.finish = some false
  behind : payload <:+ a.unread

-- What the first call that reads finds, and what arrives after it.
def firstReading : Nat → List (List UInt8) → Nat × List (List UInt8)
  | n,[] => (n,[])
  | n,bytes :: rest => if 48 ≤ n + bytes.length then (n + bytes.length,rest) else firstReading (n + bytes.length) rest

def Handshake.part (hs : Handshake) (n : Nat) : List UInt8 := hs.bytes.take n ++ List.replicate (68 - n) 0

-- The remaining part, behind the first n bytes, does not go wrong.
def Handshake.Remainder (r : Refusal) (dht : Bool) (hs : Handshake) (n later : Nat) : Prop :=
  if ValidHeader hs.bytes then r (hs.part n) false = false ∧ 48 ≤ later ∧ (hasBit hs.bytes 27 1 → dht)
  else r (hs.part n) false ∨ 48 ≤ later

def Handshake.Unharmed (r : Refusal) (dht : Bool) (hs : Handshake) (calls : List (List UInt8)) : Prop :=
  let first := firstReading 0 calls
  68 ≤ first.1 ∨ hs.Remainder r dht first.1 first.2.flatten.length

instance (r : Refusal) (dht : Bool) (hs : Handshake) (n later : Nat) : Decidable (hs.Remainder r dht n later) :=
  inferInstanceAs (Decidable (if ValidHeader hs.bytes then _ else _))

instance (r : Refusal) (dht : Bool) (hs : Handshake) (calls : List (List UInt8)) : Decidable (hs.Unharmed r dht calls) :=
  inferInstanceAs (Decidable (68 ≤ _ ∨ hs.Remainder r dht _ _))

theorem makeHandshake_valid (dht : Bool) (infoHash ourPeerId : List UInt8) : ValidHeader (makeHandshake dht infoHash ourPeerId) := by
  constructor <;> rfl

theorem makeHandshake_length (dht : Bool) {infoHash ourPeerId : List UInt8} (hash : infoHash.length = 20) (id : ourPeerId.length = 20) :
    (makeHandshake dht infoHash ourPeerId).length = 68 := by
  rw [makeHandshake,List.length_append,List.length_append,hash,id]
  rfl

-- The flag of the first part is one of the whole handshake when DHT runs.
theorem supportedExtensions_dht (dht : Bool) (hs : List UInt8) :
    supportedExtensions dht hs (if hasBit hs 27 1 then 0 ||| 1 else 0) = supportedExtensions dht hs 0 ↔ (hasBit hs 27 1 → dht) := by
  unfold supportedExtensions
  cases dht <;> cases hasBit hs 27 1 <;> cases hasBit hs 27 4 <;> cases hasBit hs 25 16 <;> decide

namespace Handshake

theorem part_bit (hs : Handshake) (inside : i < n) (bit : UInt8) : hasBit (hs.part n) i bit = hasBit hs.bytes i bit := by
  unfold hasBit part
  by_cases short : i < hs.bytes.length
  · rw [List.getD_eq_getElem?_getD,List.getElem?_append_left (by rw [List.length_take]; omega),List.getElem?_take_of_lt inside,
      ←List.getD_eq_getElem?_getD]
  · rw [hs.size] at short
    have beyond : hs.bytes.length ≤ n := by
      rw [hs.size]
      omega
    have none_left : 68 - n = 0 := by
      omega
    rw [List.take_of_length_le beyond,none_left,List.replicate_zero,List.append_nil]

theorem part_take (hs : Handshake) (n : Nat) (inside : n ≤ 68) : (hs.part n).take n = hs.bytes.take n := by
  rw [part,List.take_append_of_le_length,List.take_take,Nat.min_self]
  rw [List.length_take,hs.size]
  omega

theorem part_length (hs : Handshake) (inside : n ≤ 68) : (hs.part n).length = 68 := by
  rw [part,List.length_append,List.length_take,List.length_replicate,hs.size]
  omega

end Handshake

namespace AuthenticateBase

variable {r : Refusal} {dht : Bool} {hs : Handshake} {payload : List UInt8} {a : AuthenticateBase}

theorem handleData_done (done : a.finish.isSome) (calls : List (List UInt8)) :
    calls.foldl (handleData r dht) a = {a with unread := a.unread ++ calls.flatten} := by
  induction calls generalizing a with
  | nil =>
      rw [List.flatten_nil,List.append_nil]
      rfl
  | cons bytes rest ih =>
      have first : handleData r dht a bytes = {a with unread := a.unread ++ bytes} := by
        simp only [handleData]
        rw [if_pos done]
      rw [List.foldl_cons,first,ih (a := {a with unread := a.unread ++ bytes}) done,List.flatten_cons,←List.append_assoc]

theorem handleData_ready (a : AuthenticateBase) (unfinished : a.finish = none) (bytes : List UInt8) :
    handleData r dht a bytes = onReadyRead r dht {a with unread := a.unread ++ bytes} := by
  simp only [handleData,unfinished]
  exact if_neg (by nofun)

theorem onReadyRead_few (some_bytes : a.unread ≠ []) (few : a.unread.length < 48) : onReadyRead r dht a = a := by
  have positive := List.length_pos_iff.mpr some_bytes
  unfold onReadyRead
  simp only
  rw [if_neg (by omega),if_pos (Or.inr few)]

theorem goes_on (unfinished : a.finish = none) (enough : 48 ≤ a.unread.length) : ¬(a.finish.isSome ∨ a.unread.length < 48) := by
  rintro (done | few)
  · rw [unfinished] at done
    cases done
  · omega

theorem onReadyRead_rest (unfinished : a.finish = none) (enough : 48 ≤ a.unread.length) (some_read : a.bytesOfHandshakeReceived ≠ 0) :
    onReadyRead r dht a = (a.readData a.bytesOfHandshakeReceived (68 - a.bytesOfHandshakeReceived)).complete r dht := by
  unfold onReadyRead
  simp only
  rw [if_neg (by omega),if_neg (goes_on unfinished enough),if_neg some_read]

theorem onReadyRead_full (unfinished : a.finish = none) (full : 68 ≤ a.unread.length) (none_read : a.bytesOfHandshakeReceived = 0) :
    onReadyRead r dht a = (a.readData 0 68).complete r dht := by
  unfold onReadyRead
  simp only
  rw [if_neg (by omega),if_neg (goes_on unfinished (by omega)),if_pos none_read,if_neg (by omega)]

theorem onReadyRead_part (unfinished : a.finish = none) (enough : 48 ≤ a.unread.length) (part : a.unread.length < 68)
    (none_read : a.bytesOfHandshakeReceived = 0) (unset : a.extSupport = 0) :
    let read := a.readData 0 a.unread.length
    let next := {read with
      bytesOfHandshakeReceived := a.unread.length
      extSupport := if hasBit read.handshake 27 1 then 0 ||| 1 else 0}
    onReadyRead r dht a = if r read.handshake false then next.onFinish false else next := by
  have behind : 27 ≤ a.unread.length := by
    omega
  unfold onReadyRead
  simp only
  rw [if_neg (by omega),if_neg (goes_on unfinished enough),if_pos none_read,if_pos part]
  simp only [readData,none_read,unset,behind,true_and,Nat.zero_add]

theorem complete_done (a : AuthenticateBase) : (a.complete r dht).finish.isSome := by
  unfold complete
  split <;> rfl

theorem complete_unread (a : AuthenticateBase) : (a.complete r dht).unread = a.unread := by
  unfold complete
  split <;> rfl

-- With the whole handshake read, only the flags that were set before can be wrong.
theorem complete_handled (whole : a.handshake = hs.bytes) (first : a.received = []) (rest : List (List UInt8))
    (left : a.unread ++ rest.flatten = payload) :
    Handled dht hs payload (rest.foldl (handleData r dht) (a.complete r dht)) ↔
      (ValidHeader hs.bytes → supportedExtensions dht hs.bytes a.extSupport = supportedExtensions dht hs.bytes 0) := by
  rw [handleData_done (complete_done a),complete_unread,left]
  have same (handled : Handled dht hs payload {a.complete r dht with unread := payload}) (valid : ValidHeader hs.bytes) :
      supportedExtensions dht hs.bytes a.extSupport = supportedExtensions dht hs.bytes 0 := by
    have calls := handled.valid valid
    simp only [complete,whole,first] at calls
    rw [if_pos valid] at calls
    exact (Prod.ext_iff.mp (List.singleton_inj.mp calls)).2
  refine ⟨same,fun flags => ⟨fun valid => ?_,fun invalid => ?_,List.suffix_refl _⟩⟩
  · simp only [complete,whole,first]
    rw [if_pos valid,←flags valid]
    rfl
  · simp only [complete,whole]
    rw [if_neg invalid]
    exact ⟨first,rfl⟩

-- The first n bytes have been read, and the others have not.
def partly (hs : Handshake) (n ext : Nat) (waiting : List UInt8) : AuthenticateBase := ⟨waiting,none,hs.part n,n,ext,[]⟩

theorem partly_unhandled : ¬Handled dht hs payload (partly hs n ext waiting) := by
  intro handled
  by_cases valid : ValidHeader hs.bytes
  · exact absurd (handled.valid valid) (by nofun)
  · exact absurd (handled.invalid valid).2 (by nofun)

theorem partly_waits (some_bytes : waiting ++ bytes ≠ []) (few : (waiting ++ bytes).length < 48) :
    handleData r dht (partly hs n ext waiting) bytes = partly hs n ext (waiting ++ bytes) := by
  rw [handleData_ready _ rfl]
  exact onReadyRead_few some_bytes few

theorem partly_reads (r : Refusal) (dht : Bool) (ext : Nat) (least : 48 ≤ n) (part : n < 68) (rest : List UInt8) (enough : 48 ≤ (waiting ++ bytes).length)
    (stream : waiting ++ bytes ++ rest = hs.bytes.drop n ++ payload) :
    handleData r dht (partly hs n ext waiting) bytes =
      complete r dht ⟨(waiting ++ bytes).drop (68 - n),none,hs.bytes,n,ext,[]⟩ ∧ (waiting ++ bytes).drop (68 - n) ++ rest = payload := by
  have length : (hs.bytes.drop n).length = 68 - n := by
    rw [List.length_drop,hs.size]
  have taken := congrArg (List.take (68 - n)) stream
  have dropped := congrArg (List.drop (68 - n)) stream
  rw [List.take_append_of_le_length (by omega),←length,List.take_left,length] at taken
  rw [List.drop_append_of_le_length (by omega),←length,List.drop_left,length] at dropped
  refine ⟨?_,dropped⟩
  have whole : (hs.part n).take n ++ (hs.bytes.drop n ++ (hs.part n).drop (n + (68 - n))) = hs.bytes := by
    have beyond : (hs.part n).drop (n + (68 - n)) = [] := by
      rw [List.drop_eq_nil_iff,hs.part_length part.le]
      omega
    rw [hs.part_take n part.le,beyond,List.append_nil,List.take_append_drop]
  rw [handleData_ready _ rfl,onReadyRead_rest rfl enough (by simp only [partly]; omega)]
  simp only [readData,partly,taken,length,whole]

theorem partly_run (least : 48 ≤ n) (part : n < 68) (calls : List (List UInt8)) (few : waiting.length < 48)
    (stream : waiting ++ calls.flatten = hs.bytes.drop n ++ payload)
    (available : Along (handleData r dht) (fun a bytes => a.unread ++ bytes ≠ []) (partly hs n ext waiting) calls) :
    Handled dht hs payload (calls.foldl (handleData r dht) (partly hs n ext waiting)) ↔
      48 ≤ (waiting ++ calls.flatten).length ∧
        (ValidHeader hs.bytes → supportedExtensions dht hs.bytes ext = supportedExtensions dht hs.bytes 0) := by
  induction calls generalizing waiting with
  | nil =>
      rw [List.flatten_nil,List.append_nil]
      constructor
      · intro handled
        exact absurd handled partly_unhandled
      · rintro ⟨enough,_⟩
        omega
  | cons bytes rest ih =>
      rw [List.flatten_cons,←List.append_assoc] at stream ⊢
      rw [List.foldl_cons]
      by_cases less : (waiting ++ bytes).length < 48
      · have waits : handleData r dht (partly hs n ext waiting) bytes = partly hs n ext (waiting ++ bytes) := partly_waits available.1 less
        have later := available.2
        rw [waits] at later ⊢
        exact ih less stream later
      · have enough := Nat.le_of_not_lt less
        obtain ⟨reads,left⟩ := partly_reads r dht ext least part rest.flatten enough stream
        rw [reads]
        have total : 48 ≤ (waiting ++ bytes ++ rest.flatten).length := by
          rw [List.length_append]
          omega
        exact (complete_handled rfl rfl rest left).trans ⟨fun flags => ⟨total,flags⟩,And.right⟩

def waitingFor (waiting : List UInt8) : AuthenticateBase := {new with unread := waiting}

theorem waitingFor_full (r : Refusal) (dht : Bool) (full : 68 ≤ (waiting ++ bytes).length) (rest : List UInt8)
    (stream : waiting ++ bytes ++ rest = hs.bytes ++ payload) :
    handleData r dht (waitingFor waiting) bytes = complete r dht ⟨(waiting ++ bytes).drop 68,none,hs.bytes,0,0,[]⟩ ∧
      (waiting ++ bytes).drop 68 ++ rest = payload := by
  have taken := congrArg (List.take 68) stream
  have dropped := congrArg (List.drop 68) stream
  rw [List.take_append_of_le_length full,←hs.size,List.take_left,hs.size] at taken
  rw [List.drop_append_of_le_length full,←hs.size,List.drop_left,hs.size] at dropped
  refine ⟨?_,dropped⟩
  rw [handleData_ready _ rfl,onReadyRead_full rfl full rfl]
  simp only [readData,waitingFor,new,taken,hs.size]
  have beyond : (List.replicate 68 (0 : UInt8)).drop (0 + 68) = [] := rfl
  rw [beyond,List.append_nil,List.take_zero,List.nil_append]

theorem waitingFor_part (r : Refusal) (dht : Bool) (enough : 48 ≤ (waiting ++ bytes).length) (part : (waiting ++ bytes).length < 68) (rest : List UInt8)
    (stream : waiting ++ bytes ++ rest = hs.bytes ++ payload) :
    let n := (waiting ++ bytes).length
    let next := partly hs n (if hasBit hs.bytes 27 1 then 0 ||| 1 else 0) []
    handleData r dht (waitingFor waiting) bytes = (if r (hs.part n) false then next.onFinish false else next) ∧
      rest = hs.bytes.drop n ++ payload := by
  have taken := congrArg (List.take (waiting ++ bytes).length) stream
  have dropped := congrArg (List.drop (waiting ++ bytes).length) stream
  have inside : (waiting ++ bytes).length ≤ hs.bytes.length := by
    rw [hs.size]
    omega
  rw [List.take_left,List.take_append_of_le_length inside] at taken
  rw [List.drop_left,List.drop_append_of_le_length inside] at dropped
  refine ⟨?_,dropped⟩
  have filled : (waiting ++ bytes) ++ (List.replicate 68 (0 : UInt8)).drop (waiting ++ bytes).length = hs.part (waiting ++ bytes).length := by
    rw [Handshake.part,←taken,List.drop_replicate]
  have bit := hs.part_bit (show 27 < (waiting ++ bytes).length by omega) 1
  rw [handleData_ready _ rfl,onReadyRead_part rfl enough part rfl rfl]
  simp only [readData,waitingFor,new,partly,List.take_length,List.take_zero,List.nil_append,Nat.zero_add,List.drop_length,filled,bit]

theorem waitingFor_waits (some_bytes : waiting ++ bytes ≠ []) (few : (waiting ++ bytes).length < 48) :
    handleData r dht (waitingFor waiting) bytes = waitingFor (waiting ++ bytes) := by
  rw [handleData_ready _ rfl]
  exact onReadyRead_few some_bytes few

theorem failed_handled (rest : List (List UInt8)) (failed : a.finish = some false) (first : a.received = []) (left : payload <:+ a.unread ++ rest.flatten) :
    Handled dht hs payload (rest.foldl (handleData r dht) a) ↔ ¬ValidHeader hs.bytes := by
  rw [handleData_done (by rw [failed]; rfl)]
  constructor
  · intro handled valid
    exact absurd (first.symm.trans (handled.valid valid)) (by nofun)
  · intro invalid
    exact ⟨fun valid => absurd valid invalid,fun _ => ⟨first,failed⟩,left⟩

theorem waitingFor_run (calls : List (List UInt8)) (few : waiting.length < 48) (stream : waiting ++ calls.flatten = hs.bytes ++ payload)
    (available : Along (handleData r dht) (fun a bytes => a.unread ++ bytes ≠ []) (waitingFor waiting) calls) :
    Handled dht hs payload (calls.foldl (handleData r dht) (waitingFor waiting)) ↔
      68 ≤ (firstReading waiting.length calls).1 ∨
        hs.Remainder r dht (firstReading waiting.length calls).1 (firstReading waiting.length calls).2.flatten.length := by
  induction calls generalizing waiting with
  | nil =>
      have short := congrArg List.length stream
      rw [List.flatten_nil,List.append_nil,List.length_append,hs.size] at short
      omega
  | cons bytes rest ih =>
      rw [List.flatten_cons,←List.append_assoc] at stream
      rw [List.foldl_cons,firstReading,←List.length_append]
      by_cases less : (waiting ++ bytes).length < 48
      · have waits : handleData r dht (waitingFor waiting) bytes = waitingFor (waiting ++ bytes) := waitingFor_waits available.1 less
        have later := available.2
        rw [waits] at later
        rw [waits,if_neg (Nat.not_le.mpr less)]
        exact ih less stream later
      · have enough := Nat.le_of_not_lt less
        rw [if_pos enough]
        by_cases full : 68 ≤ (waiting ++ bytes).length
        · obtain ⟨reads,left⟩ := waitingFor_full r dht full rest.flatten stream
          rw [reads]
          exact (complete_handled rfl rfl rest left).trans ⟨fun _ => Or.inl full,fun _ _ => rfl⟩
        · have part := Nat.lt_of_not_le full
          obtain ⟨reads,left⟩ := waitingFor_part r dht enough part rest.flatten stream
          have later := available.2
          rw [reads] at later ⊢
          rw [or_iff_right full,Handshake.Remainder]
          by_cases refused : r (hs.part (waiting ++ bytes).length) false = true
          · rw [if_pos refused]
            refine (failed_handled rest rfl rfl ?_).trans ?_
            · exact ⟨hs.bytes.drop (waiting ++ bytes).length,left.symm⟩
            · by_cases valid : ValidHeader hs.bytes
              · simp only [valid,refused,not_true_eq_false,if_true,Bool.true_eq_false,false_and]
              · simp only [valid,refused,not_false_eq_true,if_false,true_or]
          · rw [if_neg refused] at later ⊢
            refine (partly_run enough part rest (by decide) left later).trans ?_
            rw [supportedExtensions_dht,List.nil_append]
            by_cases valid : ValidHeader hs.bytes
            · simp only [valid,forall_const,if_true,Bool.eq_false_of_not_eq_true refused,true_and]
            · simp only [valid,false_imp_iff,if_false,refused,false_or,and_true,Bool.false_eq_true]

end AuthenticateBase

namespace Handshake

-- However the bytes become available, with at least one at every call: the handshake is
-- handled as it should if and only if no remaining part goes wrong.
theorem handled_iff_unharmed (r : Refusal) (dht : Bool) (hs : Handshake) (payload : List UInt8) (calls : List (List UInt8))
    (stream : calls.flatten = hs.bytes ++ payload)
    (available : Along (AuthenticateBase.handleData r dht) (fun a bytes => a.unread ++ bytes ≠ []) AuthenticateBase.new calls) :
    Handled dht hs payload (calls.foldl (AuthenticateBase.handleData r dht) AuthenticateBase.new) ↔ hs.Unharmed r dht calls :=
  AuthenticateBase.waitingFor_run calls (Nat.zero_lt_succ _) stream available

def ofPeer (dht : Bool) : Handshake := ⟨makeHandshake dht (List.replicate 20 7) (List.replicate 20 9),makeHandshake_length dht rfl rfl⟩

-- 50 bytes, then the other 18 with a message of 30 bytes behind them.
theorem with_payload_handled :
    let calls := [(ofPeer true).bytes.take 50,(ofPeer true).bytes.drop 50 ++ List.replicate 30 0]
    let r := Authenticate.refuses true (List.replicate 20 7) (List.replicate 20 5)
    Handled true (ofPeer true) (List.replicate 30 0) (calls.foldl (AuthenticateBase.handleData r true) AuthenticateBase.new) := by
  intro calls r
  have available : Along (AuthenticateBase.handleData r true) (fun a bytes => a.unread ++ bytes ≠ []) AuthenticateBase.new calls :=
    ⟨by decide,by decide,trivial⟩
  exact (handled_iff_unharmed r true (ofPeer true) (List.replicate 30 0) calls (by decide) available).mpr (by decide)

-- 60 bytes, then the other 8: they are never read.
theorem last_bytes_unread :
    let calls := [(ofPeer true).bytes.take 60,(ofPeer true).bytes.drop 60]
    let r := Authenticate.refuses true (List.replicate 20 7) (List.replicate 20 5)
    calls.flatten = (ofPeer true).bytes ++ [] ∧
      Along (AuthenticateBase.handleData r true) (fun a bytes => a.unread ++ bytes ≠ []) AuthenticateBase.new calls ∧
      (calls.foldl (AuthenticateBase.handleData r true) AuthenticateBase.new).received = [] ∧
      ¬Handled true (ofPeer true) [] (calls.foldl (AuthenticateBase.handleData r true) AuthenticateBase.new) := by
  refine ⟨by decide,⟨by decide,by decide,trivial⟩,by decide,?_⟩
  intro handled
  have once := handled.valid (makeHandshake_valid _ _ _)
  revert once
  decide

end Handshake

end KtorrentStream.Peer
