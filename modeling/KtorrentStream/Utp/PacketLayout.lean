import KtorrentStream.Utp.PacketBuffer
set_option autoImplicit true

namespace KtorrentStream.Utp
open KtorrentStream.Util

namespace PacketBuffer

-- The other fillData: memcpy of data, which may leave no room in front of it.
def fillBytesSize (data : List UInt8) : Nat := if data.length > maxSize then maxSize else data.length

theorem fillBytesSize_le (data : List UInt8) : fillBytesSize data ≤ maxSize ∧ fillBytesSize data ≤ data.length := by
  rw [fillBytesSize]
  split <;> omega

theorem fillBytes_fits (data : List UInt8) :
    maxSize - fillBytesSize data + (data.take (fillBytesSize data)).length ≤ maxSize := by
  obtain ⟨max,short⟩ := fillBytesSize_le data
  rw [List.length_take]
  omega

def fillBytes (p : PacketBuffer) (data : List UInt8) : PacketBuffer where
  buffer := overwrite p.buffer (maxSize - fillBytesSize data) (data.take (fillBytesSize data))
  header := some (maxSize - fillBytesSize data)
  extension := some (maxSize - fillBytesSize data)
  payload := some (maxSize - fillBytesSize data)
  size := fillBytesSize data
  sized := by rw [overwrite_length (by rw [p.sized]; exact fillBytes_fits data)]; exact p.sized
  inside := by
    intro off same
    cases same
    exact Nat.sub_le _ _

-- What a packet is filled with before its headers. The connection never asks for more
-- than its output buffer has.
inductive Fill where
  | nothing
  | ring (cbuf : CircularBuffer) (toRead : Nat) (enough : toRead ≤ cbuf.bufSize)
  | bytes (data : List UInt8)

def Fill.apply : Fill → PacketBuffer
  | .nothing => new
  | .ring cbuf toRead _ => (new.fillData cbuf toRead).1
  | .bytes data => new.fillBytes data

def Fill.payload : Fill → List UInt8
  | .nothing => []
  | .ring cbuf toRead _ => cbuf.contents.take (min toRead (maxSize - Header.size))
  | .bytes data => data.take maxSize

-- The room in front of the payload, or the whole of MAX_SIZE.
def Fill.room (fill : Fill) : Nat := maxSize - fill.payload.length

theorem payload_filled (buffer filled : List UInt8) (sized : buffer.length = maxSize) (short : filled.length ≤ maxSize) :
    slice (overwrite buffer (maxSize - filled.length) filled) (maxSize - filled.length) (maxSize - (maxSize - filled.length)) = filled := by
  have whole : maxSize - (maxSize - filled.length) = filled.length := by omega
  rw [whole]
  exact slice_overwrite_self (by rw [sized]; omega)

theorem fillData_all (cbuf : CircularBuffer) (toRead : Nat) (enough : toRead ≤ cbuf.bufSize) :
    (new.fillData cbuf toRead).1.payloadBytes = cbuf.contents.take (min toRead (maxSize - Header.size)) ∧
    (new.fillData cbuf toRead).1.headRoom = maxSize - (cbuf.contents.take (min toRead (maxSize - Header.size))).length := by
  have size : fillSize toRead = min toRead (maxSize - Header.size) := by
    rw [fillSize]
    split <;> omega
  have count : (cbuf.contents.take (min toRead (maxSize - Header.size))).length = fillSize toRead := by
    rw [List.length_take,cbuf.contents_length,size]
    omega
  have short := fillSize_le toRead
  simp only [payloadBytes,payloadSize,headRoom,fillData,Option.getD_some,(cbuf.read_contents _).1]
  rw [← size] at count ⊢
  have filled := payload_filled new.buffer (cbuf.contents.take (fillSize toRead)) new.sized (by omega)
  rw [count] at filled ⊢
  exact ⟨filled,rfl⟩

theorem fillBytes_all (data : List UInt8) :
    (new.fillBytes data).payloadBytes = data.take maxSize ∧ (new.fillBytes data).headRoom = maxSize - (data.take maxSize).length := by
  have same : data.take (fillBytesSize data) = data.take maxSize := by
    rw [fillBytesSize]
    split
    · rfl
    · rw [List.take_length,List.take_of_length_le (by omega)]
  have count : (data.take maxSize).length = fillBytesSize data := by
    rw [List.length_take,fillBytesSize]
    split <;> omega
  have short := (fillBytesSize_le data).1
  simp only [payloadBytes,payloadSize,headRoom,fillBytes,Option.getD_some,same]
  have filled := payload_filled new.buffer (data.take maxSize) new.sized (by omega)
  rw [count] at filled ⊢
  exact ⟨filled,rfl⟩

theorem Fill.filled (fill : Fill) : fill.apply.payloadBytes = fill.payload ∧ fill.apply.headRoom = fill.room := by
  cases fill with
  | nothing => exact ⟨rfl,rfl⟩
  | ring cbuf toRead enough => exact fillData_all cbuf toRead enough
  | bytes data => exact fillBytes_all data

-- A call of setHeader, and the extension that is written behind the header.
structure HeaderCall where
  header : Header
  extension : List UInt8
  short : extension.length < 4294967296

def HeaderCall.extensionLength (call : HeaderCall) : UInt32 := UInt32.ofNat call.extension.length

theorem HeaderCall.extensionLength_toNat (call : HeaderCall) : call.extensionLength.toNat = call.extension.length :=
  UInt32.toNat_ofNat_of_lt' call.short

-- The packet after a call; none after a write in front of the buffer.
def next (p : PacketBuffer) (call : HeaderCall) : Option PacketBuffer :=
  match p.setHeader call.header call.extensionLength with
  | .noRoom => some p
  | .undefined => none
  | .done p' => some (p'.writeExtension call.extension)

-- A call succeeds exactly if header and extension fit, and makes the packet.
def Right (room : Nat) (payload : List UInt8) (p : PacketBuffer) (call : HeaderCall) : Prop :=
  match p.setHeader call.header call.extensionLength with
  | .noRoom => room < 20 + call.extension.length
  | .undefined => False
  | .done p' =>
      20 + call.extension.length ≤ room ∧
      (p'.writeExtension call.extension).data = call.header.write ++ call.extension ++ payload ∧
      (p'.writeExtension call.extension).payloadBytes = payload

def AllRight (room : Nat) (payload : List UInt8) : PacketBuffer → List HeaderCall → Prop
  | _,[] => True
  | p,call :: rest => Right room payload p call ∧ ∀ p', p.next call = some p' → AllRight room payload p' rest

-- The extension is subtracted from the header where it should be added: too long an
-- extension is let in, or one that fits is turned down.
def Misjudged (room length : Nat) : Prop :=
  (length ≤ 20 ∧ 20 ≤ room + length ∧ room < 20 + length) ∨
    (20 < length ∧ (20 + length ≤ room ∨ 4294967316 ≤ room + length))

theorem room_test (call : HeaderCall) (room : Nat) :
    ((20 : UInt32) - call.extensionLength).toNat > room ↔
      if call.extension.length ≤ 20 then room + call.extension.length < 20 else room + call.extension.length < 4294967316 := by
  have length := call.extensionLength_toNat
  have short := call.short
  rw [UInt32.toNat_sub,length]
  change (4294967296 - call.extension.length + 20) % 4294967296 > room ↔ _
  split
  · omega
  · omega

theorem right_iff (p : PacketBuffer) (call : HeaderCall) :
    Right p.headRoom p.payloadBytes p call ↔ ¬ Misjudged p.headRoom call.extension.length := by
  have max : maxSize = 1500 := rfl
  have size : Header.size = 20 := rfl
  have short := call.short
  have length := call.extensionLength_toNat
  have test := room_test call p.headRoom
  by_cases refused : ((20 : UInt32) - call.extensionLength).toNat > p.headRoom
  · have result : p.setHeader call.header call.extensionLength = .noRoom := by rw [setHeader,if_pos refused]
    simp only [Right,result]
    have turned := test.mp refused
    rw [Misjudged]
    split at turned <;> omega
  · have letIn := mt test.mpr refused
    cases payload : p.payload with
    | none =>
        have room : p.headRoom = 1500 := by rw [headRoom,payload]; rfl
        have empty : p.payloadBytes = [] := by simp only [payloadBytes,payloadSize,payload,slice_zero]
        by_cases fits : 20 + call.extension.length ≤ p.headRoom
        · obtain ⟨p',result,bytes,same⟩ := p.setHeader_front call.header call.extensionLength call.extension payload refused
            length.symm (by omega)
          have still : (p'.writeExtension call.extension).payloadBytes = [] := by
            simp only [payloadBytes,payloadSize,same,slice_zero]
          simp only [Right,result,bytes,still,empty,List.append_nil,and_self,and_true]
          rw [Misjudged]
          split at letIn <;> omega
        · have wrong : Misjudged p.headRoom call.extension.length := by
            rw [Misjudged]
            split at letIn <;> omega
          refine ⟨fun right => absurd right ?_,fun judged => absurd wrong judged⟩
          rw [Right]
          split
          · rename_i result
            rw [setHeader,if_neg refused] at result
            simp only [payload] at result
            split at result <;> cases result
          · exact id
          · exact fun done => fits done.1
    | some off =>
        have room : p.headRoom = off := by rw [headRoom,payload]; rfl
        have bound := p.inside off payload
        by_cases fits : 20 + call.extension.length ≤ p.headRoom
        · obtain ⟨p',result,bytes,_,same⟩ := p.setHeader_before call.header call.extensionLength call.extension payload refused
            length.symm (by omega)
          simp only [Right,result,bytes,same,and_self,and_true]
          rw [Misjudged]
          split at letIn <;> omega
        · have wrong : Misjudged p.headRoom call.extension.length := by
            rw [Misjudged]
            split at letIn <;> omega
          have result : p.setHeader call.header call.extensionLength = .undefined := by
            rw [setHeader,if_neg refused]
            simp only [payload]
            rw [if_pos (by omega)]
          simp only [Right,result]
          exact ⟨False.elim,fun judged => absurd wrong judged⟩

theorem writeExtension_payload (p : PacketBuffer) (bytes : List UInt8) : (p.writeExtension bytes).payload = p.payload := by
  rw [writeExtension]
  split
  · rfl
  · split <;> rfl

theorem setHeader_payload {p p' : PacketBuffer} (result : p.setHeader hdr extensionLength = .done p') : p'.payload = p.payload := by
  rw [setHeader] at result
  split at result
  · cases result
  · dsimp only at result
    split at result
    · cases result
    · split at result
      · cases result
        rfl
      · cases result

theorem next_same {p p' : PacketBuffer} (right : Right p.headRoom p.payloadBytes p call) (after : p.next call = some p') :
    p'.headRoom = p.headRoom ∧ p'.payloadBytes = p.payloadBytes := by
  rw [Right] at right
  rw [next] at after
  split at after
  · cases after
    exact ⟨rfl,rfl⟩
  · cases after
  · rename_i done result
    rw [result] at right
    cases after
    refine ⟨?_,right.2.2⟩
    rw [headRoom,headRoom,writeExtension_payload,setHeader_payload result]

theorem next_some {p : PacketBuffer} {payload : List UInt8} (right : Right room payload p call) : ∃ p', p.next call = some p' := by
  rw [Right] at right
  rw [next]
  split at right
  · exact ⟨p,rfl⟩
  · cases right
  · exact ⟨_,rfl⟩

theorem allRight_iff (p : PacketBuffer) (calls : List HeaderCall) :
    AllRight p.headRoom p.payloadBytes p calls ↔ ∀ call ∈ calls, ¬ Misjudged p.headRoom call.extension.length := by
  induction calls generalizing p with
  | nil => exact ⟨fun _ call among => (List.not_mem_nil among).elim,fun _ => trivial⟩
  | cons call rest ih =>
      rw [AllRight,right_iff,List.forall_mem_cons]
      apply and_congr_right
      intro judged
      have right := (right_iff p call).mpr judged
      constructor
      · intro always
        obtain ⟨p',after⟩ := next_some right
        obtain ⟨room,payload⟩ := next_same right after
        have later := always p' after
        rw [← room,← payload,ih p'] at later
        rw [← room]
        exact later
      · intro each p' after
        obtain ⟨room,payload⟩ := next_same right after
        rw [← room,← payload,ih p',room]
        exact each

-- A packet that is filled and given headers any number of times.
theorem layout_iff (fill : Fill) (calls : List HeaderCall) :
    AllRight fill.room fill.payload fill.apply calls ↔ ∀ call ∈ calls, ¬ Misjudged fill.room call.extension.length := by
  obtain ⟨payload,room⟩ := fill.filled
  rw [← payload,← room]
  exact allRight_iff fill.apply calls

theorem fillBytes_payload {p : PacketBuffer} {data : List UInt8} (length : data.length = count) (short : count ≤ maxSize) :
    (p.fillBytes data).payload = some (maxSize - count) := by
  have size : fillBytesSize data = count := by
    rw [fillBytesSize,length,if_neg (Nat.not_lt.mpr short)]
  exact congrArg (fun size => some (maxSize - size)) size

def callWith (extension : List UInt8) (short : extension.length < 4294967296) : HeaderCall := ⟨⟨1,stData,1,0,0,0,0,0,0⟩,extension,short⟩

-- Ten bytes in front of a payload are taken to be enough for a header and an
-- extension of twelve bytes, and a whole buffer not for an extension of thirty.
theorem room_is_misjudged :
    (new.fillBytes (List.replicate 1490 0)).setHeader ⟨1,stData,1,0,0,0,0,0,0⟩ 12 = .undefined ∧
    new.setHeader ⟨1,stData,1,0,0,0,0,0,0⟩ 30 = .noRoom ∧
    ¬ ∀ (fill : Fill) (calls : List HeaderCall), AllRight fill.room fill.payload fill.apply calls := by
  have payload : (new.fillBytes (List.replicate 1490 0)).payload = some 10 := by
    rw [fillBytes_payload List.length_replicate (by decide)]
    rfl
  refine ⟨?_,by rfl,fun always => ?_⟩
  · rw [setHeader,headRoom,payload,if_neg (by decide)]
    rfl
  have right := (always .nothing [callWith (List.replicate 30 0) (by decide)]).1
  exact (right_iff new (callWith (List.replicate 30 0) (by decide))).mp right (.inr ⟨by decide,.inl (by decide)⟩)

end PacketBuffer
end KtorrentStream.Utp
