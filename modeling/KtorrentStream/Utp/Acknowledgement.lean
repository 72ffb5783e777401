import KtorrentStream.Utp.Window
set_option autoImplicit true

namespace KtorrentStream.Utp
open KtorrentStream.Lib

-- The calls made on a local window. The payload of a packet starts at data_off
-- and may be empty.
inductive Call where
  | packetReceived (seqNr : UInt16) (packet : Buffer) (dataOff : UInt32) (inside : dataOff ≤ packet.size)
  | read (maxLen : UInt32)

-- A run of calls with last_seq_nr counted along it, and the counts of the packets
-- that packetReceived has stored.
structure History where
  window : LocalWindow
  reached : Nat
  stored : List Nat

def History.start (lsn : UInt16) : History := ⟨.fresh (128 * 1024) lsn,lsn.toNat,[]⟩

def History.moved (h : History) (w : LocalWindow) : Nat := h.reached + (w.lastSeqNr - h.window.lastSeqNr).toNat

def History.call (h : History) : Call → Option History
  | .packetReceived seqNr packet dataOff _ =>
      match h.window.packetReceived seqNr packet dataOff with
      | none => none
      | some (w,.stored) => some ⟨w,h.moved w,countOf h.reached h.window seqNr :: h.stored⟩
      | some (w,_) => some ⟨w,h.moved w,h.stored⟩
  | .read maxLen =>
      match h.window.read maxLen with
      | none => none
      | some (w,_) => some ⟨w,h.moved w,h.stored⟩

-- P holds in every state of a run, and every call of it returns.
def Everywhere (P : History → Prop) : History → List Call → Prop
  | h,[] => P h
  | h,c :: rest => P h ∧ ∃ h', h.call c = some h' ∧ Everywhere P h' rest

def NoFalseAck (lsn : UInt16) (h : History) : Prop := ∀ n, lsn.toNat < n → n ≤ h.reached → n ∈ h.stored

-- The indexes a call computes with SeqNrDiff from the front slot, each as the
-- slots it indexes and the number it looks for.
def LocalWindow.lookups (w : LocalWindow) : Call → List (List WindowPacket × UInt16)
  | .packetReceived seqNr packet dataOff _ =>
      if seqNrCmpSE seqNr w.lastSeqNr ∨ w.windowSpace < packet.size - dataOff then []
      else
        (match w.incomingPackets.getLast? with
          | some back => if seqNrCmpS back.seqNr seqNr then [] else [(w.incomingPackets,seqNr)]
          | none => []) ++
        (match w.place seqNr packet dataOff with
          | .placed w' => if seqNr = w'.lastSeqNr + 1 then [(w'.incomingPackets,seqNr + 1)] else []
          | _ => [])
  | .read maxLen =>
      match w.incomingPackets.head? with
      | none => []
      | some front =>
          (w.incomingPackets,w.firstSeqNr) ::
          match w.readLoop maxLen (w.incomingPackets.length + 1) (seqNrDiff front.seqNr w.firstSeqNr) [] with
          | none => []
          | some (w',_) => [(w'.incomingPackets,w'.firstSeqNr)]

def IndexFits (lookup : List WindowPacket × UInt16) : Prop :=
  ∀ front pkt, lookup.1.head? = some front →
    lookup.1[(seqNrDiff front.seqNr lookup.2).toNat]? = some pkt → pkt.seqNr = lookup.2

-- A packet the window would store lies at most 32767 numbers after the front
-- slot, and read finds a slot to look at.
def Fits (w : LocalWindow) : Call → Prop
  | .packetReceived seqNr packet dataOff _ =>
      seqNrCmpSE seqNr w.lastSeqNr = false → ¬ w.windowSpace < packet.size - dataOff → w.nearFront seqNr
  | .read _ => w.incomingPackets ≠ []

def EachFits : History → List Call → Prop
  | _,[] => True
  | h,c :: rest => Fits h.window c ∧ ∀ h', h.call c = some h' → EachFits h' rest

theorem Slots.indexFits (slots : Slots l front r) (after : front ≤ m) (near : m ≤ front + 32768) :
    IndexFits (l,seqOf m) := by
  intro head pkt found inside
  rw [slots.head_seqNr found,seqNrDiff_seqOf after near] at inside
  have number := slots.getElem_seqNr inside
  rw [show front + (m - front) = m by omega] at number
  exact number

structure Counted (lsn : UInt16) (h : History) (front : Nat) (r : Reassembly UInt8) : Prop where
  repr : Repr h.window front r
  base : r.base = lsn.toNat
  reached : r.last = h.reached
  stored : ∀ n, r.got n ≠ none → n ∈ h.stored

theorem start_counted (lsn : UInt16) : Counted lsn (.start lsn) (lsn.toNat + 1) (.start lsn.toNat) :=
  ⟨fresh_repr _ _ _ (seqOf_of_toNat lsn),rfl,rfl,fun _ some => absurd rfl some⟩

theorem Counted.noFalseAck (counted : Counted lsn h front r) : NoFalseAck lsn h := by
  intro n after upTo
  refine counted.stored n (counted.repr.valid.received n ?_ ?_)
  · rw [counted.base]
    exact after
  · rw [counted.reached]
    exact upTo

theorem Repr.moved (rep : Repr w front r) (rep' : Repr w' front' r') (later : r.last ≤ r'.last)
    (near : front' ≤ r.last + 1) : r.last + (w'.lastSeqNr - w.lastSeqNr).toNat = r'.last := by
  have bound := rep'.last_le rep'.valid
  rw [rep.lastSeqNr,rep'.lastSeqNr,seqOf_sub_toNat later (by omega)]
  omega

theorem call_counted (counted : Counted lsn h front r) (fits : Fits h.window c) :
    ∃ h' front' r', h.call c = some h' ∧ Counted lsn h' front' r' := by
  have ⟨rep,base,reached,stored⟩ := counted
  have ready := rep.valid.ready
  have behind := rep.behind
  have idle : h.moved h.window = h.reached := by simp [History.moved]
  cases c with
  | packetReceived seqNr packet dataOff inside =>
      obtain ⟨result,_⟩ | ⟨result,_⟩ | ⟨w',upTo,result,_,missing,rep',later,_⟩ := packetReceived_repr rep fun late room => ⟨inside,fits late room⟩
      · exact ⟨h,front,r,by simp only [History.call,result,idle],counted⟩
      · exact ⟨h,front,r,by simp only [History.call,result,idle],counted⟩
      · refine ⟨⟨w',h.moved w',countOf h.reached h.window seqNr :: h.stored⟩,front,_,
          by simp only [History.call,result],rep',base,?_,?_⟩
        · show upTo = h.moved w'
          rw [History.moved,← reached]
          exact (rep.moved rep' later (by omega)).symm
        · intro n present
          rw [← reached]
          by_cases same : n = countOf r.last h.window seqNr
          · exact same ▸ List.mem_cons_self
          · refine List.mem_cons_of_mem _ (stored n ?_)
            simpa [Reassembly.store,Function.update_of_ne same] using present
  | read maxLen =>
      obtain ⟨w',front',r',bytes,result,rep',read,_⟩ := read_repr rep fits maxLen
      refine ⟨⟨w',h.moved w',h.stored⟩,front',r',by simp only [History.call,result],rep',read.base.trans base,?_,?_⟩
      · show r'.last = h.reached + (w'.lastSeqNr - h.window.lastSeqNr).toNat
        rw [rep'.lastSeqNr,rep.lastSeqNr,read.last,← reached]
        simp
      · rw [read.got]
        exact stored

theorem lookups_fit (counted : Counted lsn h front r) (fits : Fits h.window c) :
    ∀ lookup ∈ h.window.lookups c, IndexFits lookup := by
  obtain ⟨rep,_⟩ := counted
  have ready := rep.valid.ready
  have behind := rep.behind
  have bound := rep.last_le rep.valid
  cases c with
  | packetReceived seqNr packet dataOff inside =>
      rw [LocalWindow.lookups]
      split
      · simp
      · rename_i wanted
        obtain ⟨late,full⟩ := not_or.mp wanted
        have late' : seqNrCmpSE seqNr h.window.lastSeqNr = false := Bool.not_eq_true _ ▸ late
        obtain ⟨ahead,close,number⟩ := rep.countOf_near late' (fits late' full)
        have here : IndexFits (h.window.incomingPackets,seqNr) := by
          rw [← number]
          exact rep.indexFits (by omega) (by omega)
        intro lookup among
        rw [List.mem_append] at among
        obtain among | among := among
        · split at among
          · split at among
            · cases among
            · rw [List.mem_singleton.mp among]
              exact here
          · cases among
        · rw [← number] at among
          obtain ⟨placed,_⟩ | ⟨slots,placed,_,rep',_⟩ := place_repr rep ahead close inside
          · simp [placed] at among
          · rw [placed] at among
            simp only at among
            split at among
            · rw [List.mem_singleton.mp among,seqOf_succ]
              exact rep'.indexFits (by omega) (by omega)
            · cases among
  | read maxLen =>
      obtain ⟨head,found,count⟩ := rep.readIndex fits
      obtain ⟨w',r',bytes,looped,rep',read,length,_⟩ := readLoop_repr maxLen
        (h.window.incomingPackets.length + 1) (seqNrDiff head.seqNr h.window.firstSeqNr) [] rep (by omega) (by omega)
      have ready' := rep'.valid.ready
      have bound' := rep'.last_le rep'.valid
      have first := rep.indexFits (m := r.first) behind (by omega)
      have second := rep'.indexFits (m := r'.first) rep'.behind (by omega)
      rw [← rep.firstSeqNr fits] at first
      rw [← rep'.firstSeqNr (List.ne_nil_of_length_pos (length ▸ List.length_pos_of_ne_nil fits))] at second
      simp only [LocalWindow.lookups,found,looped]
      simpa using ⟨first,second⟩

-- Along a run whose calls all fit, last_seq_nr only passes packets that were
-- stored, and every index is the index of the number it was computed for.
theorem no_false_acknowledgement (lsn : UInt16) (calls : List Call) (fit : EachFits (.start lsn) calls) :
    Everywhere (fun h => NoFalseAck lsn h ∧
      ∀ c, Fits h.window c → ∀ lookup ∈ h.window.lookups c, IndexFits lookup) (.start lsn) calls := by
  have along : ∀ calls h front r, Counted lsn h front r → EachFits h calls →
      Everywhere (fun h => NoFalseAck lsn h ∧
        ∀ c, Fits h.window c → ∀ lookup ∈ h.window.lookups c, IndexFits lookup) h calls := by
    intro calls
    induction calls with
    | nil =>
        intro h front r counted _
        exact ⟨counted.noFalseAck,fun c fits => lookups_fit counted fits⟩
    | cons c rest ih =>
        intro h front r counted fit
        obtain ⟨h',front',r',called,counted'⟩ := call_counted counted fit.1
        exact ⟨⟨counted.noFalseAck,fun c fits => lookups_fit counted fits⟩,h',called,
          ih h' front' r' counted' (fit.2 h' called)⟩
  exact along calls _ _ _ (start_counted lsn) fit

def oneByte : Buffer := ⟨[0],by decide⟩

def inOrder (n : Nat) : Call := .packetReceived (seqOf n) oneByte 0 (by decide)

theorem no_false_acknowledgement_wrapping :
    EachFits (.start 65535) [inOrder 1,inOrder 0,.read 1] ∧
    Everywhere (fun h => NoFalseAck 65535 h ∧
      ∀ c, Fits h.window c → ∀ lookup ∈ h.window.lookups c, IndexFits lookup) (.start 65535)
      [inOrder 1,inOrder 0,.read 1] := by
  have fit : EachFits (.start 65535) [inOrder 1,inOrder 0,.read 1] := by
    refine ⟨fun _ _ => by decide,fun h first => ⟨?_,fun h' second => ⟨?_,fun _ _ => trivial⟩⟩⟩
    · cases first
      exact fun _ _ => by decide
    · cases first
      cases second
      exact List.cons_ne_nil _ _
  exact ⟨fit,no_false_acknowledgement 65535 _ fit⟩

def History.run : History → List Call → Option History
  | h,[] => some h
  | h,c :: rest =>
      match h.call c with
      | none => none
      | some h' => h'.run rest

theorem run_append (ran : History.run h calls = some h') : h.run (calls ++ rest) = h'.run rest := by
  induction calls generalizing h with
  | nil =>
      cases ran
      rfl
  | cons c calls ih =>
      rw [List.cons_append]
      rw [History.run] at ran ⊢
      split at ran
      · cases ran
      · exact ih ran

-- Packets of one byte each that arrive in order and that nobody reads.
structure Unread (h : History) (count : Nat) (r : Reassembly UInt8) : Prop where
  repr : Repr h.window 1 r
  base : r.base = 0
  last : r.last = count
  first : r.first = 1
  ahead : ∀ n, count < n → r.got n = none
  reached : h.reached = count
  stored : ∀ n ∈ h.stored, n ≤ count
  space : h.window.windowSpace.toNat + count = 131072

theorem inOrder_unread (unread : Unread h count r) (short : count < 32768) :
    ∃ h' r', h.call (inOrder (count + 1)) = some h' ∧ Unread h' (count + 1) r' := by
  obtain ⟨rep,base,last,first,ahead,reached,stored,space⟩ := unread
  subst last
  have late : seqNrCmpSE (seqOf (r.last + 1)) h.window.lastSeqNr = false := by
    rw [rep.lastSeqNr,seqNrCmpSE_seqOf (by omega) (by omega)]
    simp
  have count : countOf r.last h.window (seqOf (r.last + 1)) = r.last + 1 := by
    rw [countOf,rep.lastSeqNr,seqOf_sub_toNat (by omega) (by omega)]
    omega
  have near : h.window.nearFront (seqOf (r.last + 1)) := by
    rw [LocalWindow.nearFront,rep.frontSeqNr,decide_eq_true_iff,UInt16.lt_iff_toNat_lt,
      seqOf_sub_toNat (by omega) (by omega)]
    show r.last + 1 - 1 < 32768
    omega
  have one : (oneByte.size - 0).toNat = 1 := by decide
  have room : ¬ h.window.windowSpace < oneByte.size - 0 := by
    rw [UInt32.lt_iff_toNat_lt,one]
    omega
  have fits : seqNrCmpSE (seqOf (r.last + 1)) h.window.lastSeqNr = false → ¬ h.window.windowSpace < oneByte.size - 0 →
      (0 : UInt32) ≤ oneByte.size ∧ h.window.nearFront (seqOf (r.last + 1)) := fun _ _ => ⟨by decide,near⟩
  obtain ⟨_,again⟩ | ⟨_,_,full⟩ | ⟨w',upTo,result,_,_,rep',later,_,space',_⟩ :=
    packetReceived_repr rep fits
  · rw [late,count,rep.valid.gap] at again
    simp at again
  · exact absurd full room
  · rw [count] at rep'
    have valid := rep'.valid
    have here : ∀ n, r.last + 1 < n → (r.store (r.last + 1) (oneByte.data.drop (0 : UInt32).toNat) upTo).got n = none := by
      intro n far
      exact (Function.update_of_ne (show n ≠ r.last + 1 by omega) _ _).trans (ahead n (by omega))
    have upTo_eq : upTo = r.last + 1 := by
      have least : upTo ≠ r.last := by
        rintro rfl
        have gap := valid.gap
        simp [Reassembly.store] at gap
      by_contra other
      exact valid.received upTo (by show r.base < upTo; omega) (Nat.le_refl _) (here upTo (by omega))
    refine ⟨⟨w',h.moved w',countOf h.reached h.window (seqOf (r.last + 1)) :: h.stored⟩,_,
      by simp only [History.call,inOrder,result],rep',base,upTo_eq,first,here,?_,?_,?_⟩
    · have moved := rep.moved rep' later (by omega)
      show h.reached + (w'.lastSeqNr - h.window.lastSeqNr).toNat = r.last + 1
      rw [reached,moved]
      exact upTo_eq
    · intro n among
      rw [reached,count] at among
      obtain rfl | old := List.mem_cons.mp among
      · exact Nat.le_refl _
      · exact Nat.le_succ_of_le (stored n old)
    · have size : oneByte.data.length = 1 := rfl
      have zero : (0 : UInt32).toNat = 0 := rfl
      show w'.windowSpace.toNat + (r.last + 1) = 131072
      omega

theorem inOrder_run (count : Nat) (short : count ≤ 32768) :
    ∃ h r, (History.start 0).run ((List.range' 1 count).map inOrder) = some h ∧ Unread h count r := by
  induction count with
  | zero =>
      refine ⟨_,_,rfl,(start_counted 0).repr,rfl,rfl,rfl,fun _ _ => rfl,rfl,?_,rfl⟩
      intro n none
      cases none
  | succ count ih =>
      obtain ⟨h,r,ran,unread⟩ := ih (by omega)
      obtain ⟨h',r',called,unread'⟩ := inOrder_unread unread (by omega)
      refine ⟨h',r',?_,unread'⟩
      rw [List.range'_concat,List.map_append,run_append ran,List.map_singleton,Nat.one_mul,Nat.add_comm 1,
        History.run,called]
      rfl

theorem Unread.held (unread : Unread h count r) (short : j < count) :
    ∃ pkt packet, h.window.incomingPackets[j]? = some pkt ∧ pkt.packet = some packet := by
  obtain ⟨rep,base,last,first,ahead,_⟩ := unread
  have bound := rep.last_lt rep.valid
  obtain ⟨pkt,inside⟩ : ∃ pkt, h.window.incomingPackets[j]? = some pkt := ⟨_,List.getElem?_eq_getElem (by omega)⟩
  cases present : pkt.packet with
  | some packet => exact ⟨pkt,packet,inside,present⟩
  | none =>
      have missing := ((rep.slot j pkt inside).missing present).resolve_left (by omega)
      exact absurd missing (rep.valid.received _ (by omega) (by omega))

-- With 32768 slots in front of it the next packet in order is stored, and then
-- SeqNrDiff(front, next_seq_nr) is 32767 and not 32769: the loop starts two slots
-- too early and takes both packets there for packets after the new one.
theorem advance_overrun {w : LocalWindow} (dataSize : UInt32)
    (slots : w.incomingPackets = held ++ [⟨seqOf 32769,some oneByte,0⟩])
    (length : held.length = 32768) (head : held.head? = some front) (front_eq : front.seqNr = seqOf 1)
    (inside : held[32767]? = some pkt) (present : pkt.packet = some packet) (last : w.lastSeqNr = seqOf 32768) :
    ∃ w', w.advance (seqOf 32769) dataSize = some w' ∧ w'.lastSeqNr = seqOf 32771 := by
  have start : w.incomingPackets.head? = some front := by
    rw [slots,List.head?_append,head]
    rfl
  have fuel : w.incomingPackets.length + 1 = 32767 + 3 := by
    rw [slots,List.length_append,length]
    rfl
  have first : w.incomingPackets[32767]? = some pkt := by
    rw [slots,List.getElem?_append_left (by omega),inside]
  have second : w.incomingPackets[32768]? = some ⟨seqOf 32769,some oneByte,0⟩ := by
    rw [slots,List.getElem?_append_right (by omega),length]
    rfl
  have third : w.incomingPackets[32769]? = none := by
    rw [List.getElem?_eq_none_iff]
    omega
  have index : seqNrDiff (seqOf 1) (seqOf 32769 + 1) = 32767 := by decide
  have index' : (32767 : UInt16).toNat = 32767 ∧ ((32767 : UInt16) + 1).toNat = 32768 ∧
      ((32767 : UInt16) + 1 + 1).toNat = 32769 := by decide
  rw [LocalWindow.advance,start]
  simp only [last,fuel,front_eq,index]
  rw [if_pos (by decide)]
  simp only [LocalWindow.advanceLoop,index',first,second,third,present]
  have number : seqOf 32769 + 1 + 1 = seqOf 32771 := by decide
  exact ⟨_,rfl,number⟩

theorem overrun (unread : Unread h 32768 r) : ∃ h', h.call (inOrder 32769) = some h' ∧ h'.reached = 32771 ∧
    ∀ n ∈ h'.stored, n ≤ 32769 := by
  obtain ⟨pkt,packet,inside,present⟩ := unread.held (j := 32767) (by omega)
  obtain ⟨rep,base,last,first,ahead,reached,stored,space⟩ := unread
  have length : h.window.incomingPackets.length = 32768 := by
    have bound := rep.last_lt rep.valid
    have span := rep.span
    omega
  have any : h.window.incomingPackets ≠ [] := List.ne_nil_of_length_pos (by omega)
  have head := List.head?_eq_some_head any
  have lastSeqNr : h.window.lastSeqNr = seqOf 32768 := by rw [rep.lastSeqNr,last]
  have back : (h.window.incomingPackets.getLast any).seqNr = seqOf 32768 := by
    rw [rep.back_seqNr (List.getLast?_eq_some_getLast any),length]
  have placed : ∃ w' : LocalWindow, h.window.place (seqOf 32769) oneByte 0 = .placed w' ∧ w'.lastSeqNr = seqOf 32768 ∧
      w'.incomingPackets = h.window.incomingPackets ++ [⟨seqOf 32769,some oneByte,0⟩] := by
    rw [LocalWindow.place,head,List.getLast?_eq_some_getLast any]
    simp only [back]
    rw [if_pos (by decide),seqOf_succ,gaps_seqOf (Nat.le_refl _) (by omega)]
    exact ⟨_,rfl,lastSeqNr,by simp⟩
  obtain ⟨w',placed,last',slots⟩ := placed
  obtain ⟨w'',advanced,last''⟩ := advance_overrun (oneByte.size - 0) slots length head
    (rep.head_seqNr head) inside present last'
  have one : (oneByte.size - 0).toNat = 1 := by decide
  have room : ¬ h.window.windowSpace < oneByte.size - 0 := by
    rw [UInt32.lt_iff_toNat_lt,one]
    omega
  obtain ⟨w₂,result,last₂⟩ : ∃ w₂, h.window.packetReceived (seqOf 32769) oneByte 0 = some (w₂,.stored) ∧
      w₂.lastSeqNr = seqOf 32771 := by
    rw [LocalWindow.packetReceived,lastSeqNr,if_neg (by decide)]
    simp only [placed,advanced]
    rw [if_neg room]
    exact ⟨_,rfl,last''⟩
  have count : countOf h.reached h.window (seqOf 32769) = 32769 := by
    rw [countOf,lastSeqNr,reached]
    decide
  refine ⟨⟨w₂,h.moved w₂,countOf h.reached h.window (seqOf 32769) :: h.stored⟩,
    by simp only [History.call,inOrder,result],?_,?_⟩
  · show h.reached + (w₂.lastSeqNr - h.window.lastSeqNr).toNat = 32771
    rw [lastSeqNr,last₂,reached]
    decide
  · intro n among
    rw [count] at among
    obtain rfl | old := List.mem_cons.mp among
    · exact Nat.le_refl _
    · exact Nat.le_succ_of_le (stored n old)

theorem unread_packets_acknowledge_too_much :
    ∃ h, (History.start 0).run ((List.range' 1 32769).map inOrder) = some h ∧ h.reached = 32771 ∧
      32770 ∉ h.stored ∧ ¬ NoFalseAck 0 h := by
  obtain ⟨h,r,ran,unread⟩ := inOrder_run 32768 (Nat.le_refl _)
  obtain ⟨h',called,reached,stored⟩ := overrun unread
  have missing : 32770 ∉ h'.stored := by
    intro among
    have bound := stored 32770 among
    omega
  refine ⟨h',?_,reached,missing,?_⟩
  · rw [show (32769 : Nat) = 32768 + 1 from rfl,List.range'_concat,List.map_append,run_append ran,List.map_singleton]
    rw [show 1 + 1 * 32768 = 32769 from rfl,History.run,called]
    rfl
  · intro claimed
    exact missing (claimed 32770 (by decide) (by omega))

end KtorrentStream.Utp
