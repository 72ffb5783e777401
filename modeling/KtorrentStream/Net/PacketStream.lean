import KtorrentStream.Net.PacketSocket
import Mathlib.Data.List.Nodup
set_option autoImplicit true

namespace KtorrentStream.Net
open Util Download

namespace Cipher
variable (cipher : Cipher σ)

theorem after_snoc (enc : σ) (front : List (List UInt8)) (data : List UInt8) :
    cipher.after enc (front ++ [data]) = (cipher.encrypt (cipher.after enc front) data).1 := by
  induction front generalizing enc with
  | nil => rfl
  | cons head front more => exact more _

theorem encryptAll_snoc (enc : σ) (front : List (List UInt8)) (data : List UInt8) :
    cipher.encryptAll enc (front ++ [data]) = cipher.encryptAll enc front ++ (cipher.encrypt (cipher.after enc front) data).2 := by
  induction front generalizing enc with
  | nil => simp [encryptAll,after]
  | cons head front more =>
    simp only [List.cons_append,encryptAll,after,List.append_assoc]
    rw [more]

end Cipher

theorem Sendable.length (sendable : Sendable packet) : packet.data.length = packet.size := by
  obtain ⟨data,length,filled,_⟩ := sendable.1.framed
  rw [data,List.length_append,writeUint32_length]
  omega

namespace PacketSocket

section Log
variable (log : List Event) (e : Event)

theorem filterMap_snoc (f : α → Option β) (l : List α) (a : α) : (l ++ [a]).filterMap f = l.filterMap f ++ (f a).toList := by
  rw [List.filterMap_append]
  cases found : f a <;> simp [found]

@[simp] theorem added_snoc : added (log ++ [e]) = added log ++ e.addition.toList := filterMap_snoc _ _ _

@[simp] theorem selected_snoc : selected (log ++ [e]) = selected log ++ e.selection.toList := filterMap_snoc _ _ _

@[simp] theorem sent_snoc : sent (log ++ [e]) = sent log ++ e.sending.toList := filterMap_snoc _ _ _

@[simp] theorem dropped_snoc : dropped (log ++ [e]) = dropped log ++ e.drop.toList := filterMap_snoc _ _ _

@[simp] theorem rejects_snoc : rejects (log ++ [e]) = rejects log ++ e.rejection.toList := filterMap_snoc _ _ _

@[simp] theorem wire_snoc : wire (log ++ [e]) = wire log ++ e.bytes := by simp [wire]

@[simp] theorem controlSince_snoc : controlSince (log ++ [e]) = e.count (controlSince log) := by simp [controlSince]

end Log

-- What the device has of the current packet.
def started (s : PacketSocket σ) : List UInt8 :=
  match s.currPacket with
  | none => []
  | some p => (s.data p.id).take (s.written p.id)

def queueOf (s : PacketSocket σ) (p : Queued) : List Queued := if p.isData then s.dataPackets else s.controlPackets

structure Kept (cipher : Cipher σ) (start : σ) (s : PacketSocket σ) : Prop where
  numbered : (added s.log).map Queued.id = List.range s.count
  sendable : ∀ p ∈ added s.log, Sendable p.packet
  control : (sent s.log).filter (fun p => !p.isData) ++ s.controlPackets = (added s.log).filter fun p => !p.isData
  pieces : (sent s.log).filter (fun p => p.isData) ++ s.dataPackets =
    (added s.log).filter fun p => p.isData && !((dropped s.log).map (·.1.id)).contains p.id
  chosen : selected s.log = sent s.log ++ s.currPacket.toList
  front : ∀ p, s.currPacket = some p → (s.queueOf p).head? = some p
  cipherState : s.enc = cipher.after start ((selected s.log).map (·.packet.data))
  encrypted : ∀ p, s.currPacket = some p →
    s.data p.id = (cipher.encrypt (cipher.after start ((sent s.log).map (·.packet.data))) p.packet.data).2
  stream : wire s.log = cipher.encryptAll start ((sent s.log).map (·.packet.data)) ++ s.started
  fresh : ∀ p ∈ added s.log, p ∉ selected s.log → s.data p.id = p.packet.data ∧ s.written p.id = 0
  drops : ∀ d ∈ dropped s.log, d.1.isData = true ∧ d.1 ∈ added s.log ∧ d.1 ∉ selected s.log
  dropsOnce : ((dropped s.log).map (·.1.id)).Nodup
  counted : s.ctrlPacketsSent ≤ controlSince s.log

theorem create_kept (cipher : Cipher σ) (start : σ) : Kept cipher start (create start) where
  numbered := rfl
  sendable := by simp [create,added]
  control := rfl
  pieces := rfl
  chosen := rfl
  front := by simp [create]
  cipherState := rfl
  encrypted := by simp [create]
  stream := rfl
  fresh := by simp [create,added]
  drops := by simp [create,dropped]
  dropsOnce := by simp [create,dropped]
  counted := by simp [create]

namespace Kept
variable {cipher : Cipher σ} {start : σ} {s : PacketSocket σ}

theorem nodup (kept : Kept cipher start s) : ((added s.log).map Queued.id).Nodup := by
  rw [kept.numbered]
  exact List.nodup_range

theorem id_lt (kept : Kept cipher start s) (was : p ∈ added s.log) : p.id < s.count := by
  have mem : p.id ∈ (added s.log).map Queued.id := List.mem_map_of_mem was
  rwa [kept.numbered,List.mem_range] at mem

theorem same (kept : Kept cipher start s) (left : p ∈ added s.log) (right : q ∈ added s.log) (ids : p.id = q.id) : p = q :=
  List.inj_on_of_nodup_map kept.nodup left right ids

theorem of_control (kept : Kept cipher start s) (mem : p ∈ s.controlPackets) : p ∈ added s.log ∧ p.isData = false := by
  have all : p ∈ (added s.log).filter fun p => !p.isData := kept.control ▸ List.mem_append_right _ mem
  simpa using all

theorem of_pieces (kept : Kept cipher start s) (mem : p ∈ s.dataPackets) :
    (p ∈ added s.log ∧ p.isData = true) ∧ p.id ∉ (dropped s.log).map (·.1.id) := by
  have all : p ∈ (added s.log).filter fun p => p.isData && !((dropped s.log).map (·.1.id)).contains p.id :=
    kept.pieces ▸ List.mem_append_right _ mem
  rw [List.mem_filter,Bool.and_eq_true,Bool.not_eq_true',List.contains_eq_mem,decide_eq_false_iff_not] at all
  exact ⟨⟨all.1,all.2.1⟩,all.2.2⟩

theorem queued_not_sent (kept : Kept cipher start s) (mem : p ∈ s.queueOf p) : p ∉ sent s.log := by
  intro already
  have once : (added s.log).Nodup := List.Nodup.of_map _ kept.nodup
  unfold queueOf at mem
  by_cases isData : p.isData = true
  · rw [if_pos isData] at mem
    have apart := kept.pieces ▸ once.filter _
    exact List.disjoint_of_nodup_append apart (List.mem_filter.mpr ⟨already,isData⟩) mem
  · rw [if_neg isData] at mem
    have apart := kept.control ▸ once.filter _
    exact List.disjoint_of_nodup_append apart (List.mem_filter.mpr ⟨already,by simpa using isData⟩) mem

theorem queued_added (kept : Kept cipher start s) (mem : p ∈ s.queueOf p) : p ∈ added s.log := by
  unfold queueOf at mem
  split at mem
  · exact (kept.of_pieces mem).1.1
  · exact (kept.of_control mem).1

theorem front_mem (kept : Kept cipher start s) (current : s.currPacket = some p) : p ∈ s.queueOf p :=
  List.mem_of_mem_head? (kept.front p current)

theorem sent_added (kept : Kept cipher start s) (already : p ∈ sent s.log) : p ∈ added s.log := by
  by_cases isData : p.isData = true
  · have mem : p ∈ (sent s.log).filter fun p => p.isData := List.mem_filter.mpr ⟨already,isData⟩
    exact (List.mem_filter.mp (kept.pieces ▸ List.mem_append_left s.dataPackets mem)).1
  · have mem : p ∈ (sent s.log).filter fun p => !p.isData := List.mem_filter.mpr ⟨already,by simpa using isData⟩
    exact (List.mem_filter.mp (kept.control ▸ List.mem_append_left s.controlPackets mem)).1

theorem selected_added (kept : Kept cipher start s) (chosen : p ∈ selected s.log) : p ∈ added s.log := by
  rw [kept.chosen,List.mem_append,Option.mem_toList] at chosen
  rcases chosen with already | current
  · exact kept.sent_added already
  · exact kept.queued_added (kept.front_mem current)

theorem sent_nodup (kept : Kept cipher start s) : (sent s.log).Nodup := by
  have once : (added s.log).Nodup := List.Nodup.of_map _ kept.nodup
  have pieces := (List.nodup_append.mp (kept.pieces ▸ once.filter _)).1
  have control := (List.nodup_append.mp (kept.control ▸ once.filter _)).1
  refine (List.filter_append_perm Queued.isData (sent s.log)).nodup_iff.mp (List.nodup_append.mpr ⟨pieces,control,?_⟩)
  intro p data q other eq
  simp_all [List.mem_filter]

-- A new packet has a number of its own and stands behind the others of its queue.
theorem current_ne (kept : Kept cipher start s) (current : s.currPacket = some p) : p.id ≠ s.count :=
  Nat.ne_of_lt (kept.id_lt (kept.queued_added (kept.front_mem current)))

theorem not_dropped (kept : Kept cipher start s) : s.count ∉ (dropped s.log).map (·.1.id) := by
  intro mem
  obtain ⟨d,drop,id⟩ := List.mem_map.mp mem
  exact Nat.ne_of_lt (kept.id_lt (kept.drops d drop).2.1) id

theorem addPacket (kept : Kept cipher start s) (sendable : Sendable packet) (rejects : Option Nat) :
    Kept cipher start (s.addPacket packet rejects) where
  numbered := by simp [PacketSocket.addPacket,kept.numbered,List.range_succ]
  sendable := by
    simp only [PacketSocket.addPacket,added_snoc,Event.addition,Option.toList_some,List.mem_append,List.mem_singleton]
    rintro p (was | rfl)
    · exact kept.sendable p was
    · exact sendable
  control := by
    have before := kept.control
    simp only [PacketSocket.addPacket,added_snoc,sent_snoc,Event.addition,Event.sending,Option.toList_some,Option.toList_none,
      List.append_nil,List.filter_append,← before]
    split <;> rename_i isData <;> simp [isData]
  pieces := by
    have before := kept.pieces
    have kind : ((⟨s.count,packet⟩ : Queued).isData && !((dropped s.log).map (·.1.id)).contains s.count) = (⟨s.count,packet⟩ : Queued).isData := by
      rw [List.contains_eq_mem,decide_eq_false kept.not_dropped,Bool.not_false,Bool.and_true]
    simp only [PacketSocket.addPacket,added_snoc,sent_snoc,dropped_snoc,Event.addition,Event.sending,Event.drop,Option.toList_some,
      Option.toList_none,List.append_nil,List.filter_append,← before,List.filter_cons,kind]
    split <;> simp
  chosen := by simpa [PacketSocket.addPacket] using kept.chosen
  front := by
    intro p current
    have front := kept.front p current
    unfold queueOf at front ⊢
    cases isData : p.isData with
    | true =>
      rw [isData,if_pos rfl] at front
      simp only [PacketSocket.addPacket,if_true]
      split <;> simp [front]
    | false =>
      rw [isData,if_neg Bool.false_ne_true] at front
      simp only [PacketSocket.addPacket,Bool.false_eq_true,if_false]
      split <;> simp [front]
  cipherState := by simpa [PacketSocket.addPacket] using kept.cipherState
  encrypted := by
    intro p current
    simpa [PacketSocket.addPacket,Function.update_of_ne (kept.current_ne current)] using kept.encrypted p current
  stream := by
    have same : (s.addPacket packet rejects).started = s.started := by
      unfold started
      cases current : s.currPacket with
      | none => simp [PacketSocket.addPacket,current]
      | some p => simp [PacketSocket.addPacket,current,Function.update_of_ne (kept.current_ne current)]
    rw [same]
    simpa [PacketSocket.addPacket] using kept.stream
  fresh := by
    simp only [PacketSocket.addPacket,added_snoc,selected_snoc,Event.addition,Event.selection,Option.toList_some,Option.toList_none,
      List.append_nil,List.mem_append,List.mem_singleton]
    rintro p (was | rfl) unselected
    · have ne : p.id ≠ s.count := Nat.ne_of_lt (kept.id_lt was)
      rw [Function.update_of_ne ne,Function.update_of_ne ne]
      exact kept.fresh p was unselected
    · simp
  drops := by
    simp only [PacketSocket.addPacket,dropped_snoc,added_snoc,selected_snoc,Event.drop,Event.addition,Event.selection,Option.toList_some,
      Option.toList_none,List.append_nil,List.mem_append]
    intro d drop
    obtain ⟨isData,was,unselected⟩ := kept.drops d drop
    exact ⟨isData,.inl was,unselected⟩
  dropsOnce := by simpa [PacketSocket.addPacket] using kept.dropsOnce
  counted := by simpa [PacketSocket.addPacket] using kept.counted

theorem current_selected (kept : Kept cipher start s) (current : s.currPacket = some p) : p ∈ selected s.log := by
  rw [kept.chosen,current]
  simp

theorem unselected_ne (kept : Kept cipher start s) (current : s.currPacket = some p) (was : q ∈ added s.log)
    (unselected : q ∉ selected s.log) : q.id ≠ p.id := by
  intro ids
  have eq := kept.same was (kept.queued_added (kept.front_mem current)) ids
  exact unselected (eq ▸ kept.current_selected current)

-- The device takes the bytes of the current packet one behind the other.
theorem send (kept : Kept cipher start s) (current : s.currPacket = some p) (maxToSend accept : Nat) :
    Kept cipher start (s.send p maxToSend accept).2 where
  numbered := by simpa [PacketSocket.send] using kept.numbered
  sendable := by simpa [PacketSocket.send] using kept.sendable
  control := by simpa [PacketSocket.send] using kept.control
  pieces := by simpa [PacketSocket.send] using kept.pieces
  chosen := by simpa [PacketSocket.send] using kept.chosen
  front := kept.front
  cipherState := by simpa [PacketSocket.send] using kept.cipherState
  encrypted := by simpa [PacketSocket.send] using kept.encrypted
  stream := by
    have before := kept.stream
    simp only [started,current] at before
    simp only [PacketSocket.send,started,current,wire_snoc,sent_snoc,Event.bytes,Event.sending,Option.toList_none,List.append_nil,
      Function.update_self,before,List.append_assoc,List.take_add]
  fresh := by
    simp only [PacketSocket.send,added_snoc,selected_snoc,Event.addition,Event.selection,Option.toList_none,List.append_nil]
    intro q was unselected
    rw [Function.update_of_ne (kept.unselected_ne current was unselected)]
    exact kept.fresh q was unselected
  drops := by simpa [PacketSocket.send] using kept.drops
  dropsOnce := by simpa [PacketSocket.send] using kept.dropsOnce
  counted := by simpa [PacketSocket.send] using kept.counted

theorem onData (kept : Kept cipher start s) (p : Queued) (ret : Nat) : Kept cipher start (s.onData p ret) := by
  unfold PacketSocket.onData
  split
  · exact ⟨kept.numbered,kept.sendable,kept.control,kept.pieces,kept.chosen,kept.front,kept.cipherState,kept.encrypted,kept.stream,
      kept.fresh,kept.drops,kept.dropsOnce,kept.counted⟩
  · exact kept

-- The packet at the front of its queue is the one that was sent, all of it.
theorem popFront (kept : Kept cipher start s) (current : s.currPacket = some p) (all : s.written p.id = p.packet.size) :
    Kept cipher start {s.popFront p with currPacket := none} := by
  have front := kept.front p current
  have encrypted := kept.encrypted p current
  have chosen : selected s.log = sent s.log ++ [p] := by
    rw [kept.chosen,current]
    rfl
  have stream : wire s.log = cipher.encryptAll start ((sent s.log ++ [p]).map (·.packet.data)) := by
    have size := (kept.sendable p (kept.queued_added (kept.front_mem current))).length
    have full : (s.data p.id).take (s.written p.id) = s.data p.id := by
      apply List.take_of_length_le
      rw [encrypted,cipher.encrypt_length,size,all]
    have part : s.started = (s.data p.id).take (s.written p.id) := by simp only [started,current]
    rw [kept.stream,part,full,List.map_append,List.map_singleton,cipher.encryptAll_snoc,encrypted]
  have fresh := kept.fresh
  have drops := kept.drops
  have cipherState := kept.cipherState
  have counted := kept.counted
  unfold PacketSocket.popFront
  unfold queueOf at front
  cases isData : p.isData with
  | true =>
    rw [isData,if_pos rfl] at front
    obtain ⟨rest,queue⟩ := List.head?_eq_some_iff.mp front
    rw [if_pos rfl]
    refine ⟨?_,?_,?_,?_,?_,by simp,?_,by simp,?_,?_,?_,?_,by simp⟩
    · simpa using kept.numbered
    · simpa using kept.sendable
    · simpa [isData] using kept.control
    · simpa [isData,queue] using kept.pieces
    · simpa using chosen
    · simpa using cipherState
    · simpa [started] using stream
    · simpa using fresh
    · simpa using drops
    · simpa using kept.dropsOnce
  | false =>
    rw [isData,if_neg Bool.false_ne_true] at front
    obtain ⟨rest,queue⟩ := List.head?_eq_some_iff.mp front
    rw [if_neg Bool.false_ne_true]
    refine ⟨?_,?_,?_,?_,?_,by simp,?_,by simp,?_,?_,?_,?_,?_⟩
    · simpa using kept.numbered
    · simpa using kept.sendable
    · simpa [isData,queue] using kept.control
    · simpa [isData] using kept.pieces
    · simpa using chosen
    · simpa using cipherState
    · simpa [started] using stream
    · simpa using fresh
    · simpa using drops
    · simpa using kept.dropsOnce
    · simp only [controlSince_snoc,Event.count,isData,Bool.false_eq_true,if_false]
      exact Nat.le_trans (Nat.mod_le _ _) (Nat.succ_le_succ counted)

-- What selectPacket takes is the front of its queue, and a piece goes before a
-- control packet only when ctrl_packets_sent has come to three.
theorem nextPacket (kept : Kept cipher start s) (next : s.nextPacket = (o,now)) :
    now ≤ s.ctrlPacketsSent ∧ ∀ p, o = some p → (s.queueOf p).head? = some p ∧
      (p.isData = true → s.controlPackets ≠ [] → 3 ≤ s.ctrlPacketsSent) := by
  have ofControl : ∀ p, s.controlPackets.head? = some p → p.isData = false ∧ (s.queueOf p).head? = some p := by
    intro p head
    have isData := (kept.of_control (List.mem_of_mem_head? head)).2
    exact ⟨isData,by simpa [queueOf,isData] using head⟩
  have ofPieces : ∀ p, s.dataPackets.head? = some p → (s.queueOf p).head? = some p := by
    intro p head
    have isData := (kept.of_pieces (List.mem_of_mem_head? head)).1.2
    simpa [queueOf,isData] using head
  unfold PacketSocket.nextPacket at next
  split at next <;> split at next <;> cases next
  · rename_i q rest queue
    refine ⟨Nat.le_refl _,fun p eq => ?_⟩
    cases eq
    obtain ⟨isData,head⟩ := ofControl q (by rw [queue]; rfl)
    exact ⟨head,fun data => absurd (isData.symm.trans data) Bool.false_ne_true⟩
  · rename_i empty
    exact ⟨Nat.le_refl _,fun p head => ⟨ofPieces p head,fun _ some => absurd empty some⟩⟩
  · rename_i enough _ q rest queue
    refine ⟨Nat.zero_le _,fun p eq => ?_⟩
    cases eq
    exact ⟨ofPieces q (by rw [queue]; rfl),fun _ _ => Nat.le_of_not_lt enough⟩
  · rename_i enough _ empty
    exact ⟨Nat.le_refl _,fun p head => ⟨(ofControl p head).2,fun _ _ => Nat.le_of_not_lt enough⟩⟩

-- A packet is encrypted when it is selected, so it is encrypted behind the packets
-- that were sent, and the bytes it had when it was added.
theorem selectPacket (kept : Kept cipher start s) (idle : s.currPacket = none) : Kept cipher start (s.selectPacket cipher) := by
  have chosen : selected s.log = sent s.log := by simp [kept.chosen,idle]
  have stream : wire s.log = cipher.encryptAll start ((sent s.log).map (·.packet.data)) := by simp [kept.stream,started,idle]
  unfold PacketSocket.selectPacket
  split
  · rename_i count next
    have less := (kept.nextPacket next).1
    exact {kept with
      chosen := by simpa using chosen
      front := by simp
      encrypted := by simp
      stream := by simpa [started] using stream
      counted := Nat.le_trans less kept.counted}
  · rename_i p count next
    obtain ⟨less,facts⟩ := kept.nextPacket next
    have front := (facts p rfl).1
    have mem : p ∈ s.queueOf p := List.mem_of_mem_head? front
    have unselected : p ∉ selected s.log := chosen ▸ kept.queued_not_sent mem
    have was := kept.queued_added mem
    have untouched := kept.fresh p was unselected
    have state := kept.cipherState
    rw [chosen] at state
    exact {
      numbered := by simpa [preProcess] using kept.numbered
      sendable := by simpa [preProcess] using kept.sendable
      control := by simpa [preProcess] using kept.control
      pieces := by simpa [preProcess] using kept.pieces
      chosen := by simpa [preProcess] using chosen
      front := by
        intro q eq
        cases eq
        exact front
      cipherState := by
        simp only [preProcess,selected_snoc,Event.selection,Option.toList_some,List.map_append,List.map_singleton,chosen,
          cipher.after_snoc,untouched.1,state]
      encrypted := by
        intro q eq
        cases eq
        simp [preProcess,untouched.1,state]
      stream := by
        simp only [preProcess,started,wire_snoc,sent_snoc,Event.bytes,Event.sending,Option.toList_none,List.append_nil,untouched.2,
          List.take_zero,stream]
      fresh := by
        simp only [preProcess,added_snoc,selected_snoc,Event.addition,Event.selection,Option.toList_none,Option.toList_some,
          List.append_nil,List.mem_append,List.mem_singleton,not_or]
        intro q wasToo ⟨unselected,ne⟩
        rw [Function.update_of_ne fun ids => ne (kept.same wasToo was ids)]
        exact kept.fresh q wasToo unselected
      drops := by
        simp only [preProcess,dropped_snoc,added_snoc,selected_snoc,Event.drop,Event.addition,Event.selection,Option.toList_none,
          Option.toList_some,List.append_nil,List.mem_append,List.mem_singleton,not_or]
        intro d drop
        obtain ⟨isData,wasToo,unselected⟩ := kept.drops d drop
        refine ⟨isData,wasToo,unselected,fun eq => ?_⟩
        subst eq
        have queued : d.1 ∈ s.dataPackets := by simpa [queueOf,isData] using mem
        exact (kept.of_pieces queued).2 (List.mem_map_of_mem drop)
      dropsOnce := by simpa [preProcess] using kept.dropsOnce
      counted := by
        simp only [preProcess,controlSince_snoc,Event.count]
        exact Nat.le_trans less kept.counted}

theorem untouched_unselected (kept : Kept cipher start s) (mem : p ∈ s.dataPackets) (untouched : s.untouched p = true) :
    p ∉ selected s.log := by
  have isData := (kept.of_pieces mem).1.2
  rw [PacketSocket.untouched,Bool.and_eq_true,bne_iff_ne] at untouched
  rw [kept.chosen,List.mem_append,Option.mem_toList,not_or]
  refine ⟨kept.queued_not_sent (by simpa [queueOf,isData] using mem),fun current => untouched.2 ?_⟩
  rw [current]
  rfl

-- A piece that goes was not selected, so it is none of those that were sent.
theorem erase (kept : Kept cipher start s) (mem : p ∈ s.dataPackets) (untouched : s.untouched p = true) (reject : Bool) :
    Kept cipher start (s.erase p reject) := by
  obtain ⟨⟨was,isData⟩,notDropped⟩ := kept.of_pieces mem
  have unselected := kept.untouched_unselected mem untouched
  have other : ∀ q ∈ selected s.log, q.id ≠ p.id := by
    intro q chosen ids
    exact unselected (kept.same (kept.selected_added chosen) was ids ▸ chosen)
  exact {
    numbered := by simpa [PacketSocket.erase] using kept.numbered
    sendable := by simpa [PacketSocket.erase] using kept.sendable
    control := by simpa [PacketSocket.erase] using kept.control
    pieces := by
      have stays : ((sent s.log).filter fun q => q.isData).filter (fun q => q.id != p.id) = (sent s.log).filter fun q => q.isData := by
        rw [List.filter_eq_self]
        intro q already
        have chosen : q ∈ selected s.log := by
          rw [kept.chosen]
          exact List.mem_append_left _ (List.mem_filter.mp already).1
        exact bne_iff_ne.mpr (other q chosen)
      have before := congrArg (List.filter fun q => q.id != p.id) kept.pieces
      rw [List.filter_append,stays,List.filter_filter] at before
      simp only [PacketSocket.erase,added_snoc,sent_snoc,dropped_snoc,Event.addition,Event.sending,Event.drop,Option.toList_none,
        Option.toList_some,List.append_nil,List.map_append,List.map_singleton]
      rw [before]
      congr 1
      funext q
      simp only [List.contains_eq_mem,List.mem_append,List.mem_singleton]
      by_cases ids : q.id = p.id <;> simp [ids]
    chosen := by simpa [PacketSocket.erase] using kept.chosen
    front := by
      intro q current
      have front := kept.front q current
      have ne := other q (kept.current_selected current)
      unfold queueOf at front ⊢
      split at front
      · rename_i isData
        obtain ⟨rest,queue⟩ := List.head?_eq_some_iff.mp front
        simp [PacketSocket.erase,isData,queue,ne]
      · rename_i isData
        simpa [PacketSocket.erase,isData] using front
    cipherState := by simpa [PacketSocket.erase] using kept.cipherState
    encrypted := by simpa [PacketSocket.erase] using kept.encrypted
    stream := by
      have same : (s.erase p reject).started = s.started := rfl
      rw [same]
      simpa [PacketSocket.erase] using kept.stream
    fresh := by simpa [PacketSocket.erase] using kept.fresh
    drops := by
      simp only [PacketSocket.erase,dropped_snoc,added_snoc,selected_snoc,Event.drop,Event.addition,Event.selection,Option.toList_none,
        Option.toList_some,List.append_nil,List.mem_append,List.mem_singleton]
      rintro d (drop | rfl)
      · exact kept.drops d drop
      · exact ⟨isData,was,unselected⟩
    dropsOnce := by
      simp only [PacketSocket.erase,dropped_snoc,Event.drop,Option.toList_some,List.map_append,List.map_singleton]
      exact List.nodup_append.mpr ⟨kept.dropsOnce,List.nodup_singleton _,by
        intro a drop b eq same
        rw [List.mem_singleton] at eq
        exact notDropped (eq ▸ same ▸ drop)⟩
    counted := by simpa [PacketSocket.erase] using kept.counted}

end Kept

section Events
variable {log log' : List Event} {e : Event}

theorem fair_snoc (fair : Fair log) (next : ∀ p, e = Event.selected p → p.isData = true →
    (∃ q, Waits log q ∧ q.isData = false) → 3 ≤ controlSince log) : Fair (log ++ [e]) := by
  intro before p behind split isData waits
  rcases List.eq_nil_or_concat behind with rfl | ⟨front,last,rfl⟩
  · obtain ⟨same,event⟩ := List.append_inj' split rfl
    cases event
    cases same
    exact next p rfl isData waits
  · rw [List.concat_eq_append,← List.cons_append,← List.append_assoc] at split
    exact fair before p front (List.append_inj' split rfl).1 isData waits

theorem fair_other (fair : Fair log) (other : e.selection = none) : Fair (log ++ [e]) :=
  fair_snoc fair fun p eq => by
    rw [eq] at other
    cases other

-- Each piece that was dropped with reject has its own reject.
structure Answered (log : List Event) : Prop where
  answered : (rejects log).map (·.2) = ((dropped log).filter (·.2)).map (·.1.id)
  answers : ∀ r ∈ rejects log, ∀ d ∈ dropped log, d.1.id = r.2 → RejectOf r.1 d.1.packet

theorem Answered.same (answered : Answered log) (rejected : rejects log' = rejects log) (drops : dropped log' = dropped log) :
    Answered log' := by
  obtain ⟨ids,answers⟩ := answered
  exact ⟨by rw [rejected,drops,ids],by rw [rejected,drops]; exact answers⟩

theorem Answered.rejected_dropped (answered : Answered log) (mem : r ∈ rejects log) : r.2 ∈ (dropped log).map (·.1.id) := by
  have ids : r.2 ∈ (rejects log).map (·.2) := List.mem_map_of_mem mem
  rw [answered.answered] at ids
  obtain ⟨d,drop,id⟩ := List.mem_map.mp ids
  exact List.mem_map.mpr ⟨d,(List.mem_filter.mp drop).1,id⟩

theorem Answered.drop_silently (answered : Answered log) (drops : dropped log' = dropped log ++ [(p,false)])
    (rejected : rejects log' = rejects log) (notDropped : p.id ∉ (dropped log).map (·.1.id)) : Answered log' := by
  refine ⟨?_,?_⟩
  · rw [rejected,drops,answered.answered,List.filter_append]
    simp
  · rw [rejected,drops]
    intro r mem d drop id
    rcases List.mem_append.mp drop with old | new
    · exact answered.answers r mem d old id
    · rw [List.mem_singleton] at new
      rw [new] at id
      exact absurd (id ▸ answered.rejected_dropped mem) notDropped

theorem Answered.drop_rejected (answered : Answered log) (drops : dropped log' = dropped log ++ [(p,true)])
    (rejected : rejects log' = rejects log ++ [(packet,p.id)]) (notDropped : p.id ∉ (dropped log).map (·.1.id))
    (right : RejectOf packet p.packet) : Answered log' := by
  refine ⟨?_,?_⟩
  · rw [rejected,drops,List.map_append,answered.answered,List.filter_append,List.map_append]
    rfl
  · rw [rejected,drops]
    intro r mem d drop id
    rcases List.mem_append.mp mem with oldReject | newReject <;> rcases List.mem_append.mp drop with old | new
    · exact answered.answers r oldReject d old id
    · rw [List.mem_singleton] at new
      rw [new] at id
      exact absurd (id ▸ answered.rejected_dropped oldReject) notDropped
    · rw [List.mem_singleton] at newReject
      rw [newReject] at id
      exact absurd (List.mem_map.mpr ⟨d,old,id⟩) notDropped
    · rw [List.mem_singleton] at new newReject
      rw [new,newReject]
      exact right

end Events

theorem writeUint32_mod (val : Nat) : writeUint32 (val % 4294967296) = writeUint32 val := by
  have byte : ∀ a b : Nat, a % 256 = b % 256 → UInt8.ofNat a = UInt8.ofNat b := fun a b eq => UInt8.toNat_inj.mp (by simpa using eq)
  unfold writeUint32
  rw [byte (val % 4294967296 / 16777216) (val / 16777216) (by omega),byte (val % 4294967296 / 65536) (val / 65536) (by omega),
    byte (val % 4294967296 / 256) (val / 256) (by omega),byte (val % 4294967296) val (by omega)]

theorem readUint32_written (val : Nat) (rest : List UInt8) : readUint32 (writeUint32 val ++ rest) 0 = val % 4294967296 := by
  rw [← writeUint32_mod,readUint32_write (Nat.mod_lt _ (by decide))]

theorem piece_fields (made : Packet.ofPiece index begin_ len memory = some piece) :
    readUint32 piece.data 5 = index % 4294967296 ∧ readUint32 piece.data 9 = begin_ % 4294967296 ∧
      uint32Sub piece.size 13 = len % 4294967296 := by
  obtain ⟨data,size,small⟩ := allocPacket_some made
  have room : piece.size = uint32 (13 + len) := by
    unfold Packet.ofPiece allocPacket at made
    split at made
    · cases made
      rfl
    · cases made
  have header : (writeUint32 (piece.size - 4) ++ [7]).length = 5 := rfl
  have second : (writeUint32 (piece.size - 4) ++ [7] ++ writeUint32 index).length = 9 := rfl
  have first : piece.data = (writeUint32 (piece.size - 4) ++ [7]) ++ (writeUint32 index ++ (writeUint32 begin_ ++ memory)) := by
    rw [data]
    simp
  have behind : piece.data = (writeUint32 (piece.size - 4) ++ [7] ++ writeUint32 index) ++ (writeUint32 begin_ ++ memory) := by
    rw [data]
    simp
  refine ⟨?_,?_,?_⟩
  · have read := readUint32_append (writeUint32 (piece.size - 4) ++ [7]) (writeUint32 index ++ (writeUint32 begin_ ++ memory)) 0
    rw [header,← first] at read
    rw [read,readUint32_written]
  · have read := readUint32_append (writeUint32 (piece.size - 4) ++ [7] ++ writeUint32 index) (writeUint32 begin_ ++ memory) 0
    rw [second,← behind] at read
    rw [read,readUint32_written]
  · simp only [List.length_append,writeUint32_length] at size
    rw [uint32Sub_of_le (by omega) small]
    unfold uint32 at room
    omega

-- A piece that still has the bytes it was added with can be rejected.
theorem makeRejectOfPiece_made {s : PacketSocket σ} (isData : p.isData = true)
    (fresh : s.data p.id = p.packet.data) :
    ∃ packet, s.makeRejectOfPiece p = some packet ∧ Sendable packet ∧ packet.type = 16 ∧ RejectOf packet p.packet := by
  unfold makeRejectOfPiece
  rw [if_pos isData,fresh]
  refine ⟨_,rfl,⟨.ofRequest rfl,fun type => by cases type⟩,rfl,?_⟩
  intro index begin_ len memory made
  obtain ⟨first,second,third⟩ := piece_fields made
  rw [first,second,third]
  simp only [Packet.ofRequest,allocPacket,writeUint32_mod]
  rfl

structure Sound (cipher : Cipher σ) (start : σ) (s : PacketSocket σ) : Prop where
  kept : Kept cipher start s
  answered : Answered s.log
  fair : Fair s.log

namespace Sound
variable {cipher : Cipher σ} {start : σ} {s : PacketSocket σ}

theorem create (cipher : Cipher σ) (start : σ) : Sound cipher start (create start) where
  kept := create_kept cipher start
  answered := ⟨rfl,by simp [PacketSocket.create,rejects]⟩
  fair := by
    intro before p behind split
    cases before <;> cases split

theorem addPacket (sound : Sound cipher start s) (sendable : Sendable packet) : Sound cipher start (s.addPacket packet none) where
  kept := sound.kept.addPacket sendable none
  answered := sound.answered.same (by simp [PacketSocket.addPacket]) (by simp [PacketSocket.addPacket])
  fair := fair_other sound.fair rfl

theorem send (sound : Sound cipher start s) (current : s.currPacket = some p) (maxToSend accept : Nat) :
    Sound cipher start (s.send p maxToSend accept).2 where
  kept := sound.kept.send current maxToSend accept
  answered := sound.answered.same (by simp [PacketSocket.send]) (by simp [PacketSocket.send])
  fair := fair_other sound.fair rfl

theorem onData (sound : Sound cipher start s) (p : Queued) (ret : Nat) : Sound cipher start (s.onData p ret) := by
  have log : (s.onData p ret).log = s.log := by
    unfold PacketSocket.onData
    split <;> rfl
  exact ⟨sound.kept.onData p ret,log ▸ sound.answered,log ▸ sound.fair⟩

theorem popFront (sound : Sound cipher start s) (current : s.currPacket = some p) (all : s.written p.id = p.packet.size) :
    Sound cipher start {s.popFront p with currPacket := none} := by
  have log : (s.popFront p).log = s.log ++ [.sent p] := by
    unfold PacketSocket.popFront
    split <;> rfl
  refine ⟨sound.kept.popFront current all,sound.answered.same ?_ ?_,?_⟩
  · simp [log]
  · simp [log]
  · show Fair (s.popFront p).log
    rw [log]
    exact fair_other sound.fair rfl

theorem control_waits (sound : Sound cipher start s) (waits : Waits s.log q) (control : q.isData = false) : s.controlPackets ≠ [] := by
  intro empty
  have all := sound.kept.control
  rw [empty,List.append_nil] at all
  have mem : q ∈ (added s.log).filter fun p => !p.isData := List.mem_filter.mpr ⟨waits.1,by simp [control]⟩
  rw [← all] at mem
  exact waits.2 (List.mem_filter.mp mem).1

theorem selectPacket (sound : Sound cipher start s) (idle : s.currPacket = none) : Sound cipher start (s.selectPacket cipher) := by
  have kept := sound.kept.selectPacket idle
  unfold PacketSocket.selectPacket at kept ⊢
  split
  · rename_i next
    rw [next] at kept
    exact ⟨kept,sound.answered,sound.fair⟩
  · rename_i p now next
    rw [next] at kept
    refine ⟨kept,sound.answered.same (by simp [preProcess]) (by simp [preProcess]),?_⟩
    apply fair_snoc sound.fair
    intro q eq isData ⟨c,waits,control⟩
    cases eq
    have enough := ((sound.kept.nextPacket next).2 p rfl).2 isData (sound.control_waits waits control)
    exact Nat.le_trans enough sound.kept.counted

-- selectPacket does not look at curr_packet.
theorem selectPacket_any (sound : Sound cipher start {s with currPacket := none}) : Sound cipher start (s.selectPacket cipher) :=
  sound.selectPacket rfl

theorem writeLoop (sound : Sound cipher start s) (max : Nat) (accepts : List Nat) (written : Nat) :
    Sound cipher start (s.writeLoop cipher max accepts written).2 := by
  induction accepts generalizing s written with
  | nil => exact sound
  | cons accept accepts more =>
    unfold PacketSocket.writeLoop
    split
    · exact sound
    · rename_i p current
      split
      · generalize (if max = 0 then 0 else max - written) = limit
        have taken := sound.send current limit accept
        have next := taken.onData p (s.send p limit accept).1
        have stays : ((s.send p limit accept).2.onData p (s.send p limit accept).1).currPacket = some p := by
          unfold PacketSocket.onData
          split <;> exact current
        dsimp only
        split
        · split
          · rename_i all
            exact more (selectPacket_any (next.popFront stays all)) _
          · exact next
        · exact taken
      · exact sound

theorem write (sound : Sound cipher start s) (connecting : Bool) (max : Nat) (accepts : List Nat) :
    Sound cipher start (s.write cipher connecting max accepts).2 := by
  unfold PacketSocket.write
  split
  · exact sound
  · split
    · exact sound.writeLoop max accepts 0
    · rename_i idle
      exact (sound.selectPacket idle).writeLoop max accepts 0

theorem drop (sound : Sound cipher start s) (kept : Kept cipher start s') (log : s'.log = s.log ++ events)
    (fair : ∀ e ∈ events, e.selection = none) (answered : Answered s'.log) : Sound cipher start s' := by
  refine ⟨kept,answered,?_⟩
  rw [log]
  clear log answered kept
  induction events using List.reverseRecOn with
  | nil => simpa using sound.fair
  | append_singleton front e more =>
    rw [← List.append_assoc]
    exact fair_other (more fun e mem => fair e (List.mem_append_left _ mem)) (fair e (by simp))

-- One turn of a loop: the piece is dropped or stays, and the others stay.
def Turn (cipher : Cipher σ) (start : σ) (turn : PacketSocket σ → Queued → Option (PacketSocket σ)) : Prop :=
  ∀ s p, Sound cipher start s → p ∈ s.dataPackets →
    ∃ s', turn s p = some s' ∧ Sound cipher start s' ∧ ∀ q ∈ s.dataPackets, q.id ≠ p.id → q ∈ s'.dataPackets

theorem addPacket_reject (type : packet.type = 16) : (s.addPacket packet r).dataPackets = s.dataPackets := by
  simp [PacketSocket.addPacket,Queued.isData,type]

theorem clearPiece (cipher : Cipher σ) (start : σ) (reject : Bool) : Turn cipher start (clearPiece reject) := by
  intro s p sound mem
  unfold PacketSocket.clearPiece
  split
  · rename_i test
    rw [Bool.and_eq_true] at test
    obtain ⟨⟨was,isData⟩,notDropped⟩ := sound.kept.of_pieces mem
    have fresh := sound.kept.fresh p was (sound.kept.untouched_unselected mem test.2)
    obtain ⟨packet,made,sendable,type,right⟩ := makeRejectOfPiece_made isData fresh.1
    cases reject with
    | true =>
      have data := addPacket_reject type (s := s) (r := some p.id)
      have untouched : (s.addPacket packet (some p.id)).untouched p = true := by
        have ne : p.id ≠ s.count := Nat.ne_of_lt (sound.kept.id_lt was)
        simpa [PacketSocket.untouched,PacketSocket.addPacket,Function.update_of_ne ne] using test.2
      have kept := (sound.kept.addPacket sendable (some p.id)).erase (data ▸ mem) untouched true
      refine ⟨_,by simp only [queueReject,made,if_true,Option.map_some]; rfl,?_,?_⟩
      · apply sound.drop kept (List.append_assoc _ _ _)
        · simp
        · refine sound.answered.drop_rejected ?_ ?_ notDropped right
          · simp only [PacketSocket.erase,PacketSocket.addPacket,dropped_snoc,Event.drop,Option.toList_none,Option.toList_some,List.append_nil]
          · simp only [PacketSocket.erase,PacketSocket.addPacket,rejects_snoc,Event.rejection,Option.toList_none,Option.toList_some,List.append_nil]
      · intro q queued ne
        exact List.mem_filter.mpr ⟨data ▸ queued,bne_iff_ne.mpr ne⟩
    | false =>
      refine ⟨s.erase p false,rfl,?_,?_⟩
      · apply sound.drop (sound.kept.erase mem test.2 false) rfl
        · simp
        · exact sound.answered.drop_silently (by simp [PacketSocket.erase]) (by simp [PacketSocket.erase]) notDropped
      · intro q queued ne
        exact List.mem_filter.mpr ⟨queued,bne_iff_ne.mpr ne⟩
  · exact ⟨s,rfl,sound,fun q queued _ => queued⟩

theorem skipPiece (cipher : Cipher σ) (start : σ) (req : Request) (reject : Bool) : Turn cipher start (skipPiece req reject) := by
  intro s p sound mem
  unfold PacketSocket.skipPiece
  split
  · rename_i test
    rw [Bool.and_eq_true] at test
    obtain ⟨⟨was,isData⟩,notDropped⟩ := sound.kept.of_pieces mem
    have fresh := sound.kept.fresh p was (sound.kept.untouched_unselected mem test.2)
    obtain ⟨packet,made,sendable,type,right⟩ :=
      makeRejectOfPiece_made (s := s.erase p reject) isData fresh.1
    have erased := sound.kept.erase mem test.2 reject
    cases reject with
    | true =>
      refine ⟨_,by simp only [queueReject,made,if_true]; rfl,?_,?_⟩
      · apply sound.drop (erased.addPacket sendable (some p.id)) (List.append_assoc _ _ _)
        · simp
        · refine sound.answered.drop_rejected ?_ ?_ notDropped right
          · simp only [PacketSocket.erase,PacketSocket.addPacket,dropped_snoc,Event.drop,Option.toList_none,Option.toList_some,List.append_nil]
          · simp only [PacketSocket.erase,PacketSocket.addPacket,rejects_snoc,Event.rejection,Option.toList_none,Option.toList_some,List.append_nil]
      · intro q queued ne
        rw [addPacket_reject type]
        exact List.mem_filter.mpr ⟨queued,bne_iff_ne.mpr ne⟩
    | false =>
      refine ⟨s.erase p false,rfl,?_,?_⟩
      · apply sound.drop erased rfl
        · simp
        · exact sound.answered.drop_silently (by simp [PacketSocket.erase]) (by simp [PacketSocket.erase]) notDropped
      · intro q queued ne
        exact List.mem_filter.mpr ⟨queued,bne_iff_ne.mpr ne⟩
  · exact ⟨s,rfl,sound,fun q queued _ => queued⟩

-- The loop over the pieces: those that are still to come stand in the queue.
theorem turns (each : Turn cipher start turn) (ps : List Queued) (once : (ps.map Queued.id).Nodup) (sound : Sound cipher start s)
    (queued : ∀ p ∈ ps, p ∈ s.dataPackets) : ∃ s', ps.foldlM turn s = some s' ∧ Sound cipher start s' := by
  induction ps generalizing s with
  | nil => exact ⟨s,rfl,sound⟩
  | cons p ps more =>
    obtain ⟨s',turned,sound',stay⟩ := each s p sound (queued p (by simp))
    rw [List.map_cons,List.nodup_cons] at once
    have rest : ∀ q ∈ ps, q ∈ s'.dataPackets := by
      intro q mem
      apply stay q (queued q (by simp [mem]))
      intro ids
      exact once.1 (ids ▸ List.mem_map_of_mem mem)
    obtain ⟨final,done,holds⟩ := more once.2 sound' rest
    refine ⟨final,?_,holds⟩
    rw [List.foldlM_cons,turned]
    exact done

theorem pieces_nodup (sound : Sound cipher start s) : (s.dataPackets.map Queued.id).Nodup := by
  have all : (((sent s.log).filter (fun p => p.isData) ++ s.dataPackets).map Queued.id).Nodup := by
    rw [sound.kept.pieces]
    exact sound.kept.nodup.sublist (List.filter_sublist.map _)
  rw [List.map_append] at all
  exact (List.nodup_append.mp all).2.1

theorem call (sound : Sound cipher start s) (c : Call) (sendable : ∀ packet, c = .addPacket packet → Sendable packet) :
    ∃ s', s.call cipher c = some s' ∧ Sound cipher start s' := by
  cases c with
  | addPacket packet => exact ⟨_,rfl,sound.addPacket (sendable packet rfl)⟩
  | write connecting max accepts => exact ⟨_,rfl,sound.write connecting max accepts⟩
  | doNotSendPiece req reject => exact turns (skipPiece cipher start req reject) _ sound.pieces_nodup sound fun p mem => mem
  | clearPieces reject => exact turns (clearPiece cipher start reject) _ sound.pieces_nodup sound fun p mem => mem

theorem run (sound : Sound cipher start s) (calls : List Call) (sendable : ∀ packet, .addPacket packet ∈ calls → Sendable packet) :
    ∃ s', s.run cipher calls = some s' ∧ Sound cipher start s' := by
  induction calls generalizing s with
  | nil => exact ⟨s,rfl,sound⟩
  | cons c calls more =>
    obtain ⟨s',called,sound'⟩ := sound.call c fun packet eq => sendable packet (by simp [eq])
    obtain ⟨final,done,holds⟩ := more sound' fun packet mem => sendable packet (by simp [mem])
    refine ⟨final,?_,holds⟩
    unfold PacketSocket.run at done ⊢
    rw [List.foldlM_cons,called]
    exact done

theorem whole (sound : Sound cipher start s) : Whole cipher start s.log where
  sent_in := by
    rw [sound.kept.stream]
    exact List.prefix_append _ _
  in_selected := by
    rw [sound.kept.stream,sound.kept.chosen]
    unfold started
    split
    · rename_i idle
      simp [idle]
    · rename_i p current
      rw [current,Option.toList_some,List.map_append,List.map_singleton,cipher.encryptAll_snoc,sound.kept.encrypted p current]
      exact (List.prefix_append_right_inj _).mpr (List.take_prefix _ _)
  selected_order := ⟨_,sound.kept.chosen⟩
  once := by
    rw [sound.kept.chosen]
    refine List.nodup_append.mpr ⟨sound.kept.sent_nodup,?_,?_⟩
    · cases s.currPacket <;> simp
    · intro p already q current eq
      rw [Option.mem_toList] at current
      exact sound.kept.queued_not_sent (sound.kept.front_mem current) (eq ▸ already)

theorem intact (sound : Sound cipher start s) : Intact cipher start s where
  whole := sound.whole
  inOrder := ⟨List.Nodup.of_map _ sound.kept.nodup,sound.kept.control,sound.kept.pieces⟩
  rejected := ⟨sound.kept.drops,sound.kept.dropsOnce,sound.answered.answered,sound.answered.answers⟩
  fair := sound.fair

end Sound

-- Every interleaving of the calls.
theorem stream_intact (cipher : Cipher σ) (start : σ) (calls : List Call) (sendable : ∀ packet, .addPacket packet ∈ calls → Sendable packet) :
    ∃ s, (create start).run cipher calls = some s ∧ Intact cipher start s := by
  obtain ⟨s,ran,sound⟩ := (Sound.create cipher start).run calls sendable
  exact ⟨s,ran,sound.intact⟩

-- A choke and two pieces behind a cipher that flips bits; the choke is being sent
-- when the pieces are cleared, and two rejects follow it.
theorem cleared_stream_intact :
    ∃ s, (create ()).run ⟨fun _ data => ((),data.map (· ^^^ 90)),by simp⟩
        [.addPacket ⟨7,[0,0,0,11,7,0,0,0,3,0,0,64,0,1,2],15⟩,.addPacket ⟨0,[0,0,0,1,0],5⟩,
          .addPacket ⟨7,[0,0,0,10,7,0,0,0,3,0,0,128,0,9],14⟩,.write false 0 [3],.clearPieces true,.write false 100 [2,17,17]] = some s ∧
      Intact ⟨fun _ data => ((),data.map (· ^^^ 90)),by simp⟩ () s := by
  apply stream_intact
  intro packet mem
  simp only [List.mem_cons,Call.addPacket.injEq,List.not_mem_nil,or_false,reduceCtorEq] at mem
  rcases mem with rfl | rfl | rfl
  · have made : Packet.ofPiece 3 16384 2 [1,2] = some ⟨7,[0,0,0,11,7,0,0,0,3,0,0,64,0,1,2],15⟩ := rfl
    exact ⟨.ofPiece made,fun _ => ⟨_,_,_,_,made⟩⟩
  · have made : Packet.ofType 0 = some ⟨0,[0,0,0,1,0],5⟩ := rfl
    exact ⟨.ofType made,fun type => by cases type⟩
  · have made : Packet.ofPiece 3 32768 1 [9] = some ⟨7,[0,0,0,10,7,0,0,0,3,0,0,128,0,9],14⟩ := rfl
    exact ⟨.ofPiece made,fun _ => ⟨_,_,_,_,made⟩⟩

end PacketSocket

end KtorrentStream.Net
