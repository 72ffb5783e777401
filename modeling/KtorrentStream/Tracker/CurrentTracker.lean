import Mathlib
import KtorrentStream.Lib.Along
import KtorrentStream.Tracker.TrackerManager
set_option autoImplicit true
set_option linter.dupNamespace false

namespace KtorrentStream.Tracker
open KtorrentStream.Lib

namespace Tracker

variable {Url : Type}

-- What the manager goes by. The contact is not part of it.
def core (t : Tracker Url) : Nat × Url × Bool := (t.address,t.url,t.enabled)

-- First the trackers that have failed less often, then those of a lower tier.
def rank (t : Tracker Url) : Nat ×ₗ Int := toLex (t.failureCount,t.tier)

theorem doRequest_core (t : Tracker Url) : t.doRequest.core = t.core := by
  unfold doRequest
  cases t.kind with
  | udp => dsimp only; split <;> rfl
  | http => rfl

theorem start_core (t : Tracker Url) : t.start.core = t.core := doRequest_core t

theorem stop_core (t : Tracker Url) : t.stop.core = t.core := by
  unfold stop
  split
  · exact doRequest_core t
  · rfl

theorem handleFailure_core (t : Tracker Url) : t.handleFailure.core = t.core := by
  unfold handleFailure
  split
  · rfl
  · split <;> rfl

theorem reset_core (t : Tracker Url) : t.reset.core = t.core := rfl

theorem contacted_core (contact : Contact) (t : Tracker Url) : (t.contacted contact).core = t.core := rfl

theorem rank_lt (t n : Tracker Url) : t.rank < n.rank ↔
    t.failureCount < n.failureCount ∨ t.failureCount = n.failureCount ∧ t.tier < n.tier := Prod.Lex.toLex_lt_toLex

end Tracker

namespace TrackerManager

section
variable {Url : Type} {m m' : TrackerManager Url}

theorem better_rank (t n : Tracker Url) : better t n = if t.rank < n.rank then t else n := by
  rw [ite_congr (propext (t.rank_lt n)) (fun _ => rfl) fun _ => rfl]
  unfold better
  by_cases less : t.failureCount < n.failureCount
  · rw [if_pos less,if_pos (.inl less)]
  · by_cases same : t.failureCount = n.failureCount
    · simp [same]
    · simp [same,less]

theorem selectFrom_argmin (n : Option (Tracker Url)) (l : List (Tracker Url)) :
    selectFrom n l = (l.filter (·.enabled)).foldl (List.argAux fun b c => b.rank < c.rank) n := by
  induction l generalizing n with
  | nil => rfl
  | cons t rest ih =>
    unfold selectFrom
    cases enabled : t.enabled with
    | false =>
      rw [List.filter_cons_of_neg (by rw [enabled]; decide)]
      exact ih n
    | true =>
      rw [List.filter_cons_of_pos enabled,List.foldl_cons]
      cases n with
      | none => exact ih (some t)
      | some n =>
        have one : List.argAux (fun b c : Tracker Url => b.rank < c.rank) (some n) t = some (better t n) := by
          rw [better_rank]
          exact (apply_ite some _ _ _).symm
        rw [one]
        exact ih (some (better t n))

theorem selectTracker_argmin (m : TrackerManager Url) : m.selectTracker = (m.trackers.filter (·.enabled)).argmin (·.rank) :=
  selectFrom_argmin none m.trackers

-- The tracker that is selected is one of the enabled ones, and none of them comes before it.
structure Best (m : TrackerManager Url) (t : Tracker Url) : Prop where
  member : t ∈ m.trackers
  enabled : t.enabled = true
  least : ∀ n ∈ m.trackers, n.enabled = true → t.rank ≤ n.rank

def Selects (m : TrackerManager Url) : Prop :=
  match m.selectTracker with
  | none => ∀ t ∈ m.trackers, t.enabled = false
  | some t => m.Best t

theorem selects (m : TrackerManager Url) : m.Selects := by
  unfold Selects
  cases selected : m.selectTracker with
  | none =>
    rw [selectTracker_argmin,List.argmin_eq_none,List.filter_eq_nil_iff] at selected
    exact fun t member => Bool.eq_false_iff.mpr (selected t member)
  | some t =>
    rw [selectTracker_argmin] at selected
    have among := List.mem_filter.mp (List.argmin_mem selected)
    exact ⟨among.1,among.2,fun n member enabled => List.le_of_mem_argmin (List.mem_filter.mpr ⟨member,enabled⟩) selected⟩

theorem selected_best (selected : m.selectTracker = some t) : m.Best t := by
  have selects := m.selects
  unfold Selects at selects
  rw [selected] at selects
  exact selects

-- Null, or one of the trackers that is enabled.
def Usable (m : TrackerManager Url) : Prop := ∀ p, m.curr = some p → ∃ t ∈ m.trackers, t.address = p ∧ t.enabled = true

-- Each tracker is an object of its own, with a url of its own.
structure Owned (m : TrackerManager Url) : Prop where
  owned : ((m.trackers ++ m.leaving).map (·.address)).Nodup
  allocated : ∀ t ∈ m.trackers ++ m.leaving, t.address < m.allocated
  urls : (m.trackers.map (·.url)).Nodup

-- The custom urls belong to trackers.
structure Sound (m : TrackerManager Url) : Prop extends Owned m where
  custom : ∀ url ∈ m.customTrackers, url ∈ m.trackers.map (·.url)

-- Nothing but contacts has changed.
structure Same (m m' : TrackerManager Url) : Prop where
  priv : m'.priv = m.priv
  trackers : m'.trackers.map (·.core) = m.trackers.map (·.core)
  leaving : m'.leaving.map (·.core) = m.leaving.map (·.core)
  curr : m'.curr = m.curr
  customTrackers : m'.customTrackers = m.customTrackers
  allocated : m'.allocated = m.allocated

structure Working (m : TrackerManager Url) : Prop where
  priv : m.priv = true
  sound : m.Sound
  usable : m.Usable

theorem addresses_core (l : List (Tracker Url)) : l.map (·.address) = (l.map (·.core)).map (·.1) := by
  rw [List.map_map]
  rfl

theorem urls_core (l : List (Tracker Url)) : l.map (·.url) = (l.map (·.core)).map (·.2.1) := by
  rw [List.map_map]
  rfl

theorem alike_owned (addresses : (m'.trackers ++ m'.leaving).map (·.address) = (m.trackers ++ m.leaving).map (·.address))
    (urls : m'.trackers.map (·.url) = m.trackers.map (·.url)) (allocated : m'.allocated = m.allocated) (owned : m.Owned) : m'.Owned := by
  refine ⟨addresses ▸ owned.owned,?_,urls ▸ owned.urls⟩
  intro t member
  have there : t.address ∈ (m'.trackers ++ m'.leaving).map (·.address) := List.mem_map_of_mem member
  rw [addresses] at there
  obtain ⟨t',member',address⟩ := List.mem_map.mp there
  rw [allocated,← address]
  exact owned.allocated t' member'

theorem same_owned (same : Same m m') (owned : m.Owned) : m'.Owned := by
  have addresses : (m'.trackers ++ m'.leaving).map (·.address) = (m.trackers ++ m.leaving).map (·.address) := by
    rw [addresses_core,addresses_core,List.map_append,same.trackers,same.leaving,← List.map_append]
  have urls : m'.trackers.map (·.url) = m.trackers.map (·.url) := by
    rw [urls_core,urls_core,same.trackers]
  exact alike_owned addresses urls same.allocated owned

theorem same_sound (same : Same m m') (sound : m.Sound) : m'.Sound := by
  refine ⟨same_owned same sound.toOwned,?_⟩
  rw [same.customTrackers,urls_core,same.trackers,← urls_core]
  exact sound.custom

theorem same_usable (same : Same m m') (usable : m.Usable) : m'.Usable := by
  intro p curr
  rw [same.curr] at curr
  obtain ⟨t,member,rfl,enabled⟩ := usable p curr
  have there : t.core ∈ m'.trackers.map (·.core) := by
    rw [same.trackers]
    exact List.mem_map_of_mem member
  obtain ⟨t',member',core⟩ := List.mem_map.mp there
  exact ⟨t',member',congrArg (·.1) core,(congrArg (·.2.2) core).trans enabled⟩

theorem same_working (working : m.Working) (same : Same m m') : m'.Working :=
  ⟨same.priv.trans working.priv,same_sound same working.sound,same_usable same working.usable⟩

theorem map_core {f : Tracker Url → Tracker Url} (keeps : ∀ t, (f t).core = t.core) (l : List (Tracker Url)) :
    (l.map f).map (·.core) = l.map (·.core) := by
  rw [List.map_map]
  exact List.map_congr_left fun t _ => keeps t

theorem change_core {method : Tracker Url → Tracker Url} (keeps : ∀ t, (method t).core = t.core) (p : Nat) (l : List (Tracker Url)) :
    (l.map fun t => if t.address = p then method t else t).map (·.core) = l.map (·.core) := by
  refine map_core (fun t => ?_) l
  split
  · exact keeps t
  · rfl

theorem change_curr (m : TrackerManager Url) (p : Nat) (method : Tracker Url → Tracker Url) : (m.change p method).curr = m.curr := rfl

theorem change_priv (m : TrackerManager Url) (p : Nat) (method : Tracker Url → Tracker Url) : (m.change p method).priv = m.priv := rfl

theorem change_same {method : Tracker Url → Tracker Url} (keeps : ∀ t, (method t).core = t.core) (m : TrackerManager Url) (p : Nat) :
    Same m (m.change p method) :=
  ⟨rfl,change_core keeps p m.trackers,change_core keeps p m.leaving,rfl,rfl,rfl⟩

theorem same_url (owned : m.Owned) (one : s ∈ m.trackers) (two : t ∈ m.trackers) (url : s.url = t.url) : s = t :=
  List.inj_on_of_nodup_map owned.urls one two url

theorem alone (owned : m.Owned) (member : t ∈ m.trackers) (all : ∀ s ∈ m.trackers, s.url = t.url) : m.trackers = [t] := by
  have same : ∀ s ∈ m.trackers, s = t := fun s there => same_url owned there member (all s there)
  have distinct := owned.urls.of_map
  cases trackers : m.trackers with
  | nil =>
    rw [trackers] at member
    cases member
  | cons s rest =>
    rw [trackers] at same distinct
    have none : rest = [] := by
      refine List.eq_nil_iff_forall_not_mem.mpr fun x there => ?_
      have first := same s List.mem_cons_self
      rw [first,← same x (List.mem_cons_of_mem s there)] at distinct
      exact (List.nodup_cons.mp distinct).1 there
    rw [none,same s List.mem_cons_self]

theorem setEnabled_owned (owned : m.Owned) (p : Nat) (on : Bool) : (m.change p (.setEnabled on)).Owned := by
  have kept {β : Type} (f : Tracker Url → β) (same : ∀ t, f (t.setEnabled on) = f t) (l : List (Tracker Url)) :
      (l.map fun t => if t.address = p then t.setEnabled on else t).map f = l.map f := by
    rw [List.map_map]
    refine List.map_congr_left fun t _ => ?_
    rw [Function.comp_apply]
    split
    · exact same t
    · rfl
  have addresses : ((m.change p (.setEnabled on)).trackers ++ (m.change p (.setEnabled on)).leaving).map (·.address) =
      (m.trackers ++ m.leaving).map (·.address) := by
    rw [List.map_append,List.map_append]
    exact congrArg₂ _ (kept _ (fun _ => rfl) m.trackers) (kept _ (fun _ => rfl) m.leaving)
  exact alike_owned addresses (kept _ (fun _ => rfl) m.trackers) rfl owned

theorem setEnabled_sound (sound : m.Sound) (p : Nat) (on : Bool) : (m.change p (.setEnabled on)).Sound := by
  refine ⟨setEnabled_owned sound.toOwned p on,fun url listed => ?_⟩
  obtain ⟨t,member,rfl⟩ := List.mem_map.mp (sound.custom url listed)
  refine List.mem_map.mpr ⟨_,List.mem_map_of_mem member,?_⟩
  split <;> rfl

theorem call_tracker (member : t ∈ m.trackers) (method : Tracker Url → Tracker Url) :
    m.call t.address method = some (m.change t.address method) := by
  unfold call
  rw [if_pos]
  exact List.find?_isSome.mpr ⟨t,List.mem_append_left _ member,beq_self_eq_true _⟩

theorem usable_ifCurr {method : Tracker Url → Tracker Url} (keeps : ∀ t, (method t).core = t.core) (usable : m.Usable) :
    ∃ m', m.ifCurr method = some m' ∧ Same m m' := by
  unfold ifCurr
  cases curr : m.curr with
  | none => exact ⟨m,rfl,rfl,rfl,rfl,rfl,rfl,rfl⟩
  | some p =>
    obtain ⟨t,member,rfl,_⟩ := usable p curr
    exact ⟨_,call_tracker member method,change_same keeps m t.address⟩

theorem switch_usable (m : TrackerManager Url) : (m.switchTracker m.selectTracker).Usable := by
  intro p curr
  obtain ⟨t,selected,rfl⟩ := Option.map_eq_some_iff.mp curr
  have best := selected_best selected
  exact ⟨t,best.member,rfl,best.enabled⟩

theorem switch_working (priv : m.priv = true) (sound : m.Sound) : (m.switchTracker m.selectTracker).Working :=
  ⟨priv,⟨⟨sound.owned,sound.allocated,sound.urls⟩,sound.custom⟩,switch_usable m⟩

theorem switch_start (priv : m.priv = true) (sound : m.Sound) :
    ∃ m', (m.switchTracker m.selectTracker).ifCurr .start = some m' ∧ m'.Working := by
  have working := switch_working priv sound
  obtain ⟨m',called,same⟩ := usable_ifCurr Tracker.start_core working.usable
  exact ⟨m',called,same_working working same⟩

theorem empty_working : (empty true : TrackerManager Url).Working :=
  ⟨rfl,⟨⟨List.nodup_nil,fun _ member => (nomatch member),List.nodup_nil⟩,fun _ member => (nomatch member)⟩,fun _ curr => (nomatch curr)⟩

theorem start_working (working : m.Working) : ∃ m', m.start = some m' ∧ m'.Working := by
  unfold start
  have marked {n : TrackerManager Url} (working : n.Working) : ({n with started := true} : TrackerManager Url).Working :=
    same_working working ⟨rfl,rfl,rfl,rfl,rfl,rfl⟩
  cases started : m.started with
  | true => exact ⟨m,rfl,working⟩
  | false =>
    rw [working.priv]
    cases curr : m.curr with
    | none =>
      by_cases some : m.trackers.length > 0
      · obtain ⟨m',called,after⟩ := switch_start working.priv working.sound
        refine ⟨{m' with started := true},?_,marked after⟩
        simp [some,called]
      · refine ⟨{m with started := true},?_,marked working⟩
        simp [some]
    | some p =>
      obtain ⟨t,member,rfl,_⟩ := working.usable p curr
      have called := call_tracker member Tracker.start
      refine ⟨{m.change t.address .start with started := true},?_,
        marked (same_working working (change_same Tracker.start_core m t.address))⟩
      simp [called]

theorem stop_working (working : m.Working) : ∃ m', m.stop = some m' ∧ m'.Working := by
  unfold stop
  cases started : m.started with
  | false => exact ⟨m,rfl,working⟩
  | true =>
    have stopped : ({m with started := false} : TrackerManager Url).Working := same_working working ⟨rfl,rfl,rfl,rfl,rfl,rfl⟩
    obtain ⟨m',called,same⟩ := usable_ifCurr Tracker.stop_core stopped.usable
    have after := same_working stopped same
    refine ⟨{m' with trackers := m'.trackers.map .reset},?_,same_working after ⟨rfl,map_core Tracker.reset_core _,rfl,rfl,rfl,rfl⟩⟩
    rw [working.priv] at called
    simp [working.priv,called]

theorem failure_working (working : m.Working) (alive : (m.object p).isSome) :
    ∃ m', m.call p .handleFailure = some m' ∧ m'.Working := by
  unfold call
  rw [if_pos alive]
  exact ⟨_,rfl,same_working working (change_same Tracker.handleFailure_core m p)⟩

theorem object_tracker (member : t ∈ m.trackers) : ∃ o, m.object t.address = some o :=
  Option.isSome_iff_exists.mp (List.find?_isSome.mpr ⟨t,List.mem_append_left _ member,beq_self_eq_true _⟩)

theorem change_object (method : Tracker Url → Tracker Url) (keeps : ∀ t, (method t).core = t.core) (alive : (m.object p).isSome) :
    ((m.change q method).object p).isSome := by
  obtain ⟨t,member,same⟩ := List.find?_isSome.mp alive
  refine List.find?_isSome.mpr ⟨if t.address = q then method t else t,?_,?_⟩
  · show _ ∈ m.trackers.map _ ++ m.leaving.map _
    rw [← List.map_append]
    exact List.mem_map_of_mem member
  · split
    · have address : (method t).address = t.address := congrArg (·.1) (keeps t)
      rw [address]
      exact same
    · exact same

theorem core_member (same : Same m m') (member : t ∈ m.trackers) : ∃ t' ∈ m'.trackers, t'.core = t.core := by
  have there : t.core ∈ m'.trackers.map (·.core) := by
    rw [same.trackers]
    exact List.mem_map_of_mem member
  exact List.mem_map.mp there

-- The current tracker is enabled, so that one is selected.
theorem error_working (working : m.Working) (alive : (m.object sender).isSome) :
    ∃ m', m.onTrackerError sender = some m' ∧ m'.Working := by
  unfold onTrackerError
  rw [working.priv]
  cases started : m.started with
  | false => exact ⟨m,rfl,working⟩
  | true =>
    have failure := failure_working working alive
    by_cases current : m.curr = some sender
    · obtain ⟨t,member,rfl,enabled⟩ := working.usable sender current
      cases selected : m.selectTracker with
      | none =>
        have selects := m.selects
        unfold Selects at selects
        rw [selected] at selects
        exact absurd enabled (Bool.eq_false_iff.mp (selects t member))
      | some n =>
        by_cases again : n.address = t.address
        · simpa [current,again] using failure
        · have best := selected_best selected
          have same := change_same Tracker.stop_core m t.address
          obtain ⟨n',there,core⟩ := core_member same best.member
          have address : n'.address = n.address := congrArg (·.1) core
          have sound := same_sound same working.sound
          have other : ((m.change t.address .stop).switchTracker (some n)).Working := by
            refine ⟨working.priv,⟨⟨sound.owned,sound.allocated,sound.urls⟩,sound.custom⟩,fun p curr => ?_⟩
            cases curr
            exact ⟨n',there,address,(congrArg (·.2.2) core).trans best.enabled⟩
          have live {method : Tracker Url → Tracker Url} := call_tracker (m := (m.change t.address .stop).switchTracker (some n)) there method
          obtain ⟨o,object⟩ := object_tracker (m := (m.change t.address .stop).switchTracker (some n)) there
          rw [address] at live object
          have called := call_tracker member Tracker.stop
          by_cases failed : o.failureCount > 0
          · refine ⟨_,?_,same_working other (change_same Tracker.handleFailure_core _ n.address)⟩
            rw [switchTracker,Option.map_some] at object live
            simp [current,again,called,switchTracker,object,live,failed]
          · refine ⟨_,?_,same_working other (change_same Tracker.start_core _ n.address)⟩
            rw [switchTracker,Option.map_some] at object live
            simp [current,again,called,switchTracker,object,live,failed]
    · simpa [current] using failure

end

section
variable {Url : Type} [KUrl Url] {m m' : TrackerManager Url}

theorem find_url (found : m.find url = some t) : t ∈ m.trackers ∧ t.url = url :=
  ⟨List.mem_of_find?_eq_some found,beq_iff_eq.mp (List.find?_some (p := fun t : Tracker Url => t.url == url) found)⟩

theorem find_none : m.find url = none ↔ url ∉ m.trackers.map (·.url) := by
  unfold find
  rw [List.find?_eq_none]
  simp

theorem addTracker_working (working : m.Working) (url : Url) (custom : Bool) (tier : Int) : (m.addTracker url custom tier).Working := by
  unfold addTracker
  split
  · exact working
  rename_i absent
  have absent : url ∉ m.trackers.map (·.url) := find_none.mp (Option.not_isSome_iff_eq_none.mp absent)
  cases TrackerKind.ofProtocol (KUrl.protocol url) with
  | none => exact working
  | some kind =>
    have perm := List.perm_orderedInsert (fun a b : Tracker Url => a.url ≤ b.url) (.new m.allocated url kind tier) m.trackers
    have more : ∀ t ∈ m.trackers, t ∈ m.trackers.orderedInsert (fun a b => a.url ≤ b.url) (.new m.allocated url kind tier) :=
      fun t member => perm.mem_iff.mpr (List.mem_cons_of_mem _ member)
    refine ⟨working.priv,⟨⟨?_,?_,?_⟩,?_⟩,?_⟩
    · have all := (perm.append_right m.leaving).map (·.address)
      refine all.nodup_iff.mpr (List.nodup_cons.mpr ⟨fun member => ?_,working.sound.owned⟩)
      obtain ⟨t,there,same⟩ := List.mem_map.mp member
      have below := working.sound.allocated t there
      have fresh : t.address = m.allocated := same
      omega
    · intro t member
      rcases List.mem_append.mp member with inside | leaving
      · rcases List.mem_cons.mp (perm.mem_iff.mp inside) with rfl | old
        · exact Nat.lt_succ_self _
        · exact Nat.lt_succ_of_lt (working.sound.allocated t (List.mem_append_left _ old))
      · exact Nat.lt_succ_of_lt (working.sound.allocated t (List.mem_append_right _ leaving))
    · exact (perm.map (·.url)).nodup_iff.mpr (List.nodup_cons.mpr ⟨absent,working.sound.urls⟩)
    · have old : ∀ u ∈ m.customTrackers, u ∈ (m.trackers.orderedInsert (fun a b => a.url ≤ b.url) (.new m.allocated url kind tier)).map (·.url) := by
        intro u member
        obtain ⟨t,there,rfl⟩ := List.mem_map.mp (working.sound.custom u member)
        exact List.mem_map_of_mem (more t there)
      intro u member
      cases custom with
      | false => exact old u member
      | true =>
        rcases List.mem_append.mp member with listed | new
        · exact old u listed
        · rw [List.mem_singleton.mp new]
          exact List.mem_map_of_mem (perm.mem_iff.mpr List.mem_cons_self)
    · intro p curr
      obtain ⟨t,member,address,enabled⟩ := working.usable p curr
      exact ⟨t,more t member,address,enabled⟩

theorem erase_owned (owned : m.Owned) : (m.erase url).Owned := by
  have fewer : (m.trackers.filter (·.url != url)).Sublist m.trackers := List.filter_sublist
  refine ⟨?_,?_,?_⟩
  · exact ((fewer.append_right m.leaving).map _).nodup owned.owned
  · exact fun t member => owned.allocated t ((fewer.append_right m.leaving).subset member)
  · exact (fewer.map _).nodup owned.urls

theorem erase_custom (sound : m.Sound) (gone : ∀ u ∈ m.customTrackers, u ≠ url) :
    ∀ u ∈ m.customTrackers, u ∈ (m.trackers.filter (·.url != url)).map (·.url) := by
  intro u listed
  obtain ⟨t,there,rfl⟩ := List.mem_map.mp (sound.custom u listed)
  exact List.mem_map_of_mem (List.mem_filter.mpr ⟨there,bne_iff_ne.mpr (gone t.url listed)⟩)

theorem erase_usable (usable : m.Usable) (other : ∀ t ∈ m.trackers, m.curr = some t.address → t.url ≠ url) : (m.erase url).Usable := by
  intro p curr
  obtain ⟨t,member,rfl,enabled⟩ := usable p curr
  exact ⟨t,List.mem_filter.mpr ⟨member,bne_iff_ne.mpr (other t member curr)⟩,rfl,enabled⟩

theorem release_owned (owned : m.Owned) : (m.release url).Owned := by
  have negated : (fun t : Tracker Url => !(t.url != url)) = fun t => t.url == url := by
    funext t
    exact Bool.not_not _
  have parted := List.filter_append_perm (fun t : Tracker Url => t.url != url) m.trackers
  rw [negated] at parted
  have moved : (m.trackers.filter (·.url != url) ++ (m.leaving ++ m.trackers.filter (·.url == url))).Perm (m.trackers ++ m.leaving) := by
    refine (List.perm_append_comm.append_left _).trans ?_
    rw [← List.append_assoc]
    exact parted.append_right m.leaving
  refine ⟨?_,?_,(erase_owned owned).urls⟩
  · exact (moved.map (·.address)).nodup_iff.mpr owned.owned
  · exact fun t member => owned.allocated t (moved.mem_iff.mp member)

-- The custom tracker is the current one, and the only one.
def Last (m : TrackerManager Url) (url : Url) : Prop :=
  url ∈ m.customTrackers ∧ ∃ t, m.trackers = [t] ∧ t.url = url ∧ m.curr = some t.address

-- The url is not a custom one any more.
def forget (m : TrackerManager Url) (url : Url) : TrackerManager Url :=
  {m with customTrackers := m.customTrackers.filter (· != url)}

theorem forget_sound (sound : m.Sound) (url : Url) : (m.forget url).Sound :=
  ⟨⟨sound.owned,sound.allocated,sound.urls⟩,fun u member => sound.custom u (List.mem_filter.mp member).1⟩

theorem forget_other (m : TrackerManager Url) (url : Url) : ∀ u ∈ (m.forget url).customTrackers, u ≠ url :=
  fun _ member => bne_iff_ne.mp (List.mem_filter.mp member).2

theorem custom_found (sound : m.Sound) (custom : url ∈ m.customTrackers) : ∃ t, m.find url = some t := by
  cases found : m.find url with
  | none => exact absurd (sound.custom url custom) (find_none.mp found)
  | some t => exact ⟨t,rfl⟩

-- What is left once the tracker has been stopped and taken out of the map.
def released (m : TrackerManager Url) (t : Tracker Url) : TrackerManager Url := ((m.forget t.url).change t.address .stop).release t.url

theorem released_sound (sound : m.Sound) (t : Tracker Url) : (m.released t).Sound := by
  have stopped := same_sound (change_same Tracker.stop_core (m.forget t.url) t.address) (forget_sound sound t.url)
  exact ⟨release_owned stopped.toOwned,erase_custom stopped (forget_other m t.url)⟩

theorem removeTracker_eq (m : TrackerManager Url) (url : Url) : m.removeTracker url =
    if url ∉ m.customTrackers then some m
    else if m.curr = (m.find url).map (·.address) ∧ m.priv then
      (m.find url).bind fun t =>
        let m := ((m.forget url).change t.address .stop).release url
        if m.trackers.length > 0 then (m.switchTracker m.selectTracker).ifCurr .start else some m
    else some ((m.forget url).erase url) := rfl

theorem removeTracker_current (priv : m.priv = true) (custom : t.url ∈ m.customTrackers) (found : m.find t.url = some t)
    (curr : m.curr = some t.address) : m.removeTracker t.url = if (m.released t).trackers.length > 0
      then ((m.released t).switchTracker (m.released t).selectTracker).ifCurr .start else some (m.released t) := by
  rw [removeTracker_eq,if_neg (not_not.mpr custom),found,if_pos ⟨curr,priv⟩]
  rfl

theorem removeTracker_other (custom : url ∈ m.customTrackers) (found : m.find url = some t) (other : m.curr ≠ some t.address) :
    m.removeTracker url = some ((m.forget url).erase url) := by
  rw [removeTracker_eq,if_neg (not_not.mpr custom),found,if_neg fun both => other both.1]

theorem released_none : (m.released t).trackers.length = 0 ↔ ∀ s ∈ m.trackers, s.url = t.url := by
  have urls : (m.released t).trackers = (m.trackers.map fun s => if s.address = t.address then s.stop else s).filter (·.url != t.url) := rfl
  have kept (s : Tracker Url) : (if s.address = t.address then s.stop else s).url = s.url := by
    split
    · exact congrArg (·.2.1) (Tracker.stop_core s)
    · rfl
  rw [urls,List.length_eq_zero_iff,List.filter_eq_nil_iff]
  constructor
  · intro none s member
    have last := none _ (List.mem_map_of_mem member)
    rw [kept] at last
    simpa using last
  · intro all s member
    obtain ⟨s',member',rfl⟩ := List.mem_map.mp member
    rw [kept,all s' member']
    simp

theorem removeTracker_working (working : m.Working) (others : ¬ m.Last url) :
    ∃ m', m.removeTracker url = some m' ∧ m'.Working := by
  by_cases custom : url ∈ m.customTrackers
  · obtain ⟨t,found⟩ := custom_found working.sound custom
    obtain ⟨member,rfl⟩ := find_url found
    by_cases curr : m.curr = some t.address
    · rw [removeTracker_current working.priv custom found curr]
      have more : (m.released t).trackers.length > 0 := by
        by_contra none
        have all := released_none.mp (Nat.eq_zero_of_not_pos none)
        exact others ⟨custom,t,alone working.sound.toOwned member all,rfl,curr⟩
      rw [if_pos more]
      exact switch_start working.priv (released_sound working.sound t)
    · rw [removeTracker_other custom found curr]
      refine ⟨_,rfl,working.priv,⟨erase_owned (forget_sound working.sound t.url).toOwned,
        erase_custom (forget_sound working.sound t.url) (forget_other m t.url)⟩,?_⟩
      refine erase_usable working.usable fun s there current url => ?_
      rw [same_url working.sound.toOwned there member url] at current
      exact curr current
  · rw [removeTracker_eq,if_pos custom]
    exact ⟨m,rfl,working⟩

-- Nothing is left to switch to, and the current tracker stays the one that was taken out.
theorem removeTracker_last (working : m.Working) (last : m.Last url) :
    ∃ m', m.removeTracker url = some m' ∧ ¬ m'.Usable := by
  obtain ⟨custom,t,only,rfl,curr⟩ := last
  have member : t ∈ m.trackers := by
    rw [only]
    exact List.mem_singleton_self t
  obtain ⟨s,found⟩ := custom_found working.sound custom
  obtain rfl : s = t := same_url working.sound.toOwned (find_url found).1 member (find_url found).2
  have none : (m.released s).trackers.length = 0 := by
    rw [released_none,only]
    exact fun x member => congrArg _ (List.mem_singleton.mp member)
  rw [removeTracker_current working.priv custom found curr,if_neg (by omega)]
  refine ⟨_,rfl,fun usable => ?_⟩
  obtain ⟨x,there,_⟩ := usable s.address curr
  rw [List.length_eq_zero_iff.mp none] at there
  cases there

theorem restoreOne_owned (priv : m.priv = true) (owned : m.Owned) (usable : m.Usable) (url : Url) :
    (m.restoreOne url).priv = true ∧ (m.restoreOne url).Owned ∧ (m.restoreOne url).Usable := by
  unfold restoreOne
  cases found : m.find url with
  | none => exact ⟨priv,owned,usable⟩
  | some t =>
    obtain ⟨member,rfl⟩ := find_url found
    dsimp only
    have same : Same m (if t.contact.started then m.change t.address .stop else m) := by
      split
      · exact change_same Tracker.stop_core m t.address
      · exact ⟨rfl,rfl,rfl,rfl,rfl,rfl⟩
    generalize (if t.contact.started then m.change t.address .stop else m) = m' at same
    have priv' := same.priv.trans priv
    have owned' := same_owned same owned
    by_cases curr : m'.curr = some t.address
    · rw [if_pos ⟨curr,priv'⟩]
      exact ⟨priv',erase_owned ⟨owned'.owned,owned'.allocated,owned'.urls⟩,fun p none => nomatch none⟩
    · rw [if_neg fun both => curr both.1]
      refine ⟨priv',erase_owned owned',erase_usable (same_usable same usable) fun s there current url => ?_⟩
      obtain ⟨t',member',core⟩ := core_member same member
      have named : t'.url = t.url := congrArg (·.2.1) core
      have placed : t'.address = t.address := congrArg (·.1) core
      rw [same_url owned' there member' (url.trans named.symm),placed] at current
      exact curr current

theorem restoreDefault_working (working : m.Working) : m.restoreDefault.Working := by
  have restored : (m.customTrackers.foldl restoreOne m).priv = true ∧ (m.customTrackers.foldl restoreOne m).Owned ∧
      (m.customTrackers.foldl restoreOne m).Usable := by
    refine List.foldlRecOn (motive := fun n : TrackerManager Url => n.priv = true ∧ n.Owned ∧ n.Usable) m.customTrackers restoreOne
      ⟨working.priv,working.sound.toOwned,working.usable⟩ fun n before url _ => restoreOne_owned before.1 before.2.1 before.2.2 url
  unfold restoreDefault
  dsimp only
  generalize m.customTrackers.foldl restoreOne m = n at restored
  obtain ⟨priv,owned,usable⟩ := restored
  have sound : ({n with customTrackers := []} : TrackerManager Url).Sound :=
    ⟨⟨owned.owned,owned.allocated,owned.urls⟩,fun u member => nomatch member⟩
  by_cases none : n.curr = none
  · rw [if_pos ⟨priv,none⟩]
    exact switch_working priv sound
  · rw [if_neg fun both => none both.2]
    exact ⟨priv,sound,usable⟩

theorem setTrackerEnabled_working (working : m.Working) (url : Url) (enabled : Bool) :
    ∃ m', m.setTrackerEnabled url enabled = some m' ∧ m'.Working := by
  unfold setTrackerEnabled
  cases found : m.find url with
  | none => exact ⟨m,rfl,working⟩
  | some t =>
    dsimp only
    have sound := setEnabled_sound working.sound t.address enabled
    cases enabled with
    | true =>
      have foreign : ¬ ((!(m.change t.address (.setEnabled true)).priv) = true ∧ (m.change t.address (.setEnabled true)).started = true) := by
        intro both
        rw [change_priv,working.priv] at both
        exact Bool.false_ne_true both.1
      rw [if_neg (by decide),if_neg foreign]
      refine ⟨_,rfl,working.priv,sound,fun p curr => ?_⟩
      obtain ⟨s,member,rfl,on⟩ := working.usable p curr
      refine ⟨_,List.mem_map_of_mem member,?_⟩
      split
      · exact ⟨rfl,rfl⟩
      · exact ⟨rfl,on⟩
    | false =>
      have same := change_same Tracker.stop_core (m.change t.address (.setEnabled false)) t.address
      have stopped := same_sound same sound
      rw [if_pos (by decide)]
      by_cases curr : m.curr = some t.address
      · rw [change_curr,change_curr,if_pos curr]
        exact switch_start working.priv stopped
      · rw [change_curr,change_curr,if_neg curr]
        have disabled : (m.change t.address (.setEnabled false)).Working := by
          refine ⟨working.priv,sound,fun p current => ?_⟩
          obtain ⟨s,member,rfl,on⟩ := working.usable p current
          have other : s.address ≠ t.address := by
            intro here
            rw [← here] at curr
            exact curr current
          refine ⟨_,List.mem_map_of_mem member,?_⟩
          rw [if_neg other]
          exact ⟨rfl,on⟩
        exact ⟨_,rfl,same_working disabled same⟩

-- The step goes on with another tracker where there is one.
def Spares (m : TrackerManager Url) : ManagerEvent Url → Prop
  | .removeTracker url => ¬ m.Last url
  | _ => True

theorem step_working (working : m.Working) (event : ManagerEvent Url) (spares : m.Spares event) :
    ∃ m', m.step event = some m' ∧ m'.Working := by
  cases event with
  | start => exact start_working working
  | stop => exact stop_working working
  | addTracker url custom tier => exact ⟨_,rfl,addTracker_working working url custom tier⟩
  | removeTracker url => exact removeTracker_working working spares
  | restoreDefault => exact ⟨_,rfl,restoreDefault_working working⟩
  | setTrackerEnabled url enabled => exact setTrackerEnabled_working working url enabled
  | trackerError sender contact =>
    unfold step
    dsimp only
    cases alive : m.object sender with
    | none => exact ⟨m,rfl,working⟩
    | some t =>
      have failed := same_working working (change_same (Tracker.contacted_core contact) m sender)
      exact error_working failed (change_object _ (Tracker.contacted_core contact) (by rw [alive]; rfl))
  | contacted tracker contact => exact ⟨_,rfl,same_working working (change_same (Tracker.contacted_core contact) m tracker)⟩
  | deleted tracker =>
    have fewer := (List.filter_sublist (p := fun t : Tracker Url => t.address != tracker) (l := m.leaving)).append_left m.trackers
    refine ⟨_,rfl,working.priv,⟨⟨?_,?_,working.sound.urls⟩,working.sound.custom⟩,working.usable⟩
    · exact (fewer.map _).nodup working.sound.owned
    · exact fun t member => working.sound.allocated t (fewer.subset member)

theorem step_last (working : m.Working) (last : ¬ m.Spares event) : ∃ m', m.step event = some m' ∧ ¬ m'.Usable := by
  cases event with
  | removeTracker url => exact removeTracker_last working (not_not.mp last)
  | _ => exact absurd trivial last

theorem addTiers_working (working : m.Working) (tier : Int) (tiers : List (List Url)) : (m.addTiers tier tiers).Working := by
  induction tiers generalizing m tier with
  | nil => exact working
  | cons urls next ih =>
    refine ih ?_ (tier + 1)
    exact List.foldlRecOn urls _ working fun _ before url _ => addTracker_working before url false tier

theorem loadCustomURLs_working (working : m.Working) (urls : List Url) : (m.loadCustomURLs urls).Working :=
  List.foldlRecOn urls _ working fun _ before url _ => addTracker_working before url true 1

theorem loadTrackerStatus_sound (priv : m.priv = true) (sound : m.Sound) (disabled : List Url) :
    (m.loadTrackerStatus disabled).priv = true ∧ (m.loadTrackerStatus disabled).Sound := by
  refine List.foldlRecOn (motive := fun n : TrackerManager Url => n.priv = true ∧ n.Sound) disabled _ ⟨priv,sound⟩ fun n before url _ => ?_
  cases n.find url with
  | none => exact before
  | some t => exact ⟨before.1,setEnabled_sound before.2 t.address false⟩

theorem new_working (tiers : List (List Url)) (custom disabled : List Url) : (new true tiers custom disabled).Working := by
  have filled := loadCustomURLs_working (addTiers_working empty_working 1 tiers) custom
  have loaded := loadTrackerStatus_sound filled.priv filled.sound disabled
  unfold new
  dsimp only
  rw [if_pos loaded.1]
  exact switch_working loaded.1 loaded.2

-- The current tracker can be used from the start on and after every operation, and no
-- operation uses a pointer that leads nowhere.
def AlwaysUsable : TrackerManager Url → List (ManagerEvent Url) → Prop
  | m,[] => m.Usable
  | m,e :: rest => m.Usable ∧ ∃ m', m.step e = some m' ∧ AlwaysUsable m' rest

theorem always_usable (working : m.Working) (events : List (ManagerEvent Url)) :
    m.AlwaysUsable events ↔ Through step Spares m events := by
  induction events generalizing m with
  | nil => exact ⟨fun _ => trivial,fun _ => working.usable⟩
  | cons e rest ih =>
    by_cases spares : m.Spares e
    · obtain ⟨next,stepped,after⟩ := step_working working e spares
      have rest := ih after
      constructor
      · rintro ⟨_,m',stepped',always⟩
        refine ⟨spares,fun n reached => ?_⟩
        rw [stepped'] at stepped reached
        cases stepped
        cases reached
        exact rest.mp always
      · exact fun through => ⟨working.usable,next,stepped,rest.mpr (through.2 next stepped)⟩
    · obtain ⟨next,stepped,stale⟩ := step_last working spares
      constructor
      · rintro ⟨_,m',stepped',always⟩
        rw [stepped'] at stepped
        cases stepped
        cases rest with
        | nil => exact absurd always stale
        | cons => exact absurd always.1 stale
      · exact fun through => absurd through.1 spares

theorem current_tracker (tiers : List (List Url)) (custom disabled : List Url) (events : List (ManagerEvent Url)) :
    ((new true tiers custom disabled).AlwaysUsable events ↔ Through step Spares (new true tiers custom disabled) events) ∧
    ∀ m : TrackerManager Url, m.Selects :=
  ⟨always_usable (new_working tiers custom disabled) events,selects⟩

end

-- The urls http://localhost:port/announce.
def LocalUrl : Type := Nat

instance : KUrl LocalUrl where
  toLinearOrder := inferInstanceAs (LinearOrder Nat)
  protocol _ := "http"

-- A user adds a tracker to a torrent without one, starts the torrent and removes the tracker again.
def addedEvents : List (ManagerEvent LocalUrl) := [.addTracker (80 : Nat) true 1,.start,.removeTracker (80 : Nat)]

theorem last_tracker_stays : ¬∀ (tiers : List (List LocalUrl)) (custom disabled : List LocalUrl) (events : List (ManagerEvent LocalUrl)),
    (new true tiers custom disabled).AlwaysUsable events := by
  intro all
  obtain ⟨_,m₁,added,_,m₂,begun,_,m₃,removed,usable⟩ := all [] [] [] addedEvents
  cases added
  cases begun
  cases removed
  obtain ⟨t,member,_⟩ := usable 0 rfl
  cases member

end TrackerManager

end KtorrentStream.Tracker
