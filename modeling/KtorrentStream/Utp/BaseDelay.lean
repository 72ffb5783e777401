import KtorrentStream.Lib.Along
import KtorrentStream.Lib.SuffixMinima
import KtorrentStream.Utp.Connection
import Mathlib.Data.List.TakeWhile
set_option autoImplicit true

namespace KtorrentStream.Utp
open KtorrentStream.Lib

-- A call of DelayWindow::update, and the samples that were given so far with what
-- the window keeps of them.
structure DelayCall where
  hdr : Header
  receiveTime : UInt64

def DelayCall.entry (call : DelayCall) : DelayEntry := ⟨call.hdr.timestampDifferenceMicroseconds,call.receiveTime⟩

def DelayEntry.delay (e : DelayEntry) : Nat := e.timestampDifference.toNat

structure DelayHistory where
  samples : List DelayEntry
  window : List DelayEntry

namespace DelayHistory

def new : DelayHistory := ⟨[],[]⟩

def update (h : DelayHistory) (call : DelayCall) : DelayHistory :=
  ⟨h.samples ++ [call.entry],(delayUpdate h.window call.hdr call.receiveTime).1⟩

-- The samples at most DELAY_WINDOW_SIZE before a time.
def recent (samples : List DelayEntry) (now : UInt64) : List DelayEntry :=
  samples.filter fun e => now.toNat ≤ e.receiveTime.toNat + 120000

def InOrder (h : DelayHistory) (call : DelayCall) : Prop := ∀ e ∈ h.samples, e.receiveTime ≤ call.receiveTime

-- The call returns the least difference of the recent samples, its own among them.
def Right (h : DelayHistory) (call : DelayCall) : Prop :=
  (∃ e ∈ recent (h.samples ++ [call.entry]) call.receiveTime,
    e.timestampDifference = (delayUpdate h.window call.hdr call.receiveTime).2) ∧
  ∀ e ∈ recent (h.samples ++ [call.entry]) call.receiveTime,
    (delayUpdate h.window call.hdr call.receiveTime).2 ≤ e.timestampDifference

-- No more than a hundred recent samples are below all the later ones.
def Fits (h : DelayHistory) (call : DelayCall) : Prop :=
  (lows DelayEntry.delay (recent (h.samples ++ [call.entry]) call.receiveTime)).length ≤ 100

def old (now : UInt64) (e : DelayEntry) : Bool := now - e.receiveTime > delayWindowSize

theorem old_iff (now : UInt64) (e : DelayEntry) (past : e.receiveTime ≤ now) :
    old now e = false ↔ now.toNat ≤ e.receiveTime.toNat + 120000 := by
  have order := UInt64.le_iff_toNat_le.mp past
  have size : delayWindowSize.toNat = 120000 := rfl
  rw [old,decide_eq_false_iff_not,gt_iff_lt,UInt64.lt_iff_toNat_lt,UInt64.toNat_sub_of_le _ _ past,size]
  omega

-- The branches of update are one: what is below the new sample stays in front of it.
theorem delayUpdate_eq (window : List DelayEntry) (hdr : Header) (now : UInt64) :
    delayUpdate window hdr now =
      let kept := (window.dropWhile (old now)).takeWhile fun e => e.timestampDifference < hdr.timestampDifferenceMicroseconds
      let pushed := pushBack kept ⟨hdr.timestampDifferenceMicroseconds,now⟩
      (pushed,(pushed.head?.map DelayEntry.timestampDifference).getD hdr.timestampDifferenceMicroseconds) := by
  have same : (fun e : DelayEntry => decide (now - e.receiveTime > delayWindowSize)) = old now := rfl
  rw [delayUpdate,same]
  dsimp only
  cases window.dropWhile (old now) with
  | nil => rfl
  | cons first rest =>
      rw [List.head?_cons]
      dsimp only
      split
      · rename_i lower
        have none : (first :: rest).takeWhile (fun e => decide (e.timestampDifference < hdr.timestampDifferenceMicroseconds)) = [] := by
          rw [List.takeWhile_cons,decide_eq_false (UInt32.lt_asymm lower),if_neg Bool.false_ne_true]
        rw [none]
        rfl
      · rfl

-- What the window has of the samples: those that are below all later ones, without
-- some old ones that will not be recent again.
structure Kept (h : DelayHistory) : Prop where
  ordered : h.samples.Pairwise fun x y => x.receiveTime ≤ y.receiveTime
  lows : ∃ gone left, h.samples = gone ++ left ∧ h.window = lows DelayEntry.delay left ∧
    ∀ x ∈ gone, ∃ y ∈ h.samples, x.receiveTime.toNat + 120000 < y.receiveTime.toNat
  short : h.window.length ≤ 100

theorem new_kept : Kept new := ⟨.nil,⟨[],[],rfl,rfl,fun _ none => nomatch none⟩,Nat.zero_le _⟩

-- The samples that are recent now are a last part of those that are left.
theorem Kept.recent_left (kept : Kept h) (inOrder : h.InOrder call) :
    ∃ left, recent h.samples call.receiveTime = left ∧
      h.window.dropWhile (old call.receiveTime) = KtorrentStream.Lib.lows DelayEntry.delay left ∧
      ∃ gone, h.samples = gone ++ left ∧ ∀ x ∈ gone, x.receiveTime.toNat + 120000 < call.receiveTime.toNat := by
  obtain ⟨ordered,⟨gone,left,whole,window,past⟩,_⟩ := kept
  have times : ∀ x ∈ h.samples, x.receiveTime.toNat ≤ call.receiveTime.toNat := fun x among =>
    UInt64.le_iff_toNat_le.mp (inOrder x among)
  have behind : ∀ x ∈ left, x ∈ h.samples := fun x among => whole ▸ List.mem_append_right gone among
  have order : left.Pairwise fun x y => old call.receiveTime x = false → old call.receiveTime y = false := by
    have parts := whole ▸ ordered
    refine (List.pairwise_append.mp parts).2.1.imp_of_mem fun {x y} one two later recent => ?_
    have still := (old_iff _ x (inOrder x (behind x one))).mp recent
    have next := UInt64.le_iff_toNat_le.mp later
    exact (old_iff _ y (inOrder y (behind y two))).mpr (by omega)
  have before : ∀ x ∈ gone, x.receiveTime.toNat + 120000 < call.receiveTime.toNat := by
    intro x among
    obtain ⟨y,there,far⟩ := past x among
    exact Nat.lt_of_lt_of_le far (times y there)
  have asked : ∀ x ∈ left, decide (call.receiveTime.toNat ≤ x.receiveTime.toNat + 120000) = !old call.receiveTime x := by
    intro x among
    have same := old_iff call.receiveTime x (inOrder x (behind x among))
    cases here : old call.receiveTime x with
    | true => exact decide_eq_false (mt same.mpr (by rw [here]; decide))
    | false => exact decide_eq_true (same.mp here)
  refine ⟨left.dropWhile (old call.receiveTime),?_,?_,gone ++ left.takeWhile (old call.receiveTime),?_,?_⟩
  · rw [recent,whole,List.filter_append,List.filter_eq_nil_iff.mpr,List.nil_append,List.filter_congr asked,filter_eq_dropWhile order]
    intro x among
    have far := before x among
    rw [decide_eq_true_iff]
    omega
  · rw [window,lows_dropWhile order]
  · rw [List.append_assoc,List.takeWhile_append_dropWhile]
    exact whole
  · intro x among
    rcases List.mem_append.mp among with first | next
    · exact before x first
    · have expired := List.mem_takeWhile_imp next
      have there := behind x ((List.takeWhile_sublist _).subset next)
      have same := old_iff call.receiveTime x (inOrder x there)
      have far := mt same.mpr (by rw [expired]; decide)
      omega

theorem recent_concat (samples : List DelayEntry) (call : DelayCall) :
    recent (samples ++ [call.entry]) call.receiveTime = recent samples call.receiveTime ++ [call.entry] := by
  have now : decide (call.receiveTime.toNat ≤ call.entry.receiveTime.toNat + 120000) = true :=
    decide_eq_true (Nat.le_add_right call.receiveTime.toNat 120000)
  rw [recent,List.filter_append,List.filter_cons,now,if_pos rfl]
  rfl

-- The samples of the window that stay, and what is pushed behind them.
structure Parts (h : DelayHistory) (call : DelayCall) (kept : List DelayEntry) : Prop where
  updated : delayUpdate h.window call.hdr call.receiveTime =
    (pushBack kept call.entry,((pushBack kept call.entry).head?.map DelayEntry.timestampDifference).getD call.hdr.timestampDifferenceMicroseconds)
  lowest : KtorrentStream.Lib.lows DelayEntry.delay (recent (h.samples ++ [call.entry]) call.receiveTime) = kept ++ [call.entry]
  short : kept.length ≤ 100

theorem Kept.parts (known : Kept h) (inOrder : h.InOrder call) : ∃ kept, Parts h call kept := by
  obtain ⟨left,recents,window,_⟩ := known.recent_left inOrder
  have below : (fun e : DelayEntry => decide (e.timestampDifference < call.hdr.timestampDifferenceMicroseconds)) =
      fun e => decide (e.delay < call.entry.delay) := by
    funext e
    exact decide_eq_decide.mpr UInt32.lt_iff_toNat_lt
  refine ⟨((h.window.dropWhile (old call.receiveTime)).takeWhile fun e => decide (e.delay < call.entry.delay)),?_,?_,?_⟩
  · rw [delayUpdate_eq,below]
    rfl
  · rw [recent_concat,recents,lows_concat,window]
  · have fewer := ((List.takeWhile_sublist (fun e => decide (e.delay < call.entry.delay))).trans
      (List.dropWhile_sublist (old call.receiveTime) (l := h.window))).length_le
    exact Nat.le_trans fewer known.short

theorem Parts.fits_iff (parts : Parts h call kept) : h.Fits call ↔ kept.length < 100 := by
  rw [Fits,parts.lowest,List.length_append]
  exact Iff.rfl

-- With a hundred samples below the new one the least of them is lost.
theorem Parts.right_iff (parts : Parts h call kept) : h.Right call ↔ h.Fits call := by
  have some_ : recent (h.samples ++ [call.entry]) call.receiveTime ≠ [] := by
    rw [recent_concat]
    exact List.append_ne_nil_of_right_ne_nil _ (List.cons_ne_nil _ _)
  obtain ⟨first,later,lowest,here,least⟩ := @lows_least _ _ _ DelayEntry.delay _ some_
  have ascending := @lows_ascending _ _ _ DelayEntry.delay (recent (h.samples ++ [call.entry]) call.receiveTime)
  rw [parts.lowest] at lowest ascending
  rw [parts.fits_iff,Right,parts.updated]
  constructor
  · rintro ⟨_,lower⟩
    by_contra full
    have whole : kept.length = 100 := Nat.le_antisymm parts.short (Nat.le_of_not_lt full)
    obtain ⟨head,tail,rfl⟩ : ∃ head tail, kept = head :: tail := by
      cases kept with
      | nil => cases whole
      | cons head tail => exact ⟨head,tail,rfl⟩
    obtain ⟨rfl,rfl⟩ := List.cons.inj lowest
    have result := lower head here
    rw [pushBack,if_neg full,List.tail_cons] at result
    cases tail with
    | nil => cases whole
    | cons second rest =>
        have above := (List.pairwise_cons.mp ascending).1 second List.mem_cons_self
        exact absurd (UInt32.le_iff_toNat_le.mp result) (Nat.not_le_of_lt above)
  · intro room
    rw [pushBack,if_pos room,lowest]
    exact ⟨⟨first,here,rfl⟩,fun e among => UInt32.le_iff_toNat_le.mpr (least e among)⟩

theorem Kept.update (known : Kept h) (inOrder : h.InOrder call) (fits : h.Fits call) : Kept (h.update call) := by
  obtain ⟨kept,parts⟩ := known.parts inOrder
  obtain ⟨left,recents,window,gone,whole,past⟩ := known.recent_left inOrder
  have room := parts.fits_iff.mp fits
  have pushed : (delayUpdate h.window call.hdr call.receiveTime).1 = kept ++ [call.entry] := by
    rw [parts.updated,pushBack,if_pos room]
  have lowest := parts.lowest
  rw [recent_concat,recents] at lowest
  refine ⟨?_,⟨gone,left ++ [call.entry],?_,?_,?_⟩,?_⟩
  · refine List.pairwise_append.mpr ⟨known.ordered,List.pairwise_singleton _ _,fun x among y last => ?_⟩
    rw [List.mem_singleton.mp last]
    exact inOrder x among
  · change h.samples ++ [call.entry] = _
    rw [whole,List.append_assoc]
  · exact pushed.trans lowest.symm
  · intro x among
    exact ⟨call.entry,List.mem_append_right _ List.mem_cons_self,past x among⟩
  · change (delayUpdate h.window call.hdr call.receiveTime).1.length ≤ 100
    rw [pushed,List.length_append]
    exact room

end DelayHistory

-- In a run whose receive times do not go back, every call returns the base delay
-- exactly if the samples it depends on fit into the window at every call.
theorem base_delay_iff (calls : List DelayCall) (inOrder : Along DelayHistory.update DelayHistory.InOrder .new calls) :
    Along DelayHistory.update DelayHistory.Right .new calls ↔ Along DelayHistory.update DelayHistory.Fits .new calls := by
  apply Along.congr inOrder DelayHistory.new_kept
  · intro h call known inOrder
    obtain ⟨kept,parts⟩ := known.parts inOrder
    exact parts.right_iff
  · exact fun h call known inOrder fits => known.update inOrder fits

def sampleOf (difference : UInt32) (receiveTime : UInt64) : DelayCall := ⟨⟨1,stState,0,0,0,difference,0,0,0⟩,receiveTime⟩

theorem base_delay_iff_falling :
    Along DelayHistory.update DelayHistory.Right .new [sampleOf 20 0,sampleOf 10 5] ↔
      Along DelayHistory.update DelayHistory.Fits .new [sampleOf 20 0,sampleOf 10 5] :=
  base_delay_iff [sampleOf 20 0,sampleOf 10 5] ⟨by simp [DelayHistory.InOrder,DelayHistory.new],
    by simp [DelayHistory.InOrder,DelayHistory.new,DelayHistory.update,sampleOf,DelayCall.entry],trivial⟩

-- A hundred samples that rise from 0, all at one time.
def rising : List DelayCall := (List.range 100).map fun i => sampleOf (UInt32.ofNat i) 0

-- One more drives the least of them out of the window.
theorem least_sample_overwritten :
    (delayUpdate (rising.foldl DelayHistory.update .new).window (sampleOf 100 0).hdr (sampleOf 100 0).receiveTime).2 = 1 ∧
    ¬ ∀ calls, Along DelayHistory.update DelayHistory.InOrder .new calls → Along DelayHistory.update DelayHistory.Right .new calls := by
  have result : (delayUpdate (rising.foldl DelayHistory.update .new).window (sampleOf 100 0).hdr (sampleOf 100 0).receiveTime).2 = 1 := by
    decide +kernel
  refine ⟨result,fun always => ?_⟩
  have times : ∀ calls h, (∀ e ∈ h.samples, e.receiveTime = 0) → (∀ call ∈ calls, call.receiveTime = 0) →
      Along DelayHistory.update DelayHistory.InOrder h calls := by
    intro calls
    induction calls with
    | nil => exact fun _ _ _ => trivial
    | cons call rest ih =>
        intro h samples zero
        refine ⟨fun e among => ?_,ih _ ?_ fun c among => zero c (List.mem_cons_of_mem call among)⟩
        · rw [samples e among,zero call List.mem_cons_self]
          exact UInt64.le_refl 0
        · intro e among
          rcases List.mem_append.mp among with old | new
          · exact samples e old
          · rw [List.mem_singleton.mp new]
            exact zero call List.mem_cons_self
  have together : Along DelayHistory.update DelayHistory.InOrder .new (rising ++ [sampleOf 100 0]) :=
    times _ _ (fun _ none => nomatch none) (by decide +kernel)
  have right : DelayHistory.Right (rising.foldl DelayHistory.update .new) (sampleOf 100 0) := (always _ together).last
  rw [DelayHistory.Right,result] at right
  have least := right.2 (sampleOf 0 0).entry (by decide +kernel)
  exact absurd least (by decide)

end KtorrentStream.Utp
