import KtorrentStream.Utp.Stream
set_option autoImplicit true

namespace KtorrentStream.Utp
open KtorrentStream.Lib KtorrentStream.Util

-- Once checkIfClosed has closed a connection there is nothing in its window, and
-- nothing comes into it.
structure Drained (w : World) : Prop where
  closed : w.closings ≠ [] → w.conn.stats.state = .closed ∧ w.conn.localWnd.incomingPackets = []
  window : ∀ c ∈ w.closings, c.localWnd = w.conn.localWnd

theorem Drained.kept (drained : Drained w) (closings : w'.closings = w.closings) (window : w'.conn.localWnd = w.conn.localWnd)
    (forward : Forward w w') : Drained w' := by
  refine ⟨fun some_ => ?_,fun c member => ?_⟩
  · rw [closings] at some_
    obtain ⟨closed,empty⟩ := drained.closed some_
    rw [window]
    refine ⟨rank_closed ?_,empty⟩
    rw [← closed]
    exact forward.rank
  · rw [closings] at member
    rw [window]
    exact drained.window c member

theorem Drained.step (drained : Drained w) (step : Step cause w w') : Drained w' := by
  have forward := step.forward_of
  -- where the window changes nothing has been closed yet
  have early (open_ : w.conn.stats.state ≠ .closed ∨ w.conn.localWnd.incomingPackets ≠ []) : w.closings = [] := by
    by_contra some_
    obtain ⟨closed,empty⟩ := drained.closed some_
    rcases open_ with other | held
    · exact other closed
    · exact held empty
  have none_ {w' : World} (open_ : w.conn.stats.state ≠ .closed ∨ w.conn.localWnd.incomingPackets ≠ []) (closings : w'.closings = w.closings) :
      Drained w' := by
    rw [early open_] at closings
    exact ⟨fun some_ => absurd closings some_,fun c member => by rw [closings] at member; cases member⟩
  cases step with
  | quiet same => exact drained.kept same.closings same.localWnd forward
  | control _ _ _ _ _ same => exact drained.kept same.closings same.localWnd forward
  | resent _ _ _ same => exact drained.kept same.closings same.localWnd forward
  | fresh _ _ _ _ _ _ _ _ _ _ _ _ _ same => exact drained.kept same.closings same.localWnd forward
  | spilled _ _ _ _ same => exact drained.kept same.closings same.localWnd forward
  | acked _ _ same => exact drained.kept same.closings same.localWnd forward
  | refreshed | buffered | forward | fin | cleared => exact drained.kept rfl rfl forward
  | received i localWnd outcome handled data state =>
      refine none_ (.inl ?_) rfl
      rintro closed
      rcases state with other | other
      · cases closed.symm.trans other
      · cases closed.symm.trans other
  | read maxLen localWnd bytes asked result =>
      refine none_ (.inr fun empty => ?_) rfl
      simp [LocalWindow.read,empty] at result
  | handshake nr state =>
      refine none_ (.inl ?_) rfl
      rintro closed
      rcases state with other | other
      · cases closed.symm.trans other
      · cases closed.symm.trans other
  | drained state acked empty =>
      have before := early (.inl (by rw [state]; decide))
      refine ⟨fun _ => ⟨rfl,List.isEmpty_iff.mp empty⟩,fun c member => ?_⟩
      have member : c ∈ w.closings ++ [w.conn] := member
      rw [before,List.nil_append,List.mem_singleton] at member
      rw [member]

theorem Drained.steps (drained : Drained w) (steps : Steps cause w w') : Drained w' := by
  induction steps with
  | refl => exact drained
  | tail _ step ih => exact ih.step step

theorem Step.segments_filled (filled : ∀ segment ∈ w.segments, segment ≠ []) (step : Step cause w w') : ∀ segment ∈ w'.segments, segment ≠ [] := by
  cases step with
  | quiet same => rwa [same.segments]
  | control _ _ _ _ _ same => rwa [same.segments]
  | resent _ _ _ same => rwa [same.segments]
  | fresh p now count outputBuffer some_bytes present _ _ _ _ content _ _ same =>
      rw [same.segments]
      intro segment member
      rcases List.mem_append.mp member with old | new
      · exact filled segment old
      · rw [List.mem_singleton.mp new,content]
        intro empty
        have length := congrArg List.length empty
        rw [List.length_take,CircularBuffer.contents_length,List.length_nil] at length
        omega
  | spilled _ _ _ _ same => rwa [same.segments]
  | acked _ _ same => rwa [same.segments]
  | refreshed | buffered | received | read | handshake | forward | fin | drained | cleared => exact filled

theorem Steps.segments_filled (steps : Steps cause w w') (filled : ∀ segment ∈ w.segments, segment ≠ []) : ∀ segment ∈ w'.segments, segment ≠ [] := by
  induction steps with
  | refl => exact filled
  | tail _ step ih => exact step.segments_filled ih

theorem Link.Reached.drained {origin l : Link} (starts : origin.Starts) (reached : Link.Reached origin l) :
    Drained l.receiver ∧ ∀ segment ∈ l.sender.segments, segment ≠ [] := by
  induction reached with
  | start =>
      obtain ⟨_,_,_,_,_,closings⟩ := starts.receiver.history
      obtain ⟨_,segments,_⟩ := starts.sender.history
      refine ⟨⟨fun some_ => absurd closings some_,fun c member => ?_⟩,fun segment member => ?_⟩
      · rw [closings] at member
        cases member
      · rw [segments] at member
        cases member
  | step event _ allowed ih =>
      cases event with
      | sender event => exact ⟨ih.1,(perform_steps _ event).segments_filled ih.2⟩
      | receiver event => exact ⟨ih.1.steps (perform_steps _ event),ih.2⟩

-- The count that a sequence number stands for next to last_seq_nr.
def Link.countNear (l : Link) (seqNr : UInt16) : Nat :=
  if seqNrCmpSE seqNr l.lastSeqNr then l.reached - (l.lastSeqNr - seqNr).toNat else l.reached + (seqNr - l.lastSeqNr).toNat

-- recv has returned all bytes of the packets up to a sequence number that were sent.
def Link.Complete (l : Link) (seqNr : UInt16) : Prop :=
  ∀ k < l.sender.segments.length, l.first + k ≤ l.countNear seqNr → (l.sender.segments.take (k + 1)).flatten <+: l.returned

-- A connection that checkIfClosed has closed has returned all that came into its
-- window. That is all the data up to the end of file if and only if no packet was
-- still on its way when the ST_FIN came: last_seq_nr has reached eof_seq_nr, or the
-- last packet that was sent.
theorem closed_returned_all (origin l : Link) (starts : origin.Starts) (reached : Link.Reached origin l) (c : Connection) (closed : c ∈ l.receiver.closings) :
    l.returned = (l.sender.segments.take (l.reached + 1 - l.first)).flatten ∧
      ∀ eofSeqNr, c.stats.eofSeqNr = UInt16.toNat eofSeqNr → (l.Complete eofSeqNr ↔
        l.countNear eofSeqNr ≤ l.reached ∨ l.first + l.sender.segments.length ≤ l.reached + 1) := by
  obtain ⟨front,r,sound⟩ := Link.Reached.sound starts reached
  obtain ⟨drained,filled⟩ := Link.Reached.drained starts reached
  obtain ⟨_,empty⟩ := drained.closed (List.ne_nil_of_mem closed)
  have window := sound.receiver.window
  have base := sound.base
  have last := sound.reached
  have finished : r.first = r.last + 1 := by
    have before := window.behind
    have ready := window.valid.ready
    have end_ := window.empty empty
    omega
  have started := window.valid.started
  have returned : l.returned = (l.sender.segments.take (l.reached + 1 - l.first)).flatten := by
    rw [sound.returned,sound.receiver.delivered,Reassembly.delivered_all window.valid sound.agrees finished]
    congr 2
    omega
  refine ⟨returned,fun eofSeqNr _ => ?_⟩
  have bound := Reassembly.last_le_of_agrees window.valid sound.agrees
  constructor
  · intro complete
    by_contra behind
    obtain ⟨ahead,more⟩ := not_or.mp behind
    -- the first packet that is missing has bytes of its own
    have inside : l.reached + 1 - l.first < l.sender.segments.length := by omega
    have whole := complete (l.reached + 1 - l.first) inside (by omega)
    have size := whole.length_le
    rw [returned,List.take_add_one,List.getElem?_eq_getElem inside,Option.toList_some,List.flatten_append,List.length_append,
      List.flatten_singleton] at size
    have some_ := List.length_pos_of_ne_nil (filled _ (List.getElem_mem inside))
    omega
  · intro all k less upTo
    rw [returned]
    have short : k + 1 ≤ l.reached + 1 - l.first := by omega
    obtain ⟨rest,split⟩ := List.take_prefix_take_left short (l := l.sender.segments)
    rw [← split,List.flatten_append]
    exact List.prefix_append _ _

-- The three bytes are still on their way when the ST_FIN comes.
def finBytes : Buffer :=
  ⟨spoken.sender.conn.datagram stFin spoken.sender.conn.stats.seqNr spoken.sender.conn.localWnd.lastSeqNr ⟨0,0⟩ [],by decide +kernel⟩

def finParser : PacketParser := ⟨Header.read finBytes.data,none,20⟩

def overtaken : Link := spoken.step (.receiver (.handlePacket finParser finBytes))

theorem overtaken_reached : Link.Reached shakenHands overtaken :=
  .step _ (.step (.sender (.send [1,2,3])) .start trivial) fun data => absurd data (by decide +kernel)

theorem overtaken_closed : overtaken.receiver.closings.length = 1 ∧ overtaken.returned = [] ∧ ¬ overtaken.Complete finParser.header.seqNr := by
  have one : overtaken.receiver.closings.length = 1 ∧ ∀ c ∈ overtaken.receiver.closings, c.stats.eofSeqNr = finParser.header.seqNr.toNat := by
    decide +kernel
  have missing : ¬ (overtaken.countNear finParser.header.seqNr ≤ overtaken.reached ∨
      overtaken.first + overtaken.sender.segments.length ≤ overtaken.reached + 1) := by
    decide +kernel
  obtain ⟨c,closed⟩ := List.exists_mem_of_length_pos (by rw [one.1]; exact Nat.one_pos)
  have all := closed_returned_all shakenHands overtaken shakenHands_starts overtaken_reached c closed
  exact ⟨one.1,by decide +kernel,fun complete => missing ((all.2 _ (one.2 c closed)).mp complete)⟩

end KtorrentStream.Utp
