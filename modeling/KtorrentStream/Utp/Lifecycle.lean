import KtorrentStream.Utp.Handlers
set_option autoImplicit true

namespace KtorrentStream.Utp
open KtorrentStream.Lib

-- What the server and the users of a connection can ask of it.
inductive Event where
  | handlePacket (parser : PacketParser) (packet : Buffer)
  | send (data : List UInt8)
  | recv (maxLen : UInt32)
  | close
  | reset
  | checkTimeout (now : TimeValue)
  | handleTimeout

-- The world after a call. An exception leaves what was done before it, and so does a
-- call that is undefined from some point on: of what comes then nothing is said.
def after (x : Act α) (w : World) : World :=
  match x w with
  | .ok _ w' => w'
  | .error _ w' => w'

def perform (w : World) : Event → World
  | .handlePacket parser packet => after (handlePacket parser packet) w
  | .send data => after (send data) w
  | .recv maxLen => after (recv maxLen) w
  | .close => after close w
  | .reset => after reset w
  | .checkTimeout now => after (checkTimeout now) w
  | .handleTimeout => after handleTimeout w

def performAll (w : World) (events : List Event) : World := events.foldl perform w

theorem after_of_wp {x : Act α} {P : World → Prop} (proved : wp x (fun _ w' => P w') (fun _ w' => P w') w) : P (after x w) := by
  rw [after]
  rw [wp] at proved
  cases result : x w with
  | ok a w' =>
      rw [result] at proved
      exact proved
  | error e w' =>
      rw [result] at proved
      exact proved

def Event.cause : Event → Cause
  | .handlePacket parser packet => .packet ⟨parser,packet⟩
  | .send data => .send data
  | .recv maxLen => .recv maxLen
  | .reset => .reset
  | _ => .other

theorem perform_steps (w : World) (event : Event) : Steps event.cause w (perform w event) := by
  cases event with
  | handlePacket parser packet => exact after_of_wp (handlePacket_moves parser packet w)
  | send data => exact after_of_wp (wp_mono (send_spec data w) (fun _ _ done => done.1) (fun _ _ done => done.1))
  | recv maxLen => exact after_of_wp (wp_mono (recv_spec maxLen w) (fun _ _ done => done.1) (fun _ _ done => done.1))
  | close => exact after_of_wp (close_moves w)
  | reset => exact after_of_wp (reset_moves w)
  | checkTimeout now => exact after_of_wp (checkTimeout_moves w)
  | handleTimeout => exact after_of_wp (handleTimeout_moves w)

-- The state moves forward, and once it is past connected nothing more is taken from
-- the user.
structure Forward (w w' : World) : Prop where
  rank : w.conn.stats.state.rank ≤ w'.conn.stats.state.rank
  accepted : ConnectionState.connected.rank < w.conn.stats.state.rank → w'.accepted = w.accepted
  accepts : w'.accepts = w.accepts

theorem Forward.refl (w : World) : Forward w w := ⟨Nat.le_refl _,fun _ => rfl,rfl⟩

theorem Forward.trans (ab : Forward a b) (bc : Forward b c) : Forward a c where
  rank := Nat.le_trans ab.rank bc.rank
  accepted := fun past => (bc.accepted (Nat.lt_of_lt_of_le past ab.rank)).trans (ab.accepted past)
  accepts := bc.accepts.trans ab.accepts

theorem Same.forward (same : Same w w') : Forward w w' := ⟨by rw [same.state],fun _ => same.accepted,same.accepts⟩

theorem Step.forward_of (step : Step cause w w') : Forward w w' := by
  cases step with
  | quiet same => exact same.forward
  | control _ _ _ _ _ same => exact same.forward
  | resent _ _ _ same => exact same.forward
  | refreshed => exact ⟨Nat.le_refl _,fun _ => rfl,rfl⟩
  | fresh _ _ _ _ _ _ _ _ _ _ _ _ _ same => exact ⟨same.forward.rank,same.forward.accepted,same.forward.accepts⟩
  | spilled _ _ _ _ same => exact ⟨same.forward.rank,same.forward.accepted,same.forward.accepts⟩
  | buffered data _ connected =>
      refine ⟨Nat.le_refl _,fun past => ?_,rfl⟩
      rw [connected] at past
      exact absurd past (Nat.lt_irrefl _)
  | acked _ _ same => exact ⟨same.forward.rank,same.forward.accepted,same.forward.accepts⟩
  | received => exact ⟨Nat.le_refl _,fun _ => rfl,rfl⟩
  | read => exact ⟨Nat.le_refl _,fun _ => rfl,rfl⟩
  | handshake => exact ⟨Nat.le_refl _,fun _ => rfl,rfl⟩
  | forward _ later => exact ⟨later,fun _ => rfl,rfl⟩
  | fin _ _ _ state =>
      have before : w.conn.stats.state.rank ≤ ConnectionState.finished.rank := by
        obtain connected | finished := state
        · rw [connected]
          decide
        · rw [finished]
      exact ⟨before,fun _ => rfl,rfl⟩
  | drained => exact ⟨closed_last _,fun _ => rfl,rfl⟩
  | cleared => exact ⟨Nat.le_refl _,fun _ => rfl,rfl⟩

theorem Steps.forward_of (steps : Steps cause w w') : Forward w w' := by
  induction steps with
  | refl => exact .refl w
  | tail _ step ih => exact ih.trans step.forward_of

theorem performAll_forward (w : World) (events : List Event) : Forward w (performAll w events) := by
  induction events generalizing w with
  | nil => exact .refl w
  | cons event rest ih => exact (perform_steps w event).forward_of.trans (ih (perform w event))

theorem rank_closed {state : ConnectionState} (last : ConnectionState.closed.rank ≤ state.rank) : state = .closed := by
  cases state <;> simp [ConnectionState.rank] at *

theorem send_past_connected (w : World) (past : ConnectionState.connected.rank < w.conn.stats.state.rank) (data : List UInt8) :
    send data w = .ok none w := by
  have other : w.conn.stats.state ≠ .connected := by
    intro connected
    rw [connected] at past
    exact Nat.lt_irrefl _ past
  show (if w.conn.stats.state ≠ .connected then _ else _ : Act (Option Nat)) w = _
  rw [if_pos other]
  rfl

-- Whatever happens after startConnecting, and whatever the transmitter refuses on
-- the way.
theorem state_only_moves_forward (w : World) (events later : List Event) :
    let now := performAll (after startConnecting w) events
    let next := performAll now later
    now.conn.stats.state.rank ≤ next.conn.stats.state.rank ∧
    (now.conn.stats.state = .closed → next.conn.stats.state = .closed) ∧
    (ConnectionState.connected.rank < now.conn.stats.state.rank →
      next.accepted = now.accepted ∧ ∀ data, send data next = .ok none next) := by
  intro now next
  have forward : Forward now next := performAll_forward now later
  refine ⟨forward.rank,?_,?_⟩
  · intro closed
    apply rank_closed
    rw [← closed]
    exact forward.rank
  · intro past
    exact ⟨forward.accepted past,send_past_connected next (Nat.lt_of_lt_of_le past forward.rank)⟩

end KtorrentStream.Utp
