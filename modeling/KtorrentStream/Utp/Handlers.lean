import KtorrentStream.Utp.Steps
set_option autoImplicit true

namespace KtorrentStream.Utp
open KtorrentStream.Lib KtorrentStream.Util

theorem Steps.andThen {x : Act α} {f : α → Act β}
    (first : wp x (fun _ w' => Steps cause w w') (fun _ w' => Steps cause w w') w) (rest : ∀ a, Moves (Steps cause) (f a)) :
    wp (x >>= f) (fun _ w' => Steps cause w w') (fun _ w' => Steps cause w w') w := by
  rw [wp_bind]
  exact wp_mono first (fun a _ moved => (rest a).after Steps.trans moved) (fun _ _ moved => moved)

theorem closed_last (state : ConnectionState) : state.rank ≤ ConnectionState.closed.rank := by
  cases state <;> decide

theorem setClosed_moves : Moves (Steps cause) (setState .closed) := fun _ => .one (.forward .closed (closed_last _))

theorem sendResetAndClose_moves : Moves (Steps cause) sendResetAndClose :=
  Moves.bind Steps.trans sendReset_transmits.steps fun _ => setClosed_moves

theorem checkIfClosed_moves : Moves (Steps cause) checkIfClosed := by
  intro w
  rw [checkIfClosed,wp_getConn]
  split
  · rename_i done
    exact .one (.drained done.1 done.2.1 done.2.2)
  · exact .refl w

theorem checkState_moves : Moves (Steps cause) checkState := fun _ => .quiet (.unchanged rfl rfl rfl) rfl

theorem localPacketReceived_steps (handled : cause = .packet i) (data : i.parser.header.type = stData) (w : World)
    (state : w.conn.stats.state = .connected ∨ w.conn.stats.state = .finished) :
    wp (localPacketReceived i.parser.header i.packet i.dataOff) (fun _ w' => Steps cause w w') (fun _ w' => Steps cause w w') w := by
  rw [localPacketReceived,wp_getConn]
  split
  · exact .refl w
  · rename_i result
    exact .one (.received i _ _ handled data state result)

theorem handleConnected_steps (handled : cause = .packet i) (w : World) (state : w.conn.stats.state = .connected) :
    wp (handleConnected i.parser.header i.packet i.dataOff) (fun _ w' => Steps cause w w') (fun _ w' => Steps cause w w') w := by
  rw [handleConnected]
  split
  · rename_i data
    refine Steps.andThen (localPacketReceived_steps handled data w (.inl state)) fun room => ?_
    cases room with
    | true => exact sendStateOrData_transmits.steps
    | false => exact sendResetAndClose_moves
  split
  · exact sendPackets_transmits.steps w
  split
  · rename_i isFin
    refine Steps.andThen (.one (.fin i handled isFin (.inl state))) fun _ => ?_
    exact Moves.bind Steps.trans sendPackets_transmits.steps fun _ => checkIfClosed_moves
  · exact sendResetAndClose_moves w

theorem finishedReply_moves : Moves (Steps cause) finishedReply := by
  refine Moves.bind Steps.trans sendStateOrData_transmits.steps fun _ => ?_
  intro w
  rw [wp_getConn]
  split
  · refine Steps.andThen (sendFIN_transmits.steps w) fun _ => ?_
    exact Moves.bind Steps.trans (fun _ => .quiet (.unchanged rfl rfl rfl) rfl) fun _ => checkIfClosed_moves
  · exact checkIfClosed_moves w

theorem handleFinished_steps (handled : cause = .packet i) (w : World) (state : w.conn.stats.state = .finished) :
    wp (handleFinished i.parser.header i.packet i.dataOff) (fun _ w' => Steps cause w w') (fun _ w' => Steps cause w w') w := by
  have sendAndCheck : Moves (Steps cause) (do sendPackets; checkIfClosed) :=
    Moves.bind Steps.trans sendPackets_transmits.steps fun _ => checkIfClosed_moves
  rw [handleFinished]
  split
  · rename_i data
    rw [wp_getConn]
    split
    · refine Steps.andThen (localPacketReceived_steps handled data w (.inr state)) fun room => ?_
      cases room with
      | true => exact finishedReply_moves
      | false => exact sendResetAndClose_moves
    · exact finishedReply_moves w
  split
  · exact sendAndCheck w
  split
  · rename_i isFin
    refine Steps.andThen (Steps.trans (.one (.fin i handled isFin (.inr state))) (.quiet ?_ rfl)) fun _ => sendAndCheck
    exact .unchanged (by simp only [World.compared,state]) rfl rfl
  · exact sendResetAndClose_moves w


theorem handleSynSent_steps (hdr : Header) (w : World) (state : w.conn.stats.state = .synSent) :
    wp (handleSynSent hdr) (fun _ w' => Steps cause w w') (fun _ w' => Steps cause w w') w := by
  rw [handleSynSent]
  split
  · refine Steps.trans (.one (.handshake _ (.inl state))) (Steps.trans (.one (.forward .connected ?_)) (.quiet (.unchanged rfl rfl rfl) rfl))
    show w.conn.stats.state.rank ≤ _
    rw [state]
    decide
  · exact sendResetAndClose_moves w

theorem handleIdle_steps (hdr : Header) (w : World) (state : w.conn.stats.state = .idle) :
    wp (handleIdle hdr) (fun _ w' => Steps cause w w') (fun _ w' => Steps cause w w') w := by
  rw [handleIdle]
  split
  · have taken : Steps cause w {w with conn := {w.conn with localWnd := w.conn.localWnd.setLastSeqNr hdr.seqNr}} :=
      .one (.handshake _ (.inr state))
    simp only [modifyConn,wp_bind,wp_modify]
    refine wp_mono (sendState_transmits _) ?_ (fun _ _ failed => taken.trans failed.1.steps)
    intro _ w' moved
    refine taken.trans (moved.steps.trans (Steps.trans (.one (.forward .connected ?_)) (.quiet (.unchanged rfl rfl rfl) rfl)))
    rw [moved.state]
    show w.conn.stats.state.rank ≤ _
    rw [state]
    decide
  · exact sendResetAndClose_moves w

theorem handlePacket_moves (parser : PacketParser) (packet : Buffer) :
    Moves (Steps (.packet ⟨parser,packet⟩)) (handlePacket parser packet) := by
  have finish : Moves (Steps (.packet ⟨parser,packet⟩)) (do checkState; startTimer; return (← getConn).stats.state) :=
    Moves.bind Steps.trans checkState_moves fun _ => Moves.bind Steps.trans startTimer_transmits.steps fun _ => Steps.refl
  rw [handlePacket]
  refine Moves.bind Steps.trans (fun _ => .quiet (.unchanged rfl rfl rfl) rfl) fun _ => ?_
  refine Moves.bind Steps.trans (Resending.moves updateDelayMeasurement_moves) fun _ => ?_
  refine Moves.bind Steps.trans (Sending.moves (remotePacketReceived_moves (i := ⟨parser,packet⟩) rfl)) fun _ => ?_
  intro w
  rw [wp_getConn]
  refine Steps.andThen ?_ fun _ => finish
  cases state : w.conn.stats.state with
  | synSent => exact handleSynSent_steps _ w state
  | idle => exact handleIdle_steps _ w state
  | connected => exact handleConnected_steps (i := ⟨parser,packet⟩) rfl w state
  | finished => exact handleFinished_steps (i := ⟨parser,packet⟩) rfl w state
  | closed => exact .refl w

-- send takes the bytes it answers for, and only the transmitter can make it fail.
theorem send_spec (data : List UInt8) (w : World) :
    wp (send data)
      (fun ret w' => Steps (.send data) w w' ∧ w'.accepted = w.accepted ++ data.take (ret.getD 0) ∧ w'.delivered = w.delivered)
      (fun _ w' => Steps (.send data) w w' ∧ Refused w) w := by
  rw [send,wp_getConn]
  split
  · exact ⟨.refl w,by rw [Option.getD_none,List.take_zero,List.append_nil],rfl⟩
  · rename_i connected
    rw [wp_getConn]
    have taken : Steps (.send data) w {w with
        accepted := w.accepted ++ data.take (w.conn.outputBuffer.write data).2
        conn := {w.conn with outputBuffer := (w.conn.outputBuffer.write data).1}} :=
      .one (.buffered data rfl (not_not.mp connected))
    simp only [modifyConn,wp_bind,wp_modify,wp_pure]
    have sends : Transmits (.send data) sendPackets := sendPackets_transmits
    refine wp_mono (sends _) ?_ ?_
    · intro _ w' moved
      exact ⟨taken.trans (moved.steps.trans (.quiet (.unchanged rfl rfl rfl) rfl)),moved.accepted,moved.delivered⟩
    · intro _ w' failed
      exact ⟨taken.trans failed.1.steps,failed.2.before rfl⟩

-- recv returns the bytes that were read, unless there is an error.
theorem recvRead_spec (maxLen : UInt32) (w : World) :
    wp (recvRead maxLen)
      (fun ret w' => Steps (.recv maxLen) w w' ∧ w'.delivered = w.delivered ++ ret.getD [] ∧ w'.accepted = w.accepted)
      (fun e w' => Steps (.recv maxLen) w w' ∧ (e = .undefined ∧ w' = w ∨ Refused w)) w := by
  rw [recvRead,wp_getConn]
  split
  · exact ⟨.refl w,by rw [Option.getD_none,List.append_nil],rfl⟩
  split
  · exact ⟨.refl w,.inl ⟨rfl,rfl⟩⟩
  · rename_i localWnd bytes result
    have taken : Steps (.recv maxLen) w {w with delivered := w.delivered ++ bytes,conn := {w.conn with localWnd}} :=
      .one (.read maxLen localWnd bytes rfl result)
    have finish : ∀ w', Sending (.recv maxLen) {w with delivered := w.delivered ++ bytes,conn := {w.conn with localWnd}} w' →
        wp (do
          modifyStats fun s => {s with bytesReceived := s.bytesReceived + UInt64.ofNat bytes.length}
          modifyConn fun c => {c with stats := {c.stats with readable := c.localWnd.isReadable}}
          return some bytes)
        (fun ret w' => Steps (.recv maxLen) w w' ∧ w'.delivered = w.delivered ++ ret.getD [] ∧ w'.accepted = w.accepted)
        (fun e w' => Steps (.recv maxLen) w w' ∧ (e = .undefined ∧ w' = w ∨ Refused w)) w' := by
      intro w' moved
      exact ⟨taken.trans (moved.steps.trans (.quiet (.unchanged rfl rfl rfl) rfl)),moved.delivered,moved.accepted⟩
    rw [wp_bind,wp_modify]
    split
    · rw [wp_bind]
      refine wp_mono (sendState_transmits _) (fun _ w' moved => finish w' moved) ?_
      intro _ w' failed
      exact ⟨taken.trans failed.1.steps,.inr (failed.2.before rfl)⟩
    · exact finish _ (.refl _)

theorem recv_spec (maxLen : UInt32) (w : World) :
    wp (recv maxLen)
      (fun ret w' => Steps (.recv maxLen) w w' ∧ w'.delivered = w.delivered ++ ret.getD [] ∧ w'.accepted = w.accepted)
      (fun e w' => Steps (.recv maxLen) w w' ∧ (e = .undefined ∧ w'.delivered = w.delivered ∨ Refused w)) w := by
  have continues : ∀ w', Steps (.recv maxLen) w w' → w'.delivered = w.delivered → w'.accepted = w.accepted → w'.accepts = w.accepts →
      wp (recvRead maxLen)
        (fun ret w' => Steps (.recv maxLen) w w' ∧ w'.delivered = w.delivered ++ ret.getD [] ∧ w'.accepted = w.accepted)
        (fun e w' => Steps (.recv maxLen) w w' ∧ (e = .undefined ∧ w'.delivered = w.delivered ∨ Refused w)) w' := by
    intro w' moved delivered accepted accepts
    refine wp_mono (recvRead_spec maxLen w') ?_ ?_
    · rintro ret w'' ⟨later,delivered',accepted'⟩
      exact ⟨moved.trans later,delivered ▸ delivered',accepted'.trans accepted⟩
    · rintro e w'' ⟨later,⟨undefined,rfl⟩ | refused⟩
      · exact ⟨moved.trans later,.inl ⟨undefined,delivered⟩⟩
      · exact ⟨moved.trans later,.inr (refused.before accepts)⟩
  rw [recv,wp_getConn]
  split
  · rw [wp_bind,checkIfClosed,wp_getConn]
    split
    · rename_i done
      exact continues _ (.one (.drained done.1 done.2.1 done.2.2)) rfl rfl rfl
    · exact continues w (.refl w) rfl rfl rfl
  · exact continues w (.refl w) rfl rfl rfl

theorem close_moves : Moves (Steps cause) close := by
  intro w
  rw [close,wp_getConn]
  split
  · rename_i connected
    refine Steps.andThen (.one (.forward .finished ?_)) fun _ => sendPackets_transmits.steps
    rw [connected]
    decide
  · exact .refl w

theorem reset_moves : Moves (Steps .reset) reset := by
  intro w
  rw [reset,wp_getConn]
  split
  · refine Steps.andThen (sendReset_transmits.steps w) fun _ => ?_
    intro w'
    exact Steps.trans (.one (.forward .closed (closed_last _))) (.one (.cleared rfl rfl))
  · exact .refl w

theorem retimed_same (w : World) (packetSize timeout : UInt32) (small : packetSize ≤ fullPacketSize) :
    Same w {w with conn := {w.conn with stats := {w.conn.stats with packetSize,timeout}}} :=
  .of_compared rfl (.inr small) (List.prefix_refl _)

theorem timeoutConnected_steps (w : World) (state : w.conn.stats.state = .connected) :
    wp timeoutConnected (fun _ w' => Steps cause w w') (fun _ w' => Steps cause w w') w := by
  rw [timeoutConnected,wp_bind]
  refine wp_mono (remoteTimeout_moves w) ?_ (fun _ _ moved => moved.steps)
  intro _ w₁ moved
  have shrunk : Steps cause w {w₁ with conn := {w₁.conn with stats := {w₁.conn.stats with
      packetSize := minPacketSize
      timeout := w₁.conn.stats.timeout * 2}}} :=
    moved.steps.trans (.quiet (retimed_same w₁ _ _ (by decide)) rfl)
  rw [wp_bind,modifyStats,modifyConn,wp_modify,wp_getConn]
  split
  · have later : w₁.conn.stats.state.rank ≤ ConnectionState.finished.rank := by
      rw [moved.state,state]
      decide
    rw [wp_bind,setState,modifyStats,modifyConn,wp_modify]
    exact sendReset_transmits.steps.after Steps.trans (shrunk.trans (.one (.forward .finished later)))
  · rw [wp_bind]
    refine wp_mono (sendPackets_transmits.steps.after Steps.trans shrunk) ?_ (fun _ _ later => later)
    intro _ w₂ sent
    rw [wp_bind]
    refine wp_mono ((Resending.moves (timeNow_moves cause)).after Steps.trans sent) ?_ (fun _ _ later => later)
    intro now w₃ timed
    rw [wp_getConn]
    split
    · exact sendState_transmits.steps.after Steps.trans timed
    · exact timed

theorem handleTimeout_moves : Moves (Steps cause) handleTimeout := by
  intro w
  rw [handleTimeout,wp_getConn]
  refine Steps.andThen ?_ fun _ => checkState_moves
  cases state : w.conn.stats.state with
  | synSent => exact setClosed_moves w
  | finished => exact setClosed_moves w
  | connected => exact timeoutConnected_steps w state
  | idle => exact startTimer_transmits.steps w
  | closed => exact .refl w

theorem checkTimeout_moves : Moves (Steps cause) (checkTimeout now) := by
  intro w
  rw [checkTimeout,wp_getConn]
  split
  · exact handleTimeout_moves w
  · exact .refl w

end KtorrentStream.Utp
