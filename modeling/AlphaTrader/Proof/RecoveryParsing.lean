import AlphaTrader.Proof.FeedParsing

/-!
# A recovery may be read in any pieces

The bytes of a recovery connection are parsed from a buffer that every read extends. A read may end
inside the status byte's answer, inside a frame, or behind the frame that aborts the replay or completes
the snapshot. A frame that is not there yet, or that the decoder turns down, is looked at again with the
next read and leaves nothing behind; and once the connection is closed there is no next read. So the
reads do not matter, as long as nothing follows the end of a snapshot that completes the recovery: what
is behind it in the same read is still decoded.
-/

namespace AlphaTrader

namespace MarketDataConsumer

variable {c c' : MarketDataConsumer} {kind : FrameKind} {data rest : List UInt8} {arrival : Arrival}

/-! ### Offers -/

/-- An offer that is accepted, or that gets the decoder stuck, has all bytes of its frame. -/
theorem offer_append_of_decided (hdecided : ∀ c', c.offer kind data ≠ some (c', none))
    (more : List UInt8) : c.offer kind (data ++ more) = c.offer kind data := by
  refine offer_append_of_decodeFrame ?_
  by_cases hcomplete : ∃ type, ItchDecoder.Complete kind data type
  · obtain ⟨type, hcomplete⟩ := hcomplete
    exact ItchDecoder.decodeFrame_append_of_complete c.decoder hcomplete more
  · obtain ⟨update, size, more, hdecode, -⟩ :=
      ItchDecoder.decodeFrame_of_incomplete c.decoder hcomplete
    refine absurd ?_ (hdecided { c with decoder := { c.decoder with
      lastDecodedSize := size, needMoreData := more } })
    simp [offer, hdecode]

theorem isEmpty_append (hdata : ¬ data.isEmpty = true) (more : List UInt8) :
    ¬ (data ++ more).isEmpty = true := by
  simp only [List.isEmpty_iff, List.append_eq_nil_iff] at hdata ⊢
  exact fun h => hdata h.1

/-! ### Snapshots -/

/-- A pass that does not wait is the same with more bytes behind it. -/
theorem snapshotPass_append (hgoes : ∀ state, snapshotPass (c, data) ≠ some (.inr state))
    (more : List UInt8) :
    snapshotPass (c, data ++ more) = (snapshotPass (c, data)).map
      (Sum.map (Prod.map id (· ++ more)) (Prod.map id (· ++ more))) := by
  unfold snapshotPass at hgoes ⊢
  dsimp only at hgoes ⊢
  by_cases hempty : data.isEmpty = true
  · exact absurd (if_pos hempty) (hgoes _)
  have hlonger : ¬ (data ++ more).isEmpty = true := isEmpty_append hempty more
  rw [if_neg hempty] at hgoes
  rw [if_neg hempty, if_neg hlonger, offer_append_of_decided]
  · match hoffer : c.offer .snapshot data with
    | none => rfl
    | some (c', some arrival) =>
        have hfits : c'.decoder.lastDecodedSize ≤ data.length :=
          (Nat.zero_add _).symm.trans_le (accepted_of_offer hoffer).fits
        simp only [List.drop_append_of_le_length hfits]
        rfl
    | some (c', none) =>
        rw [hoffer] at hgoes
        exact absurd rfl (hgoes _)
  · intro c' hoffer
    rw [hoffer] at hgoes
    exact hgoes _ rfl

theorem snapshotPass_wait (hpass : snapshotPass (c, data) = some (.inr (c', rest))) :
    rest = data ∧ (c' = c ∨ ¬ data.isEmpty = true ∧ c.offer .snapshot data = some (c', none)) := by
  unfold snapshotPass at hpass
  dsimp only at hpass
  split at hpass
  case isTrue =>
      obtain ⟨rfl, rfl⟩ := by simpa using hpass
      exact ⟨rfl, Or.inl rfl⟩
  case isFalse hdata =>
      split at hpass
      case h_1 => cases hpass
      case h_2 => cases hpass
      case h_3 hoffer =>
          obtain ⟨rfl, rfl⟩ := by simpa using hpass
          exact ⟨rfl, Or.inr ⟨hdata, hoffer⟩⟩

theorem snapshotPass_stable : Incremental.Stable snapshotPass where
  shrinks := snapshotPass_decreases
  stuck more hpass := by
    rw [snapshotPass_append (by simp [hpass]), hpass, Option.map_none]
  goes more hpass := by
    rw [snapshotPass_append (by simp [hpass]), hpass]
    rfl
  waits {c data c' rest} more hpass := by
    obtain ⟨hrest, hwait⟩ := snapshotPass_wait hpass
    refine ⟨hrest, ?_⟩
    rcases hwait with rfl | ⟨hdata, hoffer⟩
    · rfl
    · have hlonger := isEmpty_append hdata more
      unfold snapshotPass
      dsimp only
      rw [if_neg hlonger, if_neg hlonger, offer_of_rejected hoffer]

/-! ### The buffer -/

/-- The consumer with other bytes in its TCP buffer, which no pass reads. -/
def stowTcp (bytes : List UInt8) (c : MarketDataConsumer) : MarketDataConsumer :=
  { c with snapshotTcpBuffer := bytes }

/-- The consumer apart from the bytes in its TCP buffer. -/
def observed (c : MarketDataConsumer) : MarketDataConsumer := c.stowTcp []

theorem offer_stowTcp (bytes : List UInt8) (kind : FrameKind) (wire : List UInt8) :
    (c.stowTcp bytes).offer kind wire = (c.offer kind wire).map (Prod.map (stowTcp bytes) id) :=
  offer_map (stowTcp bytes) rfl (fun _ => rfl) (fun _ _ => rfl) kind wire

theorem processSnapshot_stowTcp (bytes : List UInt8) :
    (c.stowTcp bytes).processSnapshot arrival = (c.processSnapshot arrival).stowTcp bytes := by
  unfold processSnapshot finishSnapshotSync stowTcp
  dsimp only
  repeat' split
  all_goals rfl

theorem snapshotPass_stowTcp (bytes : List UInt8) (state : MarketDataConsumer × List UInt8) :
    snapshotPass (Prod.map (stowTcp bytes) id state) =
      (snapshotPass state).map
        (Sum.map (Prod.map (stowTcp bytes) id) (Prod.map (stowTcp bytes) id)) := by
  obtain ⟨c, data⟩ := state
  unfold snapshotPass
  dsimp only [Prod.map_apply, id]
  rw [offer_stowTcp]
  split
  case isTrue => rfl
  case isFalse =>
      match c.offer .snapshot data with
      | none => rfl
      | some (c', some arrival) =>
          simp only [Option.map_some, Prod.map_apply, id, processSnapshot_stowTcp]
          rfl
      | some (c', none) => rfl

theorem parse_stowTcp (bytes wire : List UInt8) :
    (Incremental.parse snapshotPass (c.stowTcp bytes) wire).map (fun done => done.1.stowTcp done.2) =
      (Incremental.parse snapshotPass c wire).map fun done => done.1.stowTcp done.2 := by
  have hrun : Incremental.parse snapshotPass (c.stowTcp bytes) wire =
      (Incremental.parse snapshotPass c wire).map (Prod.map (stowTcp bytes) id) :=
    Loop.run_map (Prod.map (stowTcp bytes) id) (Prod.map (stowTcp bytes) id)
      (snapshotPass_stowTcp bytes) (wire.length + 1) (c, wire)
  rw [hrun, Option.map_map]
  rfl

theorem readSnapshot_eq : c.readSnapshot =
    (Incremental.parse snapshotPass c c.snapshotTcpBuffer).map fun done => done.1.stowTcp done.2 := by
  unfold readSnapshot Incremental.parse
  split
  case h_1 hrun => rw [hrun, Option.map_none]
  case h_2 hrun => rw [hrun, Option.map_some, stowTcp]

/-! ### Reads -/

/-- Bytes arrive on a recovery connection, the one that is there after the socket calls `calls`. When it
has been closed, and perhaps another one opened, nothing of it is read any more. -/
def receive (calls : List SocketCall) (c : MarketDataConsumer) : List UInt8 → Option MarketDataConsumer
  | [] => some c
  | byte :: bytes =>
      if c.socketCalls = calls then c.step (.tcp (.data byte bytes)) else some c

/-- The consumer reads from the connection. -/
def Connected (calls : List SocketCall) (c : MarketDataConsumer) : Prop :=
  c.socketCalls = calls ∧ c.inRecovery = true

variable {calls : List SocketCall}

theorem receive_of_not_connected (hclosed : ¬ c.Connected calls) (bytes : List UInt8) :
    c.receive calls bytes = some c := by
  cases bytes with
  | nil => rfl
  | cons byte bytes =>
      by_cases hcalls : c.socketCalls = calls
      · rw [receive, if_pos hcalls, step, if_neg fun hrecovery => hclosed ⟨hcalls, hrecovery⟩]
      · rw [receive, if_neg hcalls]

theorem receive_of_connected (hopen : c.Connected calls) (hdata : data ≠ []) :
    c.receive calls data =
      if c.recoveryMode = .replay then (c.stowTcp (c.snapshotTcpBuffer ++ data)).processReplay
      else (c.stowTcp (c.snapshotTcpBuffer ++ data)).readSnapshot := by
  obtain ⟨byte, bytes, rfl⟩ := List.exists_cons_of_ne_nil hdata
  rw [receive, if_pos hopen.1, step, if_pos hopen.2]
  rfl

theorem receive_snapshot (hopen : c.Connected calls) (hmode : c.recoveryMode ≠ .replay) (hdata : data ≠ []) :
    c.receive calls data = (Incremental.parse snapshotPass c (c.snapshotTcpBuffer ++ data)).map
      fun done => done.1.stowTcp done.2 := by
  rw [receive_of_connected hopen hdata, if_neg hmode, readSnapshot_eq]
  exact parse_stowTcp _ _

/-- The recovery is a snapshot, and while it lasts its frames leave the connection as it is. -/
def Streaming (calls : List SocketCall) (c : MarketDataConsumer) : Prop :=
  c.recoveryMode ≠ .replay ∧ (c.inRecovery = true → c.socketCalls = calls)

theorem streaming_processSnapshot (hstreaming : c.Streaming calls) :
    (c.processSnapshot arrival).Streaming calls := by
  refine ⟨processSnapshot_mode hstreaming.1, ?_⟩
  unfold processSnapshot finishSnapshotSync
  dsimp only
  repeat' split
  all_goals first
    | exact hstreaming.2
    | exact fun hrecovery => Bool.noConfusion hrecovery

theorem streaming_of_offer {answer : Option Arrival} (hoffer : c.offer kind data = some (c', answer))
    (hstreaming : c.Streaming calls) : c'.Streaming calls := by
  cases answer with
  | some arrival =>
      obtain ⟨decoder, -, rfl⟩ := (accepted_of_offer hoffer).decoded
      exact hstreaming
  | none =>
      obtain ⟨size, more, rfl⟩ := resting_of_offer hoffer
      exact hstreaming

theorem streaming_parse {done : MarketDataConsumer × List UInt8} (hstreaming : c.Streaming calls)
    (hparse : Incremental.parse snapshotPass c data = some done) : done.1.Streaming calls := by
  have hpass : ∀ (state : MarketDataConsumer × List UInt8) next, state.1.Streaming calls → True →
      snapshotPass state = some next → next.elim (·.1.Streaming calls) (·.1.Streaming calls) := by
    rintro ⟨c, data⟩ next hstreaming - hpass
    unfold snapshotPass at hpass
    dsimp only at hpass
    split at hpass
    case isTrue =>
        obtain rfl := Option.some.inj hpass
        exact hstreaming
    case isFalse =>
        split at hpass
        case h_1 => cases hpass
        case h_2 hoffer =>
            obtain rfl := Option.some.inj hpass
            exact streaming_processSnapshot (streaming_of_offer hoffer hstreaming)
        case h_3 hoffer =>
            obtain rfl := Option.some.inj hpass
            exact streaming_of_offer hoffer hstreaming
  exact Loop.post (fun state => state.1.Streaming calls) (fun done => done.1.Streaming calls) hpass
    hstreaming (Loop.During.of_forall (fun _ => trivial) _ _) hparse

/-- Two reads of a snapshot are one, if the first does not complete the recovery. -/
theorem receive_append_snapshot (hopen : c.Connected calls) (hmode : c.recoveryMode ≠ .replay)
    (hdata : data ≠ []) {more : List UInt8} (hmore : more ≠ [])
    (hlasts : ∀ c', c.receive calls data = some c' → c'.inRecovery = true) :
    c.receive calls (data ++ more) = (c.receive calls data).bind fun c' => c'.receive calls more := by
  rw [receive_snapshot hopen hmode hdata] at hlasts ⊢
  rw [receive_snapshot hopen hmode (List.append_ne_nil_of_left_ne_nil hdata more), ← List.append_assoc,
    Incremental.parse_append snapshotPass_stable]
  cases hparse : Incremental.parse snapshotPass c (c.snapshotTcpBuffer ++ data) with
  | none => rfl
  | some done =>
      have hstreaming := streaming_parse ⟨hmode, fun _ => hopen.1⟩ hparse
      have hrecovery : (done.1.stowTcp done.2).inRecovery = true := hlasts _ (by rw [hparse]; rfl)
      have hopen' : (done.1.stowTcp done.2).Connected calls := ⟨hstreaming.2 hrecovery, hrecovery⟩
      rw [Option.bind_some, Option.map_some, Option.bind_some,
        receive_snapshot hopen' hstreaming.1 hmore, parse_stowTcp]
      rfl

/-! ### Replays -/

/-- The status of the replay has been read, and its frames are. -/
def Replaying (calls : List SocketCall) (c : MarketDataConsumer) : Prop :=
  c.Connected calls ∧ c.recoveryMode = .replay ∧ c.replayStatusRead = true

theorem replaying_of_offer {answer : Option Arrival} (hoffer : c.offer kind data = some (c', answer))
    (hreplaying : c.Replaying calls) : c'.Replaying calls := by
  cases answer with
  | some arrival =>
      obtain ⟨decoder, -, rfl⟩ := (accepted_of_offer hoffer).decoded
      exact hreplaying
  | none =>
      obtain ⟨size, more, rfl⟩ := resting_of_offer hoffer
      exact hreplaying

/-- What a pass over the frames of a replay does: it gets stuck, takes a frame, aborts the replay or
waits. Only waiting depends on how many bytes are there. -/
inductive ReplayPass (c : MarketDataConsumer) (data : List UInt8) : Prop
  | stuck (hpass : ∀ more, replayPass (c, data ++ more) = none)
  | goes (c' : MarketDataConsumer) (rest : List UInt8) (hless : rest.length < data.length)
      (hpass : ∀ more, replayPass (c, data ++ more) = some (.inl (c', rest ++ more)))
      (hkept : ∀ calls, c.Replaying calls → c'.Replaying calls)
  | aborts (c' : MarketDataConsumer)
      (hpass : ∀ more, replayPass (c, data ++ more) = some (.inr c'.abortSnapshotSync))
  | waits (c' : MarketDataConsumer) (hpass : replayPass (c, data) = some (.inr (c'.stowTcp data)))
      (hkept : ∀ calls, c.Replaying calls → c'.Replaying calls)
      (hsame : ∀ wire, wire ≠ [] → replayPass (c', wire) = replayPass (c, wire))

theorem replayPass_cases (c : MarketDataConsumer) (data : List UInt8) : ReplayPass c data := by
  by_cases hempty : data.isEmpty = true
  · exact .waits c (by rw [replayPass, if_pos hempty]; rfl) (fun _ h => h) fun _ _ => rfl
  have hdrop : ∀ more, (data ++ more).isEmpty = false := fun more => by
    simpa using isEmpty_append hempty more
  by_cases hdecided : ∀ c', c.offer .feed data ≠ some (c', none)
  · have hoffers := offer_append_of_decided hdecided
    match hoffer : c.offer .feed data with
    | none =>
        refine .stuck fun more => ?_
        simp only [replayPass, hdrop, hoffers, hoffer, Bool.false_eq_true, if_false]
    | some (c', none) => exact absurd hoffer (hdecided c')
    | some (c', some arrival) =>
        have haccepted := accepted_of_offer hoffer
        by_cases hseq : arrival.update.seqNum ≠ c'.replayLastApplied + 1
        · refine .aborts c' fun more => ?_
          simp only [replayPass, hdrop, hoffers, hoffer, Bool.false_eq_true, if_false, if_pos hseq]
        · refine .goes { c' with
              replayLastApplied := arrival.update.seqNum
              snapshotQueuedUpdates := c'.snapshotQueuedUpdates ++ [arrival] }
            (data.drop (8 + c'.decoder.lastDecodedSize)) ?_ (fun more => ?_) fun calls h => ?_
          · have hsize := haccepted.size
            have hfits := haccepted.fits
            simp only [List.length_drop]
            omega
          · simp only [replayPass, hdrop, hoffers, hoffer, Bool.false_eq_true, if_false, if_neg hseq]
            rw [List.drop_append_of_le_length (show 8 + _ ≤ data.length from haccepted.fits)]
          · have hkept : c'.Replaying calls := replaying_of_offer hoffer h
            exact hkept
  · push Not at hdecided
    obtain ⟨c', hoffer⟩ := hdecided
    refine .waits c' ?_ (fun calls h => replaying_of_offer hoffer h) fun wire hwire => ?_
    · simp only [replayPass, if_neg hempty, hoffer]
      rfl
    · have hwire' : ¬ wire.isEmpty = true := by simpa using hwire
      simp only [replayPass, if_neg hwire', offer_of_rejected hoffer]

theorem run_replayPass_of_go (hpass : replayPass (c, data) = some (.inl (c', rest))) :
    Loop.run replayPass (data.length + 1) (c, data) = Loop.run replayPass (rest.length + 1) (c', rest) := by
  have hless := replayPass_decreases _ _ hpass
  have hrun : Loop.run replayPass (data.length + 1) (c, data) =
      Loop.run replayPass data.length (c', rest) := by
    simp only [Loop.run, hpass]
  rw [hrun]
  exact Loop.run_eq_of_measure (fun state => state.2.length) replayPass_decreases hless
    (Nat.lt_succ_self _)

theorem run_replayPass_of_done (hpass : replayPass (c, data) = some (.inr c')) :
    Loop.run replayPass (data.length + 1) (c, data) = some c' := by
  simp only [Loop.run, hpass]

/-- What shows of a replay that is read from the bytes `wire`. -/
def replayed (c : MarketDataConsumer) (wire : List UInt8) : Option MarketDataConsumer :=
  (Loop.run replayPass (wire.length + 1) (c, wire)).map observed

theorem replayed_stowTcp (bytes wire : List UInt8) : (c.stowTcp bytes).replayed wire = c.replayed wire := by
  let body := fun state => (replayPass state).map (Sum.map id observed)
  have hobserved : ∀ fuel state, Loop.run body fuel state = (Loop.run replayPass fuel state).map observed :=
    Loop.run_map id observed fun _ => rfl
  have hstow : ∀ state, body (Prod.map (stowTcp bytes) id state) =
      (body state).map (Sum.map (Prod.map (stowTcp bytes) id) id) := by
    rintro ⟨c, data⟩
    simp only [body, replayPass, Prod.map_apply, id, offer_stowTcp]
    split
    case isTrue => rfl
    case isFalse =>
        match c.offer .feed data with
        | none => rfl
        | some (c', none) => rfl
        | some (c', some arrival) =>
            have hlast : (c'.stowTcp bytes).replayLastApplied = c'.replayLastApplied := rfl
            simp only [Option.map_some, Prod.map_apply, id, hlast]
            by_cases hseq : arrival.update.seqNum ≠ c'.replayLastApplied + 1
            · rw [if_pos hseq, if_pos hseq]
              rfl
            · rw [if_neg hseq, if_neg hseq]
              rfl
  have hrun := Loop.run_map (Prod.map (stowTcp bytes) id) id hstow (wire.length + 1) (c, wire)
  rw [hobserved, hobserved, Option.map_id] at hrun
  exact hrun

theorem receive_replaying (hreplaying : c.Replaying calls) (hdata : data ≠ []) :
    (c.receive calls data).map observed = c.replayed (c.snapshotTcpBuffer ++ data) := by
  obtain ⟨hopen, hmode, hstatus⟩ := hreplaying
  have hstatus' : (c.stowTcp (c.snapshotTcpBuffer ++ data)).replayStatusRead = true := hstatus
  rw [receive_of_connected hopen hdata, if_pos hmode, processReplay, if_pos hstatus']
  exact replayed_stowTcp _ _

/-- The frames of a replay may be cut anywhere. -/
theorem replayed_append (hreplaying : c.Replaying calls) (data more : List UInt8) :
    c.replayed (data ++ more) = ((Loop.run replayPass (data.length + 1) (c, data)).bind fun c' =>
      c'.receive calls more).map observed := by
  induction hlength : data.length using Nat.strong_induction_on generalizing c data with
  | _ n ih =>
      subst hlength
      rcases replayPass_cases c data with hpass | ⟨c', rest, hless, hpass, hkept⟩ | ⟨c', hpass⟩ |
        ⟨c', hpass, hkept, hsame⟩
      · have hstuck := hpass []
        rw [List.append_nil] at hstuck
        simp only [replayed, Loop.run, hpass, hstuck, Option.map_none, Option.bind_none]
      · have hgoes := hpass []
        rw [List.append_nil, List.append_nil] at hgoes
        rw [replayed, run_replayPass_of_go (hpass more), run_replayPass_of_go hgoes]
        exact ih _ hless (hkept calls hreplaying) rest rfl
      · have haborts := hpass []
        rw [List.append_nil] at haborts
        have hclosed : ¬ c'.abortSnapshotSync.Connected calls := fun h => Bool.noConfusion h.2
        rw [replayed, run_replayPass_of_done (hpass more), run_replayPass_of_done haborts, Option.bind_some,
          receive_of_not_connected hclosed]
      · rw [run_replayPass_of_done hpass, Option.bind_some]
        by_cases hmore : more = []
        · rw [hmore, List.append_nil, replayed, run_replayPass_of_done hpass]
          rfl
        · have hreplaying' : (c'.stowTcp data).Replaying calls := hkept calls hreplaying
          rw [receive_replaying hreplaying' hmore, replayed_stowTcp]
          change c.replayed (data ++ more) = c'.replayed (data ++ more)
          simp only [replayed, Loop.run]
          rw [hsame _ (List.append_ne_nil_of_right_ne_nil data hmore)]

/-- The consumer after the status byte of a replay, with the bytes behind it. -/
def granted (rest : List UInt8) (c : MarketDataConsumer) : MarketDataConsumer :=
  { c with snapshotTcpBuffer := rest, replayStatusRead := true }

theorem inRecovery_finishReplaySync (c : MarketDataConsumer) : c.finishReplaySync.inRecovery = false := by
  unfold finishReplaySync
  dsimp only
  split <;> rfl

/-- The bytes behind the status do not show when the replay finishes with it. -/
theorem observed_finishReplaySync (rest rest' : List UInt8) :
    (c.granted rest).closeSocket.finishReplaySync.observed =
      (c.granted rest').closeSocket.finishReplaySync.observed := by
  unfold finishReplaySync
  have hqueue : ∀ bytes, (c.granted bytes).closeSocket.incrementalQueuedUpdates =
      c.incrementalQueuedUpdates := fun _ => rfl
  have hlast : ∀ bytes, (c.granted bytes).closeSocket.replayLastApplied = c.replayLastApplied := fun _ => rfl
  simp only [hqueue, hlast]
  split <;> rfl

/-- The status byte grants the replay, or closes the connection, whatever bytes are behind it. -/
theorem processReplay_cons (hcalls : c.socketCalls = calls) (hstatus : c.replayStatusRead = false)
    (status : UInt8) :
    (∀ rest, (c.stowTcp (status :: rest)).processReplay = (c.granted rest).readReplay)
      ∨ ∃ closed : List UInt8 → MarketDataConsumer,
        (∀ rest, (c.stowTcp (status :: rest)).processReplay = some (closed rest))
          ∧ (∀ rest, ¬ (closed rest).Connected calls)
          ∧ ∀ rest rest', (closed rest).observed = (closed rest').observed := by
  have hunread : ∀ rest, ¬ (c.stowTcp (status :: rest)).replayStatusRead = true := by
    intro rest
    simpa [stowTcp] using hstatus
  cases hbyte : ReplayStatus.ofByte status with
  | granted =>
      refine Or.inl fun rest => ?_
      rw [processReplay, if_neg (hunread rest)]
      simp only [stowTcp, hbyte]
      rfl
  | denied =>
      refine Or.inr ⟨fun rest => (c.granted rest).closeSocket.startSnapshotSync, fun rest => ?_, ?_,
        fun _ _ => rfl⟩
      · rw [processReplay, if_neg (hunread rest)]
        simp only [stowTcp, hbyte]
        rfl
      -- a socket was closed and another one opened
      · intro rest h
        have hlength := congrArg List.length h.1
        simp [startSnapshotSync, openSocket, closeSocket, granted, hcalls] at hlength
  | current =>
      refine Or.inr ⟨fun rest => (c.granted rest).closeSocket.finishReplaySync, fun rest => ?_, ?_,
        observed_finishReplaySync⟩
      · rw [processReplay, if_neg (hunread rest)]
        simp only [stowTcp, hbyte]
        rfl
      · intro rest h
        rw [Connected, inRecovery_finishReplaySync] at h
        cases h.2
  | unexpected =>
      refine Or.inr ⟨fun rest => (c.granted rest).abortSnapshotSync, fun rest => ?_,
        fun _ h => Bool.noConfusion h.2, fun _ _ => rfl⟩
      rw [processReplay, if_neg (hunread rest)]
      simp only [stowTcp, hbyte]
      rfl

/-- Two reads of a replay are one. -/
theorem receive_append_replay (hopen : c.Connected calls) (hmode : c.recoveryMode = .replay)
    (hdata : data ≠ []) (more : List UInt8) :
    (c.receive calls (data ++ more)).map observed =
      ((c.receive calls data).bind fun c' => c'.receive calls more).map observed := by
  have hboth : data ++ more ≠ [] := List.append_ne_nil_of_left_ne_nil hdata more
  cases hstatus : c.replayStatusRead with
  | true =>
      have hreplaying : (c.stowTcp (c.snapshotTcpBuffer ++ data)).Replaying calls := ⟨hopen, hmode, hstatus⟩
      rw [receive_replaying ⟨hopen, hmode, hstatus⟩ hboth, ← List.append_assoc,
        receive_of_connected hopen hdata, if_pos hmode, processReplay, if_pos hreplaying.2.2,
        ← replayed_stowTcp (c.snapshotTcpBuffer ++ data)]
      exact replayed_append hreplaying _ more
  | false =>
      obtain ⟨status, rest, hwire⟩ := List.exists_cons_of_ne_nil
        (List.append_ne_nil_of_right_ne_nil c.snapshotTcpBuffer hdata)
      rw [receive_of_connected hopen hboth, receive_of_connected hopen hdata, if_pos hmode, if_pos hmode,
        ← List.append_assoc, hwire, List.cons_append]
      rcases processReplay_cons hopen.1 hstatus status with hgranted | ⟨closed, hclosed, hdeaf, hsame⟩
      · have hreplaying : (c.granted rest).Replaying calls := ⟨hopen, hmode, rfl⟩
        have hsplit := replayed_append hreplaying rest more
        rw [show c.granted rest = (c.granted (rest ++ more)).stowTcp rest from rfl, replayed_stowTcp]
          at hsplit
        rw [hgranted, hgranted]
        exact hsplit
      · rw [hclosed, hclosed, Option.bind_some, receive_of_not_connected (hdeaf rest)]
        exact congrArg some (hsame _ _)

/-- A replay that goes on is still a replay. -/
theorem mode_of_run_replayPass (hreplaying : c.Replaying calls)
    (hrun : Loop.run replayPass (data.length + 1) (c, data) = some c') (hopen : c'.Connected calls) :
    c'.recoveryMode = .replay := by
  induction hlength : data.length using Nat.strong_induction_on generalizing c data with
  | _ n ih =>
      subst hlength
      rcases replayPass_cases c data with hpass | ⟨c'', rest, hless, hpass, hkept⟩ | ⟨c'', hpass⟩ |
        ⟨c'', hpass, hkept, -⟩
      · have hstuck := hpass []
        rw [List.append_nil] at hstuck
        simp only [Loop.run, hstuck] at hrun
        cases hrun
      · have hgoes := hpass []
        rw [List.append_nil, List.append_nil] at hgoes
        rw [run_replayPass_of_go hgoes] at hrun
        exact ih _ hless (hkept calls hreplaying) hrun rfl
      · have haborts := hpass []
        rw [List.append_nil] at haborts
        rw [run_replayPass_of_done haborts] at hrun
        obtain rfl := Option.some.inj hrun
        cases hopen.2
      · rw [run_replayPass_of_done hpass] at hrun
        obtain rfl := Option.some.inj hrun
        exact (hkept calls hreplaying).2.1

theorem mode_of_receive (hopen : c.Connected calls) (hmode : c.recoveryMode = .replay)
    (hreceive : c.receive calls data = some c') (hopen' : c'.Connected calls) :
    c'.recoveryMode = .replay := by
  by_cases hdata : data = []
  · subst hdata
    obtain rfl := Option.some.inj hreceive
    exact hmode
  rw [receive_of_connected hopen hdata, if_pos hmode] at hreceive
  cases hstatus : c.replayStatusRead with
  | true =>
      have hreplaying : (c.stowTcp (c.snapshotTcpBuffer ++ data)).Replaying calls := ⟨hopen, hmode, hstatus⟩
      rw [processReplay, if_pos hreplaying.2.2] at hreceive
      exact mode_of_run_replayPass hreplaying hreceive hopen'
  | false =>
      obtain ⟨status, rest, hwire⟩ := List.exists_cons_of_ne_nil
        (List.append_ne_nil_of_right_ne_nil c.snapshotTcpBuffer hdata)
      rw [hwire] at hreceive
      rcases processReplay_cons hopen.1 hstatus status with hgranted | ⟨closed, hclosed, hdeaf, -⟩
      · have hreplaying : (c.granted rest).Replaying calls := ⟨hopen, hmode, rfl⟩
        rw [hgranted] at hreceive
        exact mode_of_run_replayPass hreplaying hreceive hopen'
      · rw [hclosed] at hreceive
        obtain rfl := Option.some.inj hreceive
        exact absurd hopen' (hdeaf rest)

/-! ### Streams -/

/-- Nothing follows the end of a snapshot that completes the recovery: whoever has read less than the
whole stream is still in recovery. -/
def NothingFollows (calls : List SocketCall) (c : MarketDataConsumer) (stream : List UInt8) : Prop :=
  c.recoveryMode ≠ .replay → ∀ read, read <+: stream → read ≠ stream →
    ∀ c', c.receive calls read = some c' → c'.inRecovery = true

theorem NothingFollows.of_prefix {stream stream' : List UInt8} (hend : c.NothingFollows calls stream)
    (hfront : stream' <+: stream) : c.NothingFollows calls stream' := by
  intro hmode read hread hne
  refine hend hmode read (hread.trans hfront) fun heq => hne ?_
  subst heq
  exact hread.eq_of_length_le hfront.length_le

/-- **Two reads** are one. -/
theorem receive_append (hopen : c.Connected calls) {data more : List UInt8}
    (hend : c.NothingFollows calls (data ++ more)) :
    (c.receive calls (data ++ more)).map observed =
      ((c.receive calls data).bind fun c' => c'.receive calls more).map observed := by
  by_cases hmore : more = []
  · subst hmore
    rw [List.append_nil]
    cases c.receive calls data <;> rfl
  by_cases hdata : data = []
  · subst hdata
    rfl
  by_cases hmode : c.recoveryMode = .replay
  · exact receive_append_replay hopen hmode hdata more
  · have hproper : data ≠ data ++ more := fun heq => hmore (List.self_eq_append_right.mp heq)
    rw [receive_append_snapshot hopen hmode hdata hmore
      (hend hmode data (List.prefix_append data more) hproper)]

theorem nothingFollows_of_receive (hopen : c.Connected calls) {data more : List UInt8}
    (hend : c.NothingFollows calls (data ++ more)) (hreceive : c.receive calls data = some c')
    (hopen' : c'.Connected calls) : c'.NothingFollows calls more := by
  intro hmode read hread hne c'' hread'
  have hmode' : c.recoveryMode ≠ .replay := fun h => hmode (mode_of_receive hopen h hreceive hopen')
  have hfront : data ++ read <+: data ++ more := (List.prefix_append_right_inj data).mpr hread
  have hjoined := receive_append hopen (hend.of_prefix hfront)
  rw [hreceive, Option.bind_some, hread', Option.map_some] at hjoined
  obtain ⟨joined, hjoined, hobserved⟩ := Option.map_eq_some_iff.mp hjoined
  have hrecovery : joined.inRecovery = true :=
    hend hmode' _ hfront (fun heq => hne (List.append_cancel_left heq)) joined hjoined
  exact (congrArg inRecovery hobserved).symm.trans hrecovery

theorem foldlM_receive (chunks : List (List UInt8))
    (hend : c.Connected calls → c.NothingFollows calls chunks.flatten) :
    (chunks.foldlM (receive calls) c).map observed = (c.receive calls chunks.flatten).map observed := by
  induction chunks generalizing c with
  | nil => rfl
  | cons chunk chunks ih =>
      rw [List.foldlM_cons, List.flatten_cons, Option.bind_eq_bind]
      by_cases hopen : c.Connected calls
      · rw [List.flatten_cons] at hend
        rw [receive_append hopen (hend hopen)]
        cases hreceive : c.receive calls chunk with
        | none => rfl
        | some c' => exact ih (nothingFollows_of_receive hopen (hend hopen) hreceive)
      · rw [receive_of_not_connected hopen, receive_of_not_connected hopen, Option.bind_some,
          ih fun h => absurd h hopen, receive_of_not_connected hopen]

/-- **Reads do not matter.** However the bytes of a recovery connection are cut into reads, the consumer
is the same after the last one, apart from what is left in its buffer. -/
theorem recovery_chunks (c : MarketDataConsumer) {chunks chunks' : List (List UInt8)}
    (hsame : chunks.flatten = chunks'.flatten)
    (hend : c.NothingFollows c.socketCalls chunks.flatten) :
    (chunks.foldlM (receive c.socketCalls) c).map observed =
      (chunks'.foldlM (receive c.socketCalls) c).map observed := by
  rw [foldlM_receive chunks fun _ => hend, foldlM_receive chunks' fun _ => hsame ▸ hend, hsame]

/-- The end of the snapshot is cut in two. -/
theorem recovery_chunks_emptySnapshot :
    ([(emptySnapshot 9).take 30, (emptySnapshot 9).drop 30].foldlM (receive start.socketCalls) start).map observed =
      ([emptySnapshot 9].foldlM (receive start.socketCalls) start).map observed := by
  refine recovery_chunks start rfl fun _ read hread hne c' hreceive => ?_
  have hall : ∀ read ∈ (emptySnapshot 9).inits, read ≠ emptySnapshot 9 →
      (start.receive start.socketCalls read).all (·.inRecovery) = true := by decide +kernel
  have hlasts := hall read ((List.mem_inits _ _).mpr hread) hne
  rw [hreceive] at hlasts
  exact hlasts

end MarketDataConsumer

end AlphaTrader
