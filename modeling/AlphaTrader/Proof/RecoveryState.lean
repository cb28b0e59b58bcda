import AlphaTrader.Proof.DeliveredStream

/-!
# The recovery is one state machine

The flags, the mode, the socket and the queues of a recovery are written by handlers that call each
other. Between two handlers they agree: the consumer is in recovery exactly while a mode is set and a
socket is open, and outside of it the queues are empty. That the consumer is either synchronized or in
recovery holds only as long as no recovery is given up.
-/

namespace AlphaTrader

/-! ### Sockets -/

/-- Each socket is closed, once, before the next one is opened. Only `current` is still open. -/
def SocketsInTurn (calls : List SocketCall) (current : Option Nat) : Prop :=
  ∃ earlier : List Nat,
    calls = earlier.flatMap (fun socket => [.opened socket, .closed (some socket)])
      ++ current.toList.map .opened

namespace SocketsInTurn

variable {calls : List SocketCall} {current : Option Nat} {socket : Nat}

theorem opened (h : SocketsInTurn calls none) (socket : Nat) :
    SocketsInTurn (calls ++ [.opened socket]) (some socket) := by
  obtain ⟨earlier, rfl⟩ := h
  exact ⟨earlier, by simp⟩

theorem closed (h : SocketsInTurn calls current) (hopen : current ≠ none) :
    SocketsInTurn (calls ++ [.closed current]) none := by
  obtain ⟨socket, rfl⟩ := Option.ne_none_iff_exists'.mp hopen
  obtain ⟨earlier, rfl⟩ := h
  exact ⟨earlier ++ [socket], by simp⟩

theorem closedIfOpen (h : SocketsInTurn calls current) :
    SocketsInTurn (calls ++ if current.isSome then [.closed current] else []) none := by
  cases current with
  | none =>
      rw [if_neg (by simp), List.append_nil]
      exact h
  | some socket =>
      rw [if_pos Option.isSome_some]
      exact h.closed (Option.some_ne_none socket)

end SocketsInTurn

namespace MarketDataConsumer

variable {c c' : MarketDataConsumer} {arrival : Arrival}

/-! ### Agreement of the parts -/

/-- The parts of the recovery agree. -/
structure Consistent (c : MarketDataConsumer) : Prop where
  mode : c.inRecovery = true ↔ c.recoveryMode ≠ .none
  socket : c.inRecovery = true ↔ c.snapshotTcpFd ≠ none
  sockets : SocketsInTurn c.socketCalls c.snapshotTcpFd
  opened : c.snapshotHaveStart = true → c.recoveryMode = .snapshot
    ∧ ∃ opening entries, c.snapshotQueuedUpdates = opening :: entries
      ∧ opening.update.type = .snapshotStart
  idle : c.inRecovery = false →
    c.incrementalQueuedUpdates.isEmpty = true ∧ c.snapshotQueuedUpdates = []
  synchronized : c.marketDataSynchronized = true → c.inRecovery = false

theorem Consistent.resting (h : Consistent c) (size : Nat) (more statusRead : Bool)
    (inbound tcp : List UInt8) : Consistent (c.resting size more statusRead inbound tcp) :=
  ⟨h.mode, h.socket, h.sockets, h.opened, h.idle, h.synchronized⟩

theorem Consistent.accepted {kind : FrameKind} {data : List UInt8} (h : Consistent c)
    (haccepted : Accepted c kind data arrival c') : Consistent c' := by
  obtain ⟨decoder, -, rfl⟩ := haccepted.decoded
  exact ⟨h.mode, h.socket, h.sockets, h.opened, h.idle, h.synchronized⟩

theorem Consistent.closed_of_replay (h : Consistent c) (hmode : c.recoveryMode = .replay) :
    c.snapshotHaveStart = false := by
  apply Bool.eq_false_iff.mpr
  intro hstart
  have hsnapshot := (h.opened hstart).1
  rw [hmode] at hsnapshot
  cases hsnapshot

theorem Consistent.closed_of_idle (h : Consistent c) (hidle : c.inRecovery = false) :
    c.snapshotHaveStart = false := by
  apply Bool.eq_false_iff.mpr
  intro hstart
  have hrecovery := h.mode.mpr (by rw [(h.opened hstart).1]; decide)
  rw [hidle] at hrecovery
  cases hrecovery

theorem Consistent.sockets_of_idle (h : Consistent c) (hidle : c.inRecovery = false) :
    SocketsInTurn c.socketCalls none := by
  have hnone : c.snapshotTcpFd = none := by
    by_contra hopen
    have hrecovery := h.socket.mpr hopen
    rw [hidle] at hrecovery
    cases hrecovery
  exact hnone ▸ h.sockets

theorem Consistent.sockets_closeSocket (h : Consistent c) (hrecovery : c.inRecovery = true) :
    SocketsInTurn c.closeSocket.socketCalls none :=
  h.sockets.closed (h.socket.mp hrecovery)

/-! ### Handlers -/

theorem consistent_startSnapshotSync (hsockets : SocketsInTurn c.socketCalls none) :
    Consistent c.startSnapshotSync where
  mode := iff_of_true rfl (by decide : RecoveryMode.snapshot ≠ .none)
  socket := iff_of_true rfl (Option.some_ne_none _)
  sockets := hsockets.opened _
  opened := nofun
  idle := nofun
  synchronized := nofun

theorem consistent_startReplaySync (hsockets : SocketsInTurn c.socketCalls none)
    (hclosed : c.snapshotHaveStart = false) (clientSeq : SeqNum) (fresh : Bool) :
    Consistent (c.startReplaySync clientSeq fresh) where
  mode := iff_of_true rfl (by decide : RecoveryMode.replay ≠ .none)
  socket := iff_of_true rfl (Option.some_ne_none _)
  sockets := hsockets.opened _
  opened hstart := absurd hstart (Bool.eq_false_iff.mp hclosed)
  idle := nofun
  synchronized := nofun

theorem consistent_abortSnapshotSync (hsockets : SocketsInTurn c.socketCalls c.snapshotTcpFd) :
    Consistent c.abortSnapshotSync where
  mode := iff_of_false (by decide : ¬ false = true) (not_not.mpr rfl)
  socket := iff_of_false (by decide : ¬ false = true) (not_not.mpr rfl)
  sockets := hsockets.closedIfOpen
  opened := nofun
  idle _ := ⟨Std.TreeMap.isEmpty_emptyc, rfl⟩
  synchronized := nofun

theorem consistent_completed {resumeSeq expected : SeqNum} {calls : List SocketCall} {tcp : List UInt8}
    (hclosed : c.snapshotHaveStart = false) (hsockets : SocketsInTurn calls none) :
    Consistent { c.completeSync resumeSeq expected with
      snapshotTcpFd := none, socketCalls := calls, snapshotTcpBuffer := tcp } where
  mode := iff_of_false (by decide : ¬ false = true) (not_not.mpr rfl)
  socket := iff_of_false (by decide : ¬ false = true) (not_not.mpr rfl)
  sockets := hsockets
  opened hstart := absurd hstart (Bool.eq_false_iff.mp hclosed)
  idle _ := ⟨Std.TreeMap.isEmpty_emptyc, rfl⟩
  synchronized _ := rfl

theorem consistent_finishReplaySync (hsockets : SocketsInTurn c.socketCalls c.snapshotTcpFd)
    (hclosed : c.snapshotHaveStart = false) : Consistent c.finishReplaySync := by
  unfold finishReplaySync
  dsimp only
  split
  case h_1 => exact consistent_abortSnapshotSync hsockets
  case h_2 => exact consistent_completed hclosed hsockets.closedIfOpen

theorem Consistent.queueIncremental (h : Consistent c) (hrecovery : c.inRecovery = true) :
    Consistent (c.queueIncremental arrival) where
  mode := h.mode
  socket := h.socket
  sockets := h.sockets
  opened := h.opened
  idle hidle := absurd hrecovery (Bool.eq_false_iff.mp hidle)
  synchronized := h.synchronized

theorem Consistent.processIncremental (h : Consistent c) :
    Consistent (c.processIncremental arrival) := by
  unfold MarketDataConsumer.processIncremental
  dsimp only
  split
  case isTrue hrecovery => exact h.queueIncremental hrecovery
  case isFalse hidle =>
      have hidle : c.inRecovery = false := Bool.eq_false_iff.mpr hidle
      have hsockets := h.sockets_of_idle hidle
      have hclosed := h.closed_of_idle hidle
      split
      case isTrue => exact ⟨h.mode, h.socket, h.sockets, h.opened, h.idle, h.synchronized⟩
      case isFalse =>
          split
          case isTrue => exact ⟨h.mode, h.socket, h.sockets, h.opened, h.idle, h.synchronized⟩
          case isFalse =>
              split
              case isFalse => exact h
              case isTrue =>
                  unfold detectGap
                  rw [if_neg (by simp [hidle])]
                  dsimp only
                  split
                  case isTrue =>
                      apply Consistent.queueIncremental _ rfl
                      exact consistent_startReplaySync hsockets hclosed _ _
                  case isFalse =>
                      apply Consistent.queueIncremental _ rfl
                      exact consistent_startSnapshotSync hsockets

theorem Consistent.processSnapshot (h : Consistent c) (hmode : c.recoveryMode ≠ .replay) :
    Consistent (c.processSnapshot arrival) := by
  unfold MarketDataConsumer.processSnapshot
  split
  case isTrue => exact h
  case isFalse hrecovery =>
      have hrecovery : c.inRecovery = true := by simpa using hrecovery
      have hbusy : ¬ c.inRecovery = false := by simp [hrecovery]
      have hsnapshot : c.recoveryMode = .snapshot := by
        have hset := h.mode.mp hrecovery
        cases hc : c.recoveryMode with
        | none => exact absurd hc hset
        | replay => exact absurd hc hmode
        | snapshot => rfl
      split
      case isTrue hstart =>
          exact ⟨h.mode, h.socket, h.sockets, fun _ => ⟨hsnapshot, arrival, [], rfl, hstart⟩,
            fun hidle => absurd hidle hbusy, h.synchronized⟩
      case isFalse =>
          split
          case isTrue => exact h
          case isFalse hopen =>
              obtain ⟨-, opening, entries, hlist, htype⟩ := h.opened (by simpa using hopen)
              dsimp only
              split
              case isFalse =>
                  refine ⟨h.mode, h.socket, h.sockets, fun _ => ⟨hsnapshot, opening,
                    entries ++ [arrival], ?_, htype⟩, fun hidle => absurd hidle hbusy, h.synchronized⟩
                  rw [hlist, List.cons_append]
              case isTrue =>
                  unfold finishSnapshotSync
                  split
                  case h_1 =>
                      exact ⟨h.mode, h.socket, h.sockets, nofun, fun hidle => absurd hidle hbusy,
                        h.synchronized⟩
                  case h_2 => exact consistent_completed rfl (h.sockets_closeSocket hrecovery)

/-- **Every turn** leaves the parts in agreement. -/
theorem consistent_takes (c : MarketDataConsumer) (turn : Turn) (c' : MarketDataConsumer)
    (h : Consistent c) (htakes : Takes c turn c') : Consistent c' := by
  cases htakes with
  | live haccepted => exact (h.accepted haccepted).processIncremental
  | snapshot hmode haccepted =>
      refine (h.accepted haccepted).processSnapshot ?_
      obtain ⟨decoder, -, rfl⟩ := haccepted.decoded
      exact hmode
  | replay hmode hrecovery haccepted =>
      have hclosed := Bool.eq_false_iff.mp (h.closed_of_replay hmode)
      obtain ⟨decoder, -, rfl⟩ := haccepted.decoded
      exact ⟨h.mode, h.socket, h.sockets, fun hstart => absurd hstart hclosed,
        fun hidle => absurd hrecovery (Bool.eq_false_iff.mp hidle), h.synchronized⟩
  | disordered _ _ haccepted => exact consistent_abortSnapshotSync (h.accepted haccepted).sockets
  | finishReplay hmode => exact consistent_finishReplaySync h.sockets (h.closed_of_replay hmode)
  | current hmode hrecovery =>
      exact consistent_finishReplaySync (h.sockets_closeSocket hrecovery) (h.closed_of_replay hmode)
  | retry hmode hrecovery =>
      exact consistent_startReplaySync (h.sockets_closeSocket hrecovery) (h.closed_of_replay hmode) _ _
  | escalate _ hrecovery => exact consistent_startSnapshotSync (h.sockets_closeSocket hrecovery)
  | abort => exact consistent_abortSnapshotSync h.sockets

theorem consistent_start : Consistent start := consistent_startSnapshotSync ⟨[], rfl⟩

/-- **The parts of the recovery agree** in every run, and a replay has queued exactly the updates from
the expected sequence number up to the last one applied. -/
theorem recovery_consistent (events : List Event) (c : MarketDataConsumer)
    (hrange : Run.Along step (Guarded InRange) start events)
    (hrun : events.foldlM step start = some c) :
    Consistent c ∧ (c.recoveryMode = .replay →
      Numbered c.nextExpIncSeqNum.toNat c.snapshotQueuedUpdates
        ∧ c.replayLastApplied.toNat + 1 =
          c.nextExpIncSeqNum.toNat + c.snapshotQueuedUpdates.length) := by
  have htakes : ∀ c turn c', Ordered c ∧ Consistent c → InRange c turn → Takes c turn c' →
      Ordered c' ∧ Consistent c' := fun c turn c' h hrange htakes =>
    ⟨ordered_takes c turn c' h.1 hrange htakes, consistent_takes c turn c' h.2 htakes⟩
  obtain ⟨hordered, hconsistent⟩ : Ordered c ∧ Consistent c :=
    Run.invariant
      (invariant_step (fun _ _ _ _ _ _ h => ⟨h.1.resting .., h.2.resting ..⟩) htakes)
      ⟨ordered_start, consistent_start⟩ hrange hrun
  refine ⟨hconsistent, fun hmode => ?_⟩
  obtain ⟨-, hne, hnumbered, hresume⟩ := hordered.replayed hmode
  refine ⟨hnumbered, ?_⟩
  -- the number behind the last one applied is not zero, so it has not wrapped around
  have hpos : c.nextExpIncSeqNum.toNat ≠ 0 := fun hzero => hne (UInt64.toNat_inj.mp hzero)
  rw [UInt64.toNat_add] at hresume
  have hlt := c.replayLastApplied.toNat_lt
  simp only [UInt64.reduceToNat] at hresume
  omega

/-- A replay that is cut short and asked for again. -/
def retriedRun : List Event :=
  [reads (emptySnapshot 0), .datagram (feedFrame 1 (markerMsg 0xCC 7)),
    .datagram (feedFrame 4 (markerMsg 0xCC 7)),
    reads (82 :: (feedFrame 2 (markerMsg 0xCC 7) ++ [0])), reads []]

theorem recovery_consistent_retriedRun :
    ∃ c, retriedRun.foldlM step start = some c ∧ c.recoveryMode = .replay
      ∧ c.snapshotQueuedUpdates.length = 1 ∧ c.socketCalls.length = 5
      ∧ Consistent c ∧ (c.recoveryMode = .replay →
        Numbered c.nextExpIncSeqNum.toNat c.snapshotQueuedUpdates
          ∧ c.replayLastApplied.toNat + 1 =
            c.nextExpIncSeqNum.toNat + c.snapshotQueuedUpdates.length) := by
  have hrun : (retriedRun.foldlM step start).any (fun c => c.recoveryMode = .replay
      && c.snapshotQueuedUpdates.length = 1 && c.socketCalls.length = 5) = true := by
    decide +kernel
  obtain ⟨c, hrun, hcheck⟩ := (Option.any_eq_true _ _).mp hrun
  obtain ⟨⟨hmode, hlength⟩, hcalls⟩ := by simpa using hcheck
  exact ⟨c, hrun, hmode, hlength, hcalls, recovery_consistent retriedRun c (by decide +kernel) hrun⟩

/-! ### Recoveries that are given up -/

/-- The recovery goes on or completes: its stream does not end before it should, its status byte is
known, a replay is in order and leads up to the queued updates. -/
def Completes (c : MarketDataConsumer) : Turn → Prop
  | .live _ | .snapshot _ | .retry | .escalate => True
  | .replay arrival => arrival.update.seqNum = c.replayLastApplied + 1
  | .finishReplay => (contiguous (c.replayLastApplied + 1) c.incrementalQueuedUpdates.toList).isSome
  | .abort => False

instance (c : MarketDataConsumer) : ∀ turn, Decidable (Completes c turn)
  | .live _ | .snapshot _ | .retry | .escalate => isTrue trivial
  | .replay _ => inferInstanceAs (Decidable (_ = _))
  | .finishReplay => inferInstanceAs (Decidable (_ = true))
  | .abort => isFalse id

/-- The consumer is synchronized or on its way there. -/
def Attended (c : MarketDataConsumer) : Prop :=
  c.inRecovery = true ∨ c.marketDataSynchronized = true

theorem attended_processIncremental (h : Attended c) : Attended (c.processIncremental arrival) := by
  unfold processIncremental
  dsimp only
  split
  case isTrue hrecovery => exact Or.inl hrecovery
  case isFalse hidle =>
      have hset : c.marketDataSynchronized = true := h.resolve_left hidle
      split
      case isTrue => exact Or.inr hset
      case isFalse =>
          split
          case isTrue => exact Or.inr hset
          case isFalse =>
              split
              case isFalse => exact h
              case isTrue =>
                  unfold detectGap
                  rw [if_neg hidle]
                  dsimp only
                  split <;> exact Or.inl rfl

theorem attended_processSnapshot (h : Attended c) : Attended (c.processSnapshot arrival) := by
  unfold processSnapshot
  split
  case isTrue => exact h
  case isFalse =>
      split
      case isTrue => exact h
      case isFalse =>
          split
          case isTrue => exact h
          case isFalse =>
              dsimp only
              split
              case isFalse => exact h
              case isTrue =>
                  unfold finishSnapshotSync
                  split
                  case h_1 => exact h
                  case h_2 => exact Or.inr rfl

theorem attended_finishReplaySync
    (hcontiguous : (contiguous (c.replayLastApplied + 1) c.incrementalQueuedUpdates.toList).isSome) :
    Attended c.finishReplaySync := by
  obtain ⟨expected, hexpected⟩ := Option.isSome_iff_exists.mp hcontiguous
  unfold finishReplaySync
  simp only [hexpected]
  exact Or.inr rfl

theorem attended_takes (c : MarketDataConsumer) (turn : Turn) (c' : MarketDataConsumer)
    (h : Attended c) (hcompletes : Completes c turn) (htakes : Takes c turn c') : Attended c' := by
  cases htakes with
  | live haccepted =>
      obtain ⟨decoder, -, rfl⟩ := haccepted.decoded
      exact attended_processIncremental h
  | snapshot _ haccepted =>
      obtain ⟨decoder, -, rfl⟩ := haccepted.decoded
      exact attended_processSnapshot h
  | replay _ hrecovery haccepted =>
      obtain ⟨decoder, -, rfl⟩ := haccepted.decoded
      exact Or.inl hrecovery
  | disordered _ _ _ hseq => exact absurd hcompletes hseq
  | finishReplay => exact attended_finishReplaySync hcompletes
  | current => exact attended_finishReplaySync hcompletes
  | retry => exact Or.inl rfl
  | escalate => exact Or.inl rfl
  | abort => exact hcompletes.elim

/-- **A consumer that is not synchronized is recovering**, in every run that gives up no recovery. -/
theorem recovering_or_synchronized (events : List Event) (c : MarketDataConsumer)
    (hcompletes : Run.Along step (Guarded Completes) start events)
    (hrun : events.foldlM step start = some c) :
    c.inRecovery = true ∨ c.marketDataSynchronized = true := by
  have hattended : Attended c :=
    Run.invariant (invariant_step (fun _ _ _ _ _ _ h => h) attended_takes) (Or.inl rfl)
      hcompletes hrun
  exact hattended

/-- A gap whose replay is denied, and the snapshot instead. -/
def escalatedRun : List Event :=
  [reads (emptySnapshot 0), .datagram (feedFrame 1 (markerMsg 0xCC 7)),
    .datagram (feedFrame 3 (markerMsg 0xCC 7)), reads [78], reads (emptySnapshot 3)]

theorem recovering_or_synchronized_escalatedRun :
    ∃ c, escalatedRun.foldlM step start = some c ∧ c.inRecovery = false
      ∧ (c.inRecovery = true ∨ c.marketDataSynchronized = true) := by
  have hrun : (escalatedRun.foldlM step start).any (fun c => !c.inRecovery) = true := by
    decide +kernel
  obtain ⟨c, hrun, hidle⟩ := (Option.any_eq_true _ _).mp hrun
  exact ⟨c, hrun, by simpa using hidle,
    recovering_or_synchronized escalatedRun c (by decide +kernel) hrun⟩

/-- The boot snapshot ends before it has begun, and nothing asks for another one. -/
theorem eof_leaves_unattended :
    ∃ c, [reads []].foldlM step start = some c
      ∧ ¬ (c.inRecovery = true ∨ c.marketDataSynchronized = true) := by
  have hrun : ([reads []].foldlM step start).any (fun c =>
      !c.inRecovery && !c.marketDataSynchronized) = true := by
    decide +kernel
  obtain ⟨c, hrun, hcheck⟩ := (Option.any_eq_true _ _).mp hrun
  exact ⟨c, hrun, by simpa using hcheck⟩

end MarketDataConsumer

end AlphaTrader
