import AlphaTrader.Proof.DecoderLocality

/-!
# What a step of the consumer does

A step is a sequence of turns: a frame is accepted and processed, or the recovery takes a turn. Every
other pass of a loop leaves all but buffers and the scratch of the decoder alone. Conditions on a run
speak about turns, and what every turn preserves, every step preserves.
-/

namespace AlphaTrader

namespace MarketDataConsumer

variable {c c' : MarketDataConsumer} {kind : FrameKind} {data : List UInt8} {arrival : Arrival}

/-! ### Offered bytes -/

/-- What an accepted frame does before it is processed. -/
structure Accepted (c : MarketDataConsumer) (kind : FrameKind) (data : List UInt8)
    (arrival : Arrival) (c' : MarketDataConsumer) : Prop where
  decoded : ∃ decoder, c.decoder.decodeFrame kind arrival.frame.bytes =
      some ⟨true, arrival.update, decoder⟩
    ∧ c' = { c with decoder := decoder }.record arrival.frame
  frame : arrival.frame.kind = kind
  seqNum : arrival.update.seqNum = ItchDecoder.seqNumOf kind arrival.frame.bytes
  size : 0 < c'.decoder.lastDecodedSize
  fits : kind.headerSize + c'.decoder.lastDecodedSize ≤ data.length

theorem accepted_of_offer (hoffer : c.offer kind data = some (c', some arrival)) :
    Accepted c kind data arrival c' := by
  unfold offer at hoffer
  split at hoffer
  case h_1 => cases hoffer
  case h_2 result hdecode =>
      dsimp only at hoffer
      split at hoffer
      case isFalse => cases hoffer
      case isTrue haccepted =>
          obtain ⟨rfl, rfl⟩ := by simpa using hoffer
          rcases ItchDecoder.decodeFrame_cases hdecode with ⟨hrejected, -⟩ | ⟨-, type, hcomplete, hsize, hseq, -⟩
          · rw [haccepted] at hrejected
            cases hrejected
          · have hdecode' := ItchDecoder.decodeFrame_take c.decoder hcomplete
            rw [hdecode, ← hsize] at hdecode'
            refine ⟨⟨result.decoder, ?_, rfl⟩, rfl, ?_, ?_, ?_⟩
            · rw [hdecode', ← haccepted]
            · rw [hsize, ItchDecoder.seqNumOf_take]
              exact hseq
            · exact hsize ▸ ItchDecoder.payloadSize_pos type
            · exact hsize ▸ hcomplete.2

/-- The consumer with other buffers and another scratch of the decoder. -/
def resting (c : MarketDataConsumer) (size : Nat) (more statusRead : Bool)
    (inbound tcp : List UInt8) : MarketDataConsumer :=
  { c with
    decoder := { c.decoder with lastDecodedSize := size, needMoreData := more }
    replayStatusRead := statusRead
    inboundData := inbound
    snapshotTcpBuffer := tcp }

theorem resting_of_offer (hoffer : c.offer kind data = some (c', none)) :
    ∃ size more, c' = c.resting size more c.replayStatusRead c.inboundData c.snapshotTcpBuffer := by
  unfold offer at hoffer
  split at hoffer
  case h_1 => cases hoffer
  case h_2 result hdecode =>
      dsimp only at hoffer
      split at hoffer
      case isTrue => simp at hoffer
      case isFalse haccepted =>
          obtain rfl := by simpa using hoffer
          rcases ItchDecoder.decodeFrame_cases hdecode with ⟨-, size, more, hdecoder, -⟩ | ⟨htrue, -⟩
          · rw [hdecoder]
            exact ⟨size, more, rfl⟩
          · exact absurd htrue haccepted

theorem forall_queued_empty (P : SeqNum → Arrival → Prop) (seqNum : SeqNum) (arrival : Arrival)
    (hqueued : ({} : Std.TreeMap SeqNum Arrival)[seqNum]? = some arrival) : P seqNum arrival := by
  simp at hqueued

/-! ### Fuel -/

theorem recvPass_decreases (state state' : MarketDataConsumer × List UInt8)
    (hpass : recvPass state = some (.inl state')) : state'.2.length < state.2.length := by
  obtain ⟨c, data⟩ := state
  unfold recvPass at hpass
  dsimp only at hpass
  split at hpass
  case isTrue => cases hpass
  case isFalse hlength =>
      split at hpass
      case isTrue =>
          obtain rfl := by simpa using hpass
          simp only [registrationMagic, List.length_drop, List.length_cons, List.length_nil]
          omega
      case isFalse =>
          split at hpass
          case h_1 => cases hpass
          case h_2 hoffer =>
              obtain rfl := by simpa using hpass
              have hsize := (accepted_of_offer hoffer).size
              simp only [List.length_drop]
              omega
          case h_3 =>
              split at hpass
              case isTrue => cases hpass
              case isFalse =>
                  obtain rfl := by simpa using hpass
                  simp only [List.length_tail]
                  omega

theorem snapshotPass_decreases (state state' : MarketDataConsumer × List UInt8)
    (hpass : snapshotPass state = some (.inl state')) : state'.2.length < state.2.length := by
  obtain ⟨c, data⟩ := state
  unfold snapshotPass at hpass
  dsimp only at hpass
  split at hpass
  case isTrue => cases hpass
  case isFalse =>
      split at hpass
      case h_1 => cases hpass
      case h_2 hoffer =>
          obtain rfl := by simpa using hpass
          have haccepted := accepted_of_offer hoffer
          have hsize := haccepted.size
          have hfits := haccepted.fits
          simp only [List.length_drop]
          omega
      case h_3 => cases hpass

theorem replayPass_decreases (state state' : MarketDataConsumer × List UInt8)
    (hpass : replayPass state = some (.inl state')) : state'.2.length < state.2.length := by
  obtain ⟨c, data⟩ := state
  unfold replayPass at hpass
  dsimp only at hpass
  split at hpass
  case isTrue => cases hpass
  case isFalse =>
      split at hpass
      case h_1 => cases hpass
      case h_2 hoffer =>
          split at hpass
          case isTrue => cases hpass
          case isFalse =>
              obtain rfl := by simpa using hpass
              have haccepted := accepted_of_offer hoffer
              have hsize := haccepted.size
              have hfits := haccepted.fits
              simp only [List.length_drop]
              omega
      case h_3 => cases hpass

/-- **The loops have fuel enough**: with more they do the same. -/
theorem loops_fuel {fuel : Nat} (hfuel : data.length < fuel) :
    Loop.run recvPass fuel (c, data) = Loop.run recvPass (data.length + 1) (c, data)
      ∧ Loop.run snapshotPass fuel (c, data) = Loop.run snapshotPass (data.length + 1) (c, data)
      ∧ Loop.run replayPass fuel (c, data) = Loop.run replayPass (data.length + 1) (c, data) :=
  ⟨Loop.run_eq_of_measure (fun state => state.2.length) recvPass_decreases hfuel (Nat.lt_succ_self _),
    Loop.run_eq_of_measure (fun state => state.2.length) snapshotPass_decreases hfuel
      (Nat.lt_succ_self _),
    Loop.run_eq_of_measure (fun state => state.2.length) replayPass_decreases hfuel
      (Nat.lt_succ_self _)⟩

/-! ### Turns -/

inductive Turn where
  /-- A frame of the feed is accepted. -/
  | live (arrival : Arrival)
  /-- A frame of a snapshot is accepted. -/
  | snapshot (arrival : Arrival)
  /-- A frame of a replay is accepted. -/
  | replay (arrival : Arrival)
  /-- The replay has been read to its end. -/
  | finishReplay
  /-- The replay was cut short and is asked for again. -/
  | retry
  /-- The replay was denied, a snapshot is asked for. -/
  | escalate
  | abort

/-- What a turn does. -/
inductive Takes : MarketDataConsumer → Turn → MarketDataConsumer → Prop
  | live {c c' : MarketDataConsumer} {data : List UInt8} {arrival : Arrival}
      (haccepted : Accepted c .feed data arrival c') :
      Takes c (.live arrival) (c'.processIncremental arrival)
  | snapshot {c c' : MarketDataConsumer} {data : List UInt8} {arrival : Arrival}
      (hmode : c.recoveryMode ≠ .replay) (haccepted : Accepted c .snapshot data arrival c') :
      Takes c (.snapshot arrival) (c'.processSnapshot arrival)
  | replay {c c' : MarketDataConsumer} {data : List UInt8} {arrival : Arrival}
      (hmode : c.recoveryMode = .replay) (hrecovery : c.inRecovery = true)
      (haccepted : Accepted c .feed data arrival c')
      (hseq : arrival.update.seqNum = c.replayLastApplied + 1) :
      Takes c (.replay arrival) { c' with
        replayLastApplied := arrival.update.seqNum
        snapshotQueuedUpdates := c'.snapshotQueuedUpdates ++ [arrival] }
  | disordered {c c' : MarketDataConsumer} {data : List UInt8} {arrival : Arrival}
      (hmode : c.recoveryMode = .replay) (hrecovery : c.inRecovery = true)
      (haccepted : Accepted c .feed data arrival c')
      (hseq : arrival.update.seqNum ≠ c.replayLastApplied + 1) :
      Takes c (.replay arrival) c'.abortSnapshotSync
  | finishReplay {c : MarketDataConsumer} (hmode : c.recoveryMode = .replay)
      (hrecovery : c.inRecovery = true) : Takes c .finishReplay c.finishReplaySync
  | current {c : MarketDataConsumer} (hmode : c.recoveryMode = .replay)
      (hrecovery : c.inRecovery = true) : Takes c .finishReplay c.closeSocket.finishReplaySync
  | retry {c : MarketDataConsumer} (hmode : c.recoveryMode = .replay)
      (hrecovery : c.inRecovery = true) :
      Takes c .retry (c.closeSocket.startReplaySync c.replayLastApplied false)
  | escalate {c : MarketDataConsumer} (hmode : c.recoveryMode = .replay)
      (hrecovery : c.inRecovery = true) : Takes c .escalate c.closeSocket.startSnapshotSync
  | abort {c : MarketDataConsumer} (hrecovery : c.inRecovery = true) :
      Takes c .abort c.abortSnapshotSync

/-! ### Conditions on turns -/

/-- The frame at the head of the bytes, if the decoder accepts it. -/
def accepted? (c : MarketDataConsumer) (kind : FrameKind) (data : List UInt8) : Option Arrival :=
  (c.offer kind data).bind Prod.snd

section Guarded

variable (G : MarketDataConsumer → Turn → Prop)

def RecvGuarded (state : MarketDataConsumer × List UInt8) : Prop :=
  registrationMagic.isPrefixOf state.2 = false →
    ∀ arrival ∈ state.1.accepted? .feed state.2, G state.1 (.live arrival)

def SnapshotGuarded (state : MarketDataConsumer × List UInt8) : Prop :=
  ∀ arrival ∈ state.1.accepted? .snapshot state.2, G state.1 (.snapshot arrival)

def ReplayGuarded (state : MarketDataConsumer × List UInt8) : Prop :=
  ∀ arrival ∈ state.1.accepted? .feed state.2, G state.1 (.replay arrival)

def ReadReplayGuarded (c : MarketDataConsumer) : Prop :=
  Loop.During replayPass (ReplayGuarded G) (c.snapshotTcpBuffer.length + 1) (c, c.snapshotTcpBuffer)

def ProcessReplayGuarded (c : MarketDataConsumer) : Prop :=
  if c.replayStatusRead then ReadReplayGuarded G c
  else
    match c.snapshotTcpBuffer with
    | [] => True
    | status :: rest =>
        let c := { c with snapshotTcpBuffer := rest, replayStatusRead := true }
        match ReplayStatus.ofByte status with
        | .granted => ReadReplayGuarded G c
        | .denied => G c .escalate
        | .current => G c .finishReplay
        | .unexpected => G c .abort

def EofGuarded (c : MarketDataConsumer) : Prop :=
  if c.recoveryMode = .replay ∧ c.replayStatusRead ∧ c.snapshotTcpBuffer.isEmpty then
    G c .finishReplay
  else if c.recoveryMode = .replay ∧ c.replayStatusRead then G c .retry
  else G c .abort

def TcpGuarded (c : MarketDataConsumer) : TcpRead → Prop
  | .eof | .error => EofGuarded G c
  | .wouldBlock => True
  | .data byte bytes =>
      let c := { c with snapshotTcpBuffer := c.snapshotTcpBuffer ++ byte :: bytes }
      if c.recoveryMode = .replay then ProcessReplayGuarded G c
      else
        Loop.During snapshotPass (SnapshotGuarded G) (c.snapshotTcpBuffer.length + 1)
          (c, c.snapshotTcpBuffer)

/-- Every turn of a step meets the condition in the state in which it is taken. -/
def Guarded (c : MarketDataConsumer) : Event → Prop
  | .datagram bytes =>
      Loop.During recvPass (RecvGuarded G) ((c.inboundData ++ bytes).length + 1)
        ({ c with inboundData := c.inboundData ++ bytes }, c.inboundData ++ bytes)
  | .tcp received => c.inRecovery = true → TcpGuarded G c received

variable {G} [∀ c turn, Decidable (G c turn)]

instance (state : MarketDataConsumer × List UInt8) : Decidable (RecvGuarded G state) :=
  inferInstanceAs (Decidable (_ → _))

instance (state : MarketDataConsumer × List UInt8) : Decidable (SnapshotGuarded G state) :=
  inferInstanceAs (Decidable (∀ arrival ∈ _, _))

instance (state : MarketDataConsumer × List UInt8) : Decidable (ReplayGuarded G state) :=
  inferInstanceAs (Decidable (∀ arrival ∈ _, _))

instance (c : MarketDataConsumer) : Decidable (ReadReplayGuarded G c) :=
  inferInstanceAs (Decidable (Loop.During ..))

instance (c : MarketDataConsumer) : Decidable (ProcessReplayGuarded G c) := by
  unfold ProcessReplayGuarded
  split
  · infer_instance
  · split
    · infer_instance
    · dsimp only
      split <;> infer_instance

instance (c : MarketDataConsumer) : Decidable (EofGuarded G c) := by
  unfold EofGuarded
  infer_instance

instance (c : MarketDataConsumer) : ∀ received, Decidable (TcpGuarded G c received)
  | .eof => inferInstanceAs (Decidable (EofGuarded G c))
  | .error => inferInstanceAs (Decidable (EofGuarded G c))
  | .wouldBlock => isTrue trivial
  | .data byte bytes => by
      unfold TcpGuarded
      infer_instance

instance (c : MarketDataConsumer) : ∀ event, Decidable (Guarded G c event)
  | .datagram _ => inferInstanceAs (Decidable (Loop.During ..))
  | .tcp _ => inferInstanceAs (Decidable (_ → _))

end Guarded

/-! ### The step rule -/

section Rule

variable {G : MarketDataConsumer → Turn → Prop} {Inv : MarketDataConsumer → Prop}

theorem mem_accepted?_of_offer (hoffer : c.offer kind data = some (c', some arrival)) :
    arrival ∈ c.accepted? kind data := by
  simp [accepted?, hoffer]

theorem tcpGuarded_of_forall (hall : ∀ c turn, G c turn) (c : MarketDataConsumer)
    (received : TcpRead) : TcpGuarded G c received := by
  have heof : EofGuarded G c := by
    unfold EofGuarded
    repeat' split
    all_goals apply hall
  have hread : ∀ c, ReadReplayGuarded G c := fun c =>
    Loop.During.of_forall (fun _ _ _ => hall _ _) ..
  cases received with
  | eof | error => exact heof
  | wouldBlock => trivial
  | data byte bytes =>
      unfold TcpGuarded ProcessReplayGuarded
      dsimp only
      repeat' split
      all_goals first
        | apply hall
        | apply hread
        | trivial
        | exact Loop.During.of_forall (fun _ _ _ => hall _ _) ..

theorem processSnapshot_mode (hmode : c.recoveryMode ≠ .replay) :
    (c.processSnapshot arrival).recoveryMode ≠ .replay := by
  unfold processSnapshot finishSnapshotSync
  dsimp only
  repeat' split
  all_goals first
    | exact hmode
    | exact (by decide : RecoveryMode.none ≠ .replay)

theorem resting_tcp (hrest : ∀ c size more statusRead inbound tcp, Inv c →
    Inv (c.resting size more statusRead inbound tcp)) (hinv : Inv c) (statusRead : Bool)
    (tcp : List UInt8) :
    Inv { c with snapshotTcpBuffer := tcp, replayStatusRead := statusRead } :=
  hrest c c.decoder.lastDecodedSize c.decoder.needMoreData statusRead c.inboundData tcp hinv

variable (hrest : ∀ c size more statusRead inbound tcp, Inv c →
    Inv (c.resting size more statusRead inbound tcp))
  (htakes : ∀ c turn c', Inv c → G c turn → Takes c turn c' → Inv c')

include hrest htakes

theorem invariant_recvPass (state : MarketDataConsumer × List UInt8)
    (next : (MarketDataConsumer × List UInt8) ⊕ (MarketDataConsumer × List UInt8))
    (hinv : Inv state.1) (hguard : RecvGuarded G state) (hpass : recvPass state = some next) :
    next.elim (Inv ·.1) (Inv ·.1) := by
  obtain ⟨c, data⟩ := state
  unfold recvPass at hpass
  dsimp only at hpass
  split at hpass
  case isTrue =>
      obtain rfl := Option.some.inj hpass
      exact hinv
  case isFalse =>
      split at hpass
      case isTrue =>
          obtain rfl := Option.some.inj hpass
          exact hinv
      case isFalse hmagic =>
          split at hpass
          case h_1 => cases hpass
          case h_2 hoffer =>
              obtain rfl := Option.some.inj hpass
              exact htakes _ _ _ hinv
                (hguard (Bool.eq_false_iff.mpr hmagic) _ (mem_accepted?_of_offer hoffer))
                (.live (accepted_of_offer hoffer))
          case h_3 hoffer =>
              obtain ⟨size, more, rfl⟩ := resting_of_offer hoffer
              split at hpass <;> obtain rfl := Option.some.inj hpass <;>
                exact hrest _ _ _ _ _ _ hinv

theorem invariant_recvCallback (hinv : Inv c)
    (hguarded : Loop.During recvPass (RecvGuarded G) (c.inboundData.length + 1) (c, c.inboundData))
    (hstep : c.recvCallback = some c') : Inv c' := by
  unfold recvCallback at hstep
  split at hstep
  case h_1 => cases hstep
  case h_2 done data hrun =>
      obtain rfl := Option.some.inj hstep
      have hdone : Inv done :=
        Loop.post (Inv ·.1) (Inv ·.1) (invariant_recvPass hrest htakes) hinv hguarded hrun
      exact hrest _ _ _ _ _ _ hdone

theorem invariant_snapshotPass (state : MarketDataConsumer × List UInt8)
    (next : (MarketDataConsumer × List UInt8) ⊕ (MarketDataConsumer × List UInt8))
    (hinv : Inv state.1 ∧ state.1.recoveryMode ≠ .replay) (hguard : SnapshotGuarded G state)
    (hpass : snapshotPass state = some next) :
    next.elim (fun s => Inv s.1 ∧ s.1.recoveryMode ≠ .replay) (Inv ·.1) := by
  obtain ⟨c, data⟩ := state
  obtain ⟨hinv, hmode⟩ := hinv
  unfold snapshotPass at hpass
  dsimp only at hpass
  split at hpass
  case isTrue =>
      obtain rfl := Option.some.inj hpass
      exact hinv
  case isFalse =>
      split at hpass
      case h_1 => cases hpass
      case h_2 c' arrival hoffer =>
          obtain rfl := Option.some.inj hpass
          have haccepted := accepted_of_offer hoffer
          refine ⟨htakes _ _ _ hinv (hguard _ (mem_accepted?_of_offer hoffer))
            (.snapshot hmode haccepted), ?_⟩
          obtain ⟨decoder, -, rfl⟩ := haccepted.decoded
          exact processSnapshot_mode hmode
      case h_3 hoffer =>
          obtain ⟨size, more, rfl⟩ := resting_of_offer hoffer
          obtain rfl := Option.some.inj hpass
          exact hrest _ _ _ _ _ _ hinv

theorem invariant_readSnapshot (hinv : Inv c) (hmode : c.recoveryMode ≠ .replay)
    (hguarded : Loop.During snapshotPass (SnapshotGuarded G) (c.snapshotTcpBuffer.length + 1)
      (c, c.snapshotTcpBuffer))
    (hstep : c.readSnapshot = some c') : Inv c' := by
  unfold readSnapshot at hstep
  split at hstep
  case h_1 => cases hstep
  case h_2 done data hrun =>
      obtain rfl := Option.some.inj hstep
      have hdone : Inv done :=
        Loop.post (fun s => Inv s.1 ∧ s.1.recoveryMode ≠ .replay) (Inv ·.1)
          (invariant_snapshotPass hrest htakes) ⟨hinv, hmode⟩ hguarded hrun
      exact hrest _ _ _ _ _ _ hdone

theorem invariant_replayPass (state : MarketDataConsumer × List UInt8)
    (next : (MarketDataConsumer × List UInt8) ⊕ MarketDataConsumer)
    (hinv : Inv state.1 ∧ state.1.recoveryMode = .replay ∧ state.1.inRecovery = true)
    (hguard : ReplayGuarded G state) (hpass : replayPass state = some next) :
    next.elim (fun s => Inv s.1 ∧ s.1.recoveryMode = .replay ∧ s.1.inRecovery = true) Inv := by
  obtain ⟨c, data⟩ := state
  obtain ⟨hinv, hmode, hrecovery⟩ := hinv
  unfold replayPass at hpass
  dsimp only at hpass
  split at hpass
  case isTrue =>
      obtain rfl := Option.some.inj hpass
      exact hrest _ _ _ _ _ _ hinv
  case isFalse =>
      split at hpass
      case h_1 => cases hpass
      case h_2 c' arrival hoffer =>
          have haccepted := accepted_of_offer hoffer
          have hguard := hguard _ (mem_accepted?_of_offer hoffer)
          obtain ⟨decoder, -, heq⟩ := haccepted.decoded
          have hlast : c'.replayLastApplied = c.replayLastApplied := by rw [heq]; rfl
          split at hpass
          case isTrue hseq =>
              obtain rfl := Option.some.inj hpass
              exact htakes _ _ _ hinv hguard (.disordered hmode hrecovery haccepted (hlast ▸ hseq))
          case isFalse hseq =>
              obtain rfl := Option.some.inj hpass
              refine ⟨htakes _ _ _ hinv hguard
                (.replay hmode hrecovery haccepted (hlast ▸ not_not.mp hseq)), ?_⟩
              rw [heq]
              exact ⟨hmode, hrecovery⟩
      case h_3 hoffer =>
          obtain ⟨size, more, rfl⟩ := resting_of_offer hoffer
          obtain rfl := Option.some.inj hpass
          exact hrest _ _ _ _ _ _ hinv

theorem invariant_readReplay (hinv : Inv c) (hmode : c.recoveryMode = .replay)
    (hrecovery : c.inRecovery = true) (hguarded : ReadReplayGuarded G c)
    (hstep : c.readReplay = some c') : Inv c' :=
  Loop.post (fun s => Inv s.1 ∧ s.1.recoveryMode = .replay ∧ s.1.inRecovery = true) Inv
    (invariant_replayPass hrest htakes) ⟨hinv, hmode, hrecovery⟩ hguarded hstep

theorem invariant_processReplay (hinv : Inv c) (hmode : c.recoveryMode = .replay)
    (hrecovery : c.inRecovery = true) (hguarded : ProcessReplayGuarded G c)
    (hstep : c.processReplay = some c') : Inv c' := by
  unfold processReplay at hstep
  unfold ProcessReplayGuarded at hguarded
  split at hstep
  case isTrue hread =>
      rw [if_pos hread] at hguarded
      exact invariant_readReplay hrest htakes hinv hmode hrecovery hguarded hstep
  case isFalse hread =>
      rw [if_neg hread] at hguarded
      split at hstep
      case h_1 =>
          obtain rfl := Option.some.inj hstep
          exact hinv
      case h_2 status rest hbuffer =>
          simp only [hbuffer] at hguarded
          have hinv := resting_tcp hrest hinv true rest
          cases hstatus : ReplayStatus.ofByte status with
          | granted =>
              simp only [hstatus] at hguarded hstep
              exact invariant_readReplay hrest htakes hinv hmode hrecovery hguarded hstep
          | denied =>
              simp only [hstatus] at hguarded hstep
              obtain rfl := Option.some.inj hstep
              exact htakes _ _ _ hinv hguarded (.escalate hmode hrecovery)
          | current =>
              simp only [hstatus] at hguarded hstep
              obtain rfl := Option.some.inj hstep
              exact htakes _ _ _ hinv hguarded (.current hmode hrecovery)
          | unexpected =>
              simp only [hstatus] at hguarded hstep
              obtain rfl := Option.some.inj hstep
              exact htakes _ _ _ hinv hguarded (.abort hrecovery)

omit hrest in
theorem invariant_onSnapshotTcpEof (hinv : Inv c) (hrecovery : c.inRecovery = true)
    (hguarded : EofGuarded G c) : Inv c.onSnapshotTcpEof := by
  unfold EofGuarded at hguarded
  unfold onSnapshotTcpEof
  split
  case isTrue hend =>
      rw [if_pos hend] at hguarded
      exact htakes _ _ _ hinv hguarded (.finishReplay hend.1 hrecovery)
  case isFalse hend =>
      rw [if_neg hend] at hguarded
      split
      case isTrue hcut =>
          rw [if_pos hcut] at hguarded
          exact htakes _ _ _ hinv hguarded (.retry hcut.1 hrecovery)
      case isFalse hcut =>
          rw [if_neg hcut] at hguarded
          exact htakes _ _ _ hinv hguarded (.abort hrecovery)

/-- **Step rule.** What every turn that meets the condition preserves, every such step preserves. -/
theorem invariant_step (c : MarketDataConsumer) (event : Event) (c' : MarketDataConsumer)
    (hinv : Inv c) (hguarded : Guarded G c event) (hstep : c.step event = some c') : Inv c' := by
  cases event with
  | datagram bytes =>
      have hinv : Inv { c with inboundData := c.inboundData ++ bytes } :=
        hrest c c.decoder.lastDecodedSize c.decoder.needMoreData c.replayStatusRead _ _ hinv
      exact invariant_recvCallback hrest htakes hinv hguarded hstep
  | tcp received =>
      unfold step at hstep
      dsimp only at hstep
      split at hstep
      case isFalse =>
          obtain rfl := Option.some.inj hstep
          exact hinv
      case isTrue hrecovery =>
          have hguarded := hguarded hrecovery
          cases received with
          | eof =>
              obtain rfl := Option.some.inj hstep
              exact invariant_onSnapshotTcpEof htakes hinv hrecovery hguarded
          | error =>
              obtain rfl := Option.some.inj hstep
              exact invariant_onSnapshotTcpEof htakes hinv hrecovery hguarded
          | wouldBlock =>
              obtain rfl := Option.some.inj hstep
              exact hinv
          | data byte bytes =>
              have hinv := resting_tcp hrest hinv c.replayStatusRead
                (c.snapshotTcpBuffer ++ byte :: bytes)
              unfold TcpGuarded at hguarded
              unfold readSnapshotTcp at hstep
              dsimp only at hguarded hstep
              split at hstep
              case isTrue hmode =>
                  rw [if_pos hmode] at hguarded
                  exact invariant_processReplay hrest htakes hinv hmode hrecovery hguarded hstep
              case isFalse hmode =>
                  rw [if_neg hmode] at hguarded
                  exact invariant_readSnapshot hrest htakes hinv hmode hguarded hstep

/-! ### What turns satisfy along a run -/

variable {H : MarketDataConsumer → Turn → Prop}
  (hholds : ∀ c turn, Inv c → G c turn → H c turn)

include hholds

theorem guarded_readReplay (hinv : Inv c) (hmode : c.recoveryMode = .replay)
    (hrecovery : c.inRecovery = true) (hguarded : ReadReplayGuarded G c) : ReadReplayGuarded H c :=
  Loop.During.of_invariant
    (fun s => Inv s.1 ∧ s.1.recoveryMode = .replay ∧ s.1.inRecovery = true)
    (fun s s' => invariant_replayPass hrest htakes s (.inl s'))
    (fun _ hinv hguard arrival hmem => hholds _ _ hinv.1 (hguard arrival hmem))
    ⟨hinv, hmode, hrecovery⟩ hguarded

theorem guarded_processReplay (hinv : Inv c) (hmode : c.recoveryMode = .replay)
    (hrecovery : c.inRecovery = true) (hguarded : ProcessReplayGuarded G c) :
    ProcessReplayGuarded H c := by
  unfold ProcessReplayGuarded at hguarded ⊢
  split at hguarded
  case isTrue hread =>
      rw [if_pos hread]
      exact guarded_readReplay hrest htakes hholds hinv hmode hrecovery hguarded
  case isFalse hread =>
      rw [if_neg hread]
      split at hguarded
      case h_1 => trivial
      case h_2 status rest hbuffer =>
          have hinv := resting_tcp hrest hinv true rest
          cases hstatus : ReplayStatus.ofByte status with
          | granted =>
              simp only [hstatus] at hguarded ⊢
              exact guarded_readReplay hrest htakes hholds hinv hmode hrecovery hguarded
          | denied | current | unexpected =>
              simp only [hstatus] at hguarded ⊢
              exact hholds _ _ hinv hguarded

omit hrest htakes in
theorem guarded_eof (hinv : Inv c) (hguarded : EofGuarded G c) : EofGuarded H c := by
  unfold EofGuarded at hguarded ⊢
  split at hguarded
  case isTrue hend =>
      rw [if_pos hend]
      exact hholds _ _ hinv hguarded
  case isFalse hend =>
      rw [if_neg hend]
      split at hguarded
      case isTrue hcut =>
          rw [if_pos hcut]
          exact hholds _ _ hinv hguarded
      case isFalse hcut =>
          rw [if_neg hcut]
          exact hholds _ _ hinv hguarded

/-- What the invariant and the condition give for a turn, holds for every turn of a step. -/
theorem guarded_of_invariant (c : MarketDataConsumer) (event : Event) (hinv : Inv c)
    (hguarded : Guarded G c event) : Guarded H c event := by
  cases event with
  | datagram bytes =>
      have hinv : Inv { c with inboundData := c.inboundData ++ bytes } :=
        hrest c c.decoder.lastDecodedSize c.decoder.needMoreData c.replayStatusRead _ _ hinv
      exact Loop.During.of_invariant (Inv ·.1)
        (fun s s' => invariant_recvPass hrest htakes s (.inl s'))
        (fun _ hinv hguard hmagic arrival hmem => hholds _ _ hinv (hguard hmagic arrival hmem))
        hinv hguarded
  | tcp received =>
      intro hrecovery
      have hguarded := hguarded hrecovery
      cases received with
      | eof | error => exact guarded_eof hholds hinv hguarded
      | wouldBlock => trivial
      | data byte bytes =>
          have hinv := resting_tcp hrest hinv c.replayStatusRead
            (c.snapshotTcpBuffer ++ byte :: bytes)
          unfold TcpGuarded at hguarded ⊢
          dsimp only at hguarded ⊢
          split at hguarded
          case isTrue hmode =>
              rw [if_pos hmode]
              exact guarded_processReplay hrest htakes hholds hinv hmode hrecovery hguarded
          case isFalse hmode =>
              rw [if_neg hmode]
              exact Loop.During.of_invariant (fun s => Inv s.1 ∧ s.1.recoveryMode ≠ .replay)
                (fun s s' => invariant_snapshotPass hrest htakes s (.inl s'))
                (fun _ hinv hguard arrival hmem => hholds _ _ hinv.1 (hguard arrival hmem))
                ⟨hinv, hmode⟩ hguarded

end Rule

/-! ### Bytes of concrete runs -/

/-- A marker: a delete with a locate of two equal bytes. -/
def markerMsg (locate ref : UInt8) : List UInt8 :=
  [68, locate, locate] ++ List.replicate 15 0 ++ [ref]

/-- An add of ticker 7. -/
def addMsg (ref qty : UInt8) : List UInt8 :=
  [65, 0, 7] ++ List.replicate 15 0 ++ [ref, 66, 0, 0, 0, qty] ++ List.replicate 11 0 ++ [100]

/-- An execution of ticker 7. -/
def executeMsg (ref qty : UInt8) : List UInt8 :=
  [69, 0, 7] ++ List.replicate 15 0 ++ [ref, 0, 0, 0, qty] ++ List.replicate 8 0

/-- A frame of the feed. -/
def feedFrame (seqNum : UInt8) (msg : List UInt8) : List UInt8 := List.replicate 7 0 ++ seqNum :: msg

/-- Bytes read from the TCP socket; no bytes are its end. -/
def reads : List UInt8 → Event
  | [] => .tcp .eof
  | byte :: bytes => .tcp (.data byte bytes)

/-- A snapshot without orders, up to the sequence number `last`. -/
def emptySnapshot (last : UInt8) : List UInt8 := markerMsg 0xBB 0 ++ markerMsg 0xEE last

end MarketDataConsumer

end AlphaTrader
