import AlphaTrader.Proof.FeedParsing
import AlphaTrader.Proof.SyncGate

/-!
# Recoveries that lead nowhere

A recovery that is aborted leaves the flag cleared, and only the end of another recovery sets it. As long
as no gap shows there is no other recovery: the engine stays at its gate, responses and updates pile up,
and no fill is booked. And where a gap is to be filled by a frame that the decoder turns down, the replay
is cut short there, is requested again from the same place, and so on.
-/

namespace AlphaTrader

namespace MarketDataConsumer

variable {c c' : MarketDataConsumer} {arrival : Arrival}

/-! ### A cleared flag -/

/-- What an update in turn does to the expected number and the queue: it is pushed if it has that number,
or if no number is expected yet. -/
def takeTurn (state : SeqNum × List Arrival) (arrival : Arrival) : SeqNum × List Arrival :=
  if state.1 = 0 ∨ arrival.update.seqNum = state.1 then
    (arrival.update.seqNum + 1, state.2 ++ [arrival])
  else state

/-- An update that is not behind a missing one is the next one or an old one. -/
theorem processIncremental_of_noGap (hidle : c.inRecovery = false) (hnoGap : c.NoGap arrival) :
    c.processIncremental arrival = { c with
      nextExpIncSeqNum := (takeTurn (c.nextExpIncSeqNum, c.incomingMdUpdates) arrival).1
      incomingMdUpdates := (takeTurn (c.nextExpIncSeqNum, c.incomingMdUpdates) arrival).2 } := by
  have hout : ¬ c.inRecovery = true := by simp [hidle]
  unfold processIncremental
  dsimp only
  rw [if_neg hout]
  by_cases hfirst : c.nextExpIncSeqNum = 0
  · rw [if_pos hfirst, takeTurn, if_pos (Or.inl hfirst)]
    rfl
  rw [if_neg hfirst]
  by_cases hnext : arrival.update.seqNum = c.nextExpIncSeqNum
  · rw [if_pos hnext, takeTurn, if_pos (Or.inr hnext), hnext]
    rfl
  · have hle : ¬ c.nextExpIncSeqNum < arrival.update.seqNum :=
      UInt64.not_lt.mpr (hnoGap.resolve_left hfirst)
    rw [if_neg hnext, if_neg hle, takeTurn, if_neg (not_or.mpr ⟨hfirst, hnext⟩)]

end MarketDataConsumer

namespace TradingSystem

open MarketDataConsumer (addMsg feedFrame takeTurn)

variable {S F π : Type} {cap : Capacity} [ObjectPool π] [FeatureEngine F] [Strategy S F cap]
  {sys sys' sys'' : TradingSystem S F π cap} {event : Event} {taken taken' : List Arrival}
  {responses responses' : List OrderResponse}

/-- The consumer takes increments without being synchronized, and the engine is at its gate. -/
structure Deaf (sys : TradingSystem S F π cap) : Prop where
  idle : sys.consumer.inRecovery = false
  cleared : sys.consumer.marketDataSynchronized = false
  gate : sys.phase = .gate

/-- What the decoder accepts of a datagram. -/
def arrival? (sys : TradingSystem S F π cap) : Event → Option Arrival
  | .incremental data => sys.consumer.accepted? .feed data
  | _ => none

/-- What the decoder accepts in a run. -/
def arrivals (sys : TradingSystem S F π cap) : List Event → List Arrival
  | [] => []
  | event :: events =>
      (sys.arrival? event).toList ++ (sys.step event).elim [] fun sys' => arrivals sys' events

/-- No gap shows. -/
def Gapless (sys : TradingSystem S F π cap) (event : Event) : Prop :=
  ∀ arrival ∈ sys.arrival? event, sys.consumer.NoGap arrival
  deriving Decidable

def Event.response? : Event → Option OrderResponse
  | .respond response => some response
  | _ => none

/-- What has happened since: the updates in turn and the responses are queued, requests may have been
taken, and that is all. -/
structure Piles (sys : TradingSystem S F π cap) (arrivals : List Arrival) (responses : List OrderResponse)
    (sys' : TradingSystem S F π cap) : Prop where
  deaf : sys'.Deaf
  popped : sys'.popped = sys.popped
  engine : sys'.engine = { sys.engine with orderRequests := sys'.engine.orderRequests }
  requests : sys'.engine.orderRequests <:+ sys.engine.orderRequests
  responses : sys'.orderResponses = sys.orderResponses ++ responses
  updates : (sys'.consumer.nextExpIncSeqNum, sys'.consumer.incomingMdUpdates) =
    arrivals.foldl takeTurn (sys.consumer.nextExpIncSeqNum, sys.consumer.incomingMdUpdates)
  sockets : sys'.consumer.socketCalls = sys.consumer.socketCalls

omit [ObjectPool π] [FeatureEngine F] [Strategy S F cap] in
theorem Deaf.piles (hdeaf : sys.Deaf) : sys.Piles [] [] sys where
  deaf := hdeaf
  popped := rfl
  engine := rfl
  requests := List.suffix_rfl
  responses := (List.append_nil _).symm
  updates := rfl
  sockets := rfl

omit [ObjectPool π] [FeatureEngine F] [Strategy S F cap] in
theorem Piles.trans (h : sys.Piles taken responses sys') (h' : sys'.Piles taken' responses' sys'') :
    sys.Piles (taken ++ taken') (responses ++ responses') sys'' where
  deaf := h'.deaf
  popped := h'.popped.trans h.popped
  engine := by rw [h'.engine, h.engine]
  requests := h'.requests.trans h.requests
  responses := by rw [h'.responses, h.responses, List.append_assoc]
  updates := by rw [h'.updates, h.updates, List.foldl_append]
  sockets := h'.sockets.trans h.sockets

/-- **One step**: whichever thread it is of, nothing moves but the ends of the queues. -/
theorem Deaf.step (hdeaf : sys.Deaf) (hgapless : sys.Gapless event) (hstep : sys.step event = some sys') :
    sys.Piles (sys.arrival? event).toList event.response?.toList sys' := by
  have hstays := hdeaf.piles
  obtain ⟨hidle, hcleared, hgate⟩ := hdeaf
  cases event with
  | incremental data =>
      obtain ⟨⟨consumer, accepted⟩, hoffer, hrest⟩ := Option.bind_eq_some_iff.mp hstep
      obtain rfl := Option.some.inj hrest
      have haccepted : sys.arrival? (.incremental data) = accepted := by
        rw [arrival?, MarketDataConsumer.accepted?, hoffer]
        rfl
      cases accepted with
      | none =>
          rw [haccepted]
          obtain ⟨size, more, rfl⟩ := MarketDataConsumer.resting_of_offer hoffer
          exact { hstays with deaf := ⟨hidle, hcleared, hgate⟩ }
      | some arrival =>
          have hnoGap := hgapless arrival haccepted
          rw [haccepted]
          obtain ⟨decoder, -, rfl⟩ := (MarketDataConsumer.accepted_of_offer hoffer).decoded
          rw [Option.elim, MarketDataConsumer.processIncremental_of_noGap
            (c := ({ sys.consumer with decoder := decoder } : MarketDataConsumer).record arrival.frame)
            hidle hnoGap]
          exact { hstays with deaf := ⟨hidle, hcleared, hgate⟩, updates := rfl }
  | tcp received =>
      obtain ⟨consumer, hconsumer, hrest⟩ := Option.bind_eq_some_iff.mp hstep
      -- The socket is read in recovery only.
      rw [MarketDataConsumer.step, hidle] at hconsumer
      obtain rfl := Option.some.inj hconsumer
      obtain rfl := Option.some.inj hrest
      exact hstays
  | engine =>
      have hheld : sys.engineStep = some sys := by simp [engineStep, hgate, hcleared]
      obtain rfl := Option.some.inj (hheld.symm.trans hstep)
      exact hstays
  | respond response =>
      obtain rfl := Option.some.inj hstep
      exact { hstays with deaf := ⟨hidle, hcleared, hgate⟩, responses := rfl }
  | takeRequest =>
      obtain rfl := Option.some.inj hstep
      exact { hstays with
        deaf := ⟨hidle, hcleared, hgate⟩
        engine := rfl
        requests := List.drop_suffix 1 _ }

/-- **Deaf until a gap.** Once a recovery has been aborted, and as long as no gap shows, the engine does
nothing at all: every update that is in turn waits in the queue, every response does too, and the consumer
asks nobody. -/
theorem deaf_until_gap (hdeaf : sys.Deaf) (events : List Event)
    (hgapless : Run.Along step Gapless sys events) (hrun : events.foldlM step sys = some sys') :
    sys.Piles (sys.arrivals events) (events.filterMap Event.response?) sys' := by
  induction events generalizing sys with
  | nil =>
      obtain rfl := Option.some.inj hrun
      exact hdeaf.piles
  | cons event events ih =>
      obtain ⟨hevent, hrest⟩ := hgapless
      obtain ⟨middle, hstep, hrun⟩ := Option.bind_eq_some_iff.mp hrun
      have hfirst := hdeaf.step hevent hstep
      have hpiles := hfirst.trans (ih hfirst.deaf (hrest middle hstep) hrun)
      have hresponses : (event :: events).filterMap Event.response? =
          event.response?.toList ++ events.filterMap Event.response? := by
        cases event <;> rfl
      rw [arrivals, hstep, hresponses]
      exact hpiles

/-- The first snapshot fails. -/
def abortedRun : List Event := [.tcp .eof]

/-- Increments come, one of them twice, and a response. -/
def deafRun : List Event :=
  [.incremental (feedFrame 1 (addMsg 1 9)), .engine, .incremental (feedFrame 2 (offerMsg 2 1)), .engine,
    .respond {}, .engine, .incremental (feedFrame 1 (addMsg 1 9)), .engine,
    .incremental (feedFrame 3 (addMsg 3 1)), .tcp .eof, .engine]

theorem deaf_until_gap_deafRun :
    ∃ sys sys', abortedRun.foldlM step (start takerEngine) = some sys
      ∧ deafRun.foldlM step sys = some sys' ∧ sys'.consumer.nextExpIncSeqNum = 4
      ∧ sys'.marketUpdates.length = 3 ∧ (sys.arrivals deafRun).length = 4
      ∧ sys.Piles (sys.arrivals deafRun) (deafRun.filterMap Event.response?) sys' := by
  have hrun : (abortedRun.foldlM step (start takerEngine)).any (fun sys =>
      !sys.consumer.inRecovery && !sys.consumer.marketDataSynchronized && sys.phase == .gate
        && decide (Run.Along step Gapless sys deafRun) && (sys.arrivals deafRun).length == 4
        && (deafRun.foldlM step sys).any fun sys' =>
          sys'.consumer.nextExpIncSeqNum == 4 && sys'.marketUpdates.length == 3) = true := by
    decide +kernel
  obtain ⟨sys, hbefore, hcheck⟩ := (Option.any_eq_true _ _).mp hrun
  simp only [Bool.and_eq_true, Bool.not_eq_true', beq_iff_eq, decide_eq_true_eq] at hcheck
  obtain ⟨⟨⟨⟨⟨hidle, hcleared⟩, hgate⟩, hgapless⟩, harrivals⟩, hlater⟩ := hcheck
  obtain ⟨sys', hrun, hcheck⟩ := (Option.any_eq_true _ _).mp hlater
  simp only [Bool.and_eq_true, beq_iff_eq] at hcheck
  exact ⟨sys, sys', hbefore, hrun, hcheck.1, hcheck.2, harrivals,
    deaf_until_gap ⟨hidle, hcleared, hgate⟩ deafRun hgapless hrun⟩

end TradingSystem

/-! ### A replay that is cut short -/

namespace MarketDataConsumer

variable {c c' : MarketDataConsumer} {frame data : List UInt8}

/-- The decoder turns the frame down, whatever comes behind it. -/
def TurnsDown (decoder : ItchDecoder) (frame : List UInt8) : Prop :=
  ¬ frame.length < 8 + 1 ∧ ∃ result ∈ decoder.decodeFrame .feed frame,
    result.accepted = false ∧ result.decoder.needMoreData = false

instance (decoder : ItchDecoder) (frame : List UInt8) : Decidable (TurnsDown decoder frame) :=
  inferInstanceAs (Decidable (_ ∧ _))

/-- One is the front of the other. -/
def Agree (data frame : List UInt8) : Prop := data <+: frame ∨ frame <+: data
  deriving Decidable

theorem agree_cons_iff {byte byte' : UInt8} :
    Agree (byte :: data) (byte' :: frame) ↔ byte = byte' ∧ Agree data frame := by
  simp only [Agree, List.cons_prefix_cons, eq_comm (a := byte'), and_or_left]

/-- Neither a part of the frame nor what comes behind it makes the decoder take it. -/
theorem TurnsDown.of_agree {decoder : ItchDecoder} (hturns : TurnsDown decoder frame)
    (hagree : Agree data frame) :
    ∃ result, decoder.decodeFrame .feed data = some result ∧ result.accepted = false := by
  obtain ⟨hlength, result, hdecode, hrejected, hdecided⟩ := hturns
  rcases hagree with ⟨rest, rfl⟩ | ⟨rest, rfl⟩
  · by_cases hshort : data.length < 8 + 1
    · exact ⟨_, by rw [ItchDecoder.decodeFrame, ItchDecoder.decode, if_pos hshort], rfl⟩
    by_contra hnone
    -- Undefined or accepted, the part would decide for the whole frame.
    have hdecided' : ∀ part, decoder.decodeFrame .feed data = some part → part.accepted = false →
        part.decoder.needMoreData = false := fun part hpart hfalse => absurd ⟨part, hpart, hfalse⟩ hnone
    rw [ItchDecoder.decodeFrame_append hshort hdecided' rest] at hdecode
    exact hnone ⟨result, hdecode, hrejected⟩
  · refine ⟨result, ?_, hrejected⟩
    rw [ItchDecoder.decodeFrame_append hlength _ rest, hdecode]
    intro result' hdecode' _
    obtain rfl := Option.some.inj (hdecode.symm.trans hdecode')
    exact hdecided

/-- The bytes of the answer that have been read. -/
def answer (c : MarketDataConsumer) : List UInt8 :=
  if c.replayStatusRead then 82 :: c.snapshotTcpBuffer else []

/-- A replay behind `last` has been requested, and nothing of its answer has been applied. -/
structure Unanswered (last : SeqNum) (pushed : List Arrival) (frame : List UInt8)
    (c : MarketDataConsumer) : Prop where
  mode : c.recoveryMode = .replay
  recovery : c.inRecovery = true
  cleared : c.marketDataSynchronized = false
  last : c.replayLastApplied = last
  pushed : c.incomingMdUpdates = pushed
  unread : c.replayStatusRead = false → c.snapshotTcpBuffer = []
  turns : TurnsDown c.decoder frame

/-- The server grants the replay and sends the frame, and no datagram changes what the decoder makes of
it. -/
def Repeats (frame : List UInt8) (c : MarketDataConsumer) : Event → Prop
  | .datagram bytes => ∃ c' ∈ c.step (.datagram bytes), TurnsDown c'.decoder frame
  | .tcp (.data byte bytes) => Agree (c.answer ++ byte :: bytes) (82 :: frame)
  | .tcp .wouldBlock => True
  | .tcp .eof | .tcp .error => 82 :: frame <+: c.answer

instance (c : MarketDataConsumer) : ∀ event, Decidable (Repeats frame c event)
  | .datagram bytes => inferInstanceAs (Decidable (∃ c' ∈ c.step (.datagram bytes), _))
  | .tcp (.data _ _) => inferInstanceAs (Decidable (Agree _ _))
  | .tcp .wouldBlock => isTrue trivial
  | .tcp .eof | .tcp .error => inferInstanceAs (Decidable (_ <+: _))

/-- Counts the connections that have come to their end. -/
def connections (count : Nat) : Event → Nat
  | .tcp .eof | .tcp .error => count + 1
  | _ => count

/-- What a datagram does in a recovery: its updates are queued. -/
def Queued (c c' : MarketDataConsumer) : Prop :=
  ∃ decoder queued inbound applied recent, c' = { c with
    decoder := decoder
    incrementalQueuedUpdates := queued
    inboundData := inbound
    applied := applied
    recent := recent }

theorem processIncremental_of_recovery (hrecovery : c.inRecovery = true) (arrival : Arrival) :
    c.processIncremental arrival = c.queueIncremental arrival := if_pos hrecovery

theorem queued_recvPass (hrecovery : c.inRecovery = true) (state : MarketDataConsumer × List UInt8)
    (next : (MarketDataConsumer × List UInt8) ⊕ (MarketDataConsumer × List UInt8))
    (hqueued : Queued c state.1) (_ : True) (hpass : recvPass state = some next) :
    next.elim (Queued c ·.1) (Queued c ·.1) := by
  obtain ⟨middle, data⟩ := state
  obtain ⟨decoder, queued, inbound, applied, recent, rfl⟩ := hqueued
  unfold recvPass at hpass
  dsimp only at hpass
  split at hpass
  case isTrue => exact Option.some.inj hpass ▸ ⟨_, _, _, _, _, rfl⟩
  case isFalse =>
      split at hpass
      case isTrue => exact Option.some.inj hpass ▸ ⟨_, _, _, _, _, rfl⟩
      case isFalse =>
          split at hpass
          case h_1 => cases hpass
          case h_2 arrival hoffer =>
              obtain ⟨decoder, -, rfl⟩ := (accepted_of_offer hoffer).decoded
              obtain rfl := Option.some.inj hpass
              rw [Sum.elim_inl, processIncremental_of_recovery]
              · exact ⟨_, _, _, _, _, rfl⟩
              · exact hrecovery
          case h_3 hoffer =>
              obtain ⟨size, more, rfl⟩ := resting_of_offer hoffer
              split at hpass <;> obtain rfl := Option.some.inj hpass <;> exact ⟨_, _, _, _, _, rfl⟩

theorem queued_datagram {bytes : List UInt8} (hrecovery : c.inRecovery = true)
    (hstep : c.step (.datagram bytes) = some c') : Queued c c' := by
  simp only [step, recvCallback] at hstep
  split at hstep
  case h_1 => cases hstep
  case h_2 done rest hrun =>
      obtain rfl := Option.some.inj hstep
      obtain ⟨decoder, queued, inbound, applied, recent, rfl⟩ : Queued c done :=
        Loop.post (Queued c ·.1) (Queued c ·.1) (queued_recvPass hrecovery) ⟨_, _, _, _, _, rfl⟩
          (Loop.During.of_forall (fun _ => trivial) ..) hrun
      exact ⟨_, _, _, _, _, rfl⟩

/-- A part of the frame, or the frame and more, stays in the buffer. -/
theorem readReplay_of_turnsDown (hturns : TurnsDown c.decoder frame)
    (hagree : Agree c.snapshotTcpBuffer frame) :
    ∃ size more, c.readReplay =
      some (c.resting size more c.replayStatusRead c.inboundData c.snapshotTcpBuffer) := by
  by_cases hempty : c.snapshotTcpBuffer.isEmpty = true
  · refine ⟨c.decoder.lastDecodedSize, c.decoder.needMoreData, ?_⟩
    rw [readReplay, Loop.run, replayPass]
    simp only [hempty, if_true]
    rfl
  obtain ⟨result, hdecode, hrejected⟩ := hturns.of_agree hagree
  obtain ⟨c', hoffer⟩ : ∃ c', c.offer .feed c.snapshotTcpBuffer = some (c', none) := by
    unfold offer
    rw [hdecode]
    simp [hrejected]
  obtain ⟨size, more, rfl⟩ := resting_of_offer hoffer
  refine ⟨size, more, ?_⟩
  rw [readReplay, Loop.run, replayPass]
  simp only [if_neg hempty, hoffer]
  rfl

theorem Unanswered.resting {last : SeqNum} {pushed : List Arrival} (h : Unanswered last pushed frame c)
    (size : Nat) (more : Bool) (inbound tcp : List UInt8) :
    Unanswered last pushed frame (c.resting size more true inbound tcp) :=
  { h with unread := fun hunread => Bool.noConfusion hunread }

section Repeats

variable {last : SeqNum} {pushed : List Arrival} (h : Unanswered last pushed frame c)

include h

theorem Unanswered.read {byte : UInt8} {bytes : List UInt8}
    (hagree : Agree (c.answer ++ byte :: bytes) (82 :: frame)) :
    ∃ c', c.step (.tcp (.data byte bytes)) = some c' ∧ Unanswered last pushed frame c'
      ∧ c'.socketCalls = c.socketCalls := by
  let read : MarketDataConsumer := { c with snapshotTcpBuffer := c.snapshotTcpBuffer ++ byte :: bytes }
  have hread : c.step (.tcp (.data byte bytes)) = read.processReplay := by
    rw [step, if_pos h.recovery, readSnapshotTcp, if_pos h.mode]
  by_cases hstatus : c.replayStatusRead = true
  · rw [answer, if_pos hstatus] at hagree
    obtain ⟨size, more, hreplay⟩ :=
      readReplay_of_turnsDown (c := read) h.turns (agree_cons_iff.mp hagree).2
    refine ⟨_, ?_, h.resting size more c.inboundData read.snapshotTcpBuffer, rfl⟩
    rw [hread, processReplay, if_pos hstatus, hreplay, hstatus]
    rfl
  · rw [answer, if_neg hstatus] at hagree
    obtain ⟨rfl, hpart⟩ := agree_cons_iff.mp hagree
    let granted : MarketDataConsumer := { c with snapshotTcpBuffer := bytes, replayStatusRead := true }
    obtain ⟨size, more, hreplay⟩ := readReplay_of_turnsDown (c := granted) h.turns hpart
    refine ⟨_, ?_, h.resting size more c.inboundData bytes, rfl⟩
    have hbuffer : read.snapshotTcpBuffer = 82 :: bytes := by
      rw [show read.snapshotTcpBuffer = c.snapshotTcpBuffer ++ 82 :: bytes from rfl,
        h.unread (Bool.eq_false_iff.mpr hstatus), List.nil_append]
    rw [hread, processReplay, if_neg hstatus, hbuffer]
    exact hreplay

theorem Unanswered.closed (hanswer : 82 :: frame <+: c.answer) :
    Unanswered last pushed frame c.onSnapshotTcpEof
      ∧ c.onSnapshotTcpEof.socketCalls.length = c.socketCalls.length + 2 := by
  have hstatus : c.replayStatusRead = true := by
    by_contra hunread
    rw [answer, if_neg hunread] at hanswer
    cases List.prefix_nil.mp hanswer
  rw [answer, if_pos hstatus, List.cons_prefix_cons] at hanswer
  have hpending : ¬ c.snapshotTcpBuffer.isEmpty = true := by
    intro hempty
    have hlength := hanswer.2.length_le
    rw [List.isEmpty_iff.mp hempty, List.length_nil] at hlength
    have hlong := h.turns.1
    omega
  have hagain : c.onSnapshotTcpEof = c.closeSocket.startReplaySync c.replayLastApplied false := by
    rw [onSnapshotTcpEof, if_neg (fun hdone => hpending hdone.2.2), if_pos ⟨h.mode, hstatus⟩]
  rw [hagain]
  refine ⟨⟨rfl, rfl, rfl, h.last, h.pushed, fun _ => rfl, h.turns⟩, ?_⟩
  simp [startReplaySync, openSocket, closeSocket]

end Repeats

/-- **One event**: the replay goes nowhere, and is requested again at the end of each connection. -/
theorem Unanswered.step {last : SeqNum} {pushed : List Arrival} {event : Event}
    (h : Unanswered last pushed frame c) (hrepeats : Repeats frame c event) (count : Nat) :
    ∃ c', c.step event = some c' ∧ Unanswered last pushed frame c'
      ∧ c'.socketCalls.length + 2 * count = c.socketCalls.length + 2 * connections count event := by
  cases event with
  | datagram bytes =>
      obtain ⟨c', hstep, hturns⟩ := hrepeats
      obtain ⟨decoder, queued, inbound, applied, recent, rfl⟩ := queued_datagram h.recovery hstep
      exact ⟨_, hstep, ⟨h.mode, h.recovery, h.cleared, h.last, h.pushed, h.unread, hturns⟩, rfl⟩
  | tcp received =>
      cases received with
      | data byte bytes =>
          obtain ⟨c', hstep, hunanswered, hsockets⟩ := h.read hrepeats
          exact ⟨c', hstep, hunanswered, by rw [hsockets]; rfl⟩
      | wouldBlock => exact ⟨c, if_pos h.recovery, h, rfl⟩
      | eof | error =>
          obtain ⟨hunanswered, hsockets⟩ := h.closed hrepeats
          refine ⟨_, if_pos h.recovery, hunanswered, ?_⟩
          rw [hsockets, connections]
          omega

/-- **Requested forever.** If the next frame of a replay is one that the decoder turns down, then however
often a server grants the replay and sends that frame, in whatever pieces and whatever it sends behind it,
the consumer asks for the same replay again and never synchronizes. -/
theorem replay_requested_forever {last : SeqNum} {pushed : List Arrival}
    (h : Unanswered last pushed frame c) (events : List Event)
    (hrepeats : Run.Along step (Repeats frame) c events) :
    ∃ c', events.foldlM step c = some c' ∧ Unanswered last pushed frame c'
      ∧ c'.socketCalls.length = c.socketCalls.length + 2 * events.foldl connections 0 := by
  let R : Nat → MarketDataConsumer → Nat → Prop := fun _ c' count =>
    Unanswered last pushed frame c' ∧ c'.socketCalls.length = c.socketCalls.length + 2 * count
  have hstep : ∀ n c' count event, R (n + 1) c' count → Repeats frame c' event →
      ∃ c'', c'.step event = some c'' ∧ R n c'' (connections count event) := by
    intro n c' count event ⟨hunanswered, hsockets⟩ hrepeats
    obtain ⟨c'', hstep, hunanswered', hsockets'⟩ := hunanswered.step hrepeats count
    exact ⟨c'', hstep, hunanswered', by omega⟩
  exact Run.simulation connections hstep ⟨h, rfl⟩ hrepeats

/-- The first snapshot fails, an increment becomes the baseline, the next one is about an order that was
there before, and the one behind it shows a gap. -/
def unknownOrderRun : List Event :=
  [reads [], .datagram (feedFrame 5 (markerMsg 0xCC 7)), .datagram (feedFrame 6 (executeMsg 1 1)),
    .datagram (feedFrame 7 (markerMsg 0xCC 7))]

/-- The server answers twice: in two pieces with an increment in between, and in one. -/
def repeatedAnswers : List Event :=
  [.tcp (.data 82 ((feedFrame 6 (executeMsg 1 1)).take 5)), .datagram (feedFrame 8 (markerMsg 0xCC 7)),
    .tcp .wouldBlock, .tcp (.data 0 ((feedFrame 6 (executeMsg 1 1)).drop 6)), .tcp .eof,
    .tcp (.data 82 (feedFrame 6 (executeMsg 1 1) ++ feedFrame 7 (markerMsg 0xCC 7))), .tcp .error]

theorem replay_requested_forever_unknownOrderRun :
    ∃ c c', unknownOrderRun.foldlM step start = some c ∧ repeatedAnswers.foldlM step c = some c'
      ∧ Unanswered 5 c.incomingMdUpdates (feedFrame 6 (executeMsg 1 1)) c'
      ∧ c'.socketCalls.length = c.socketCalls.length + 2 * 2 := by
  have hrun : (unknownOrderRun.foldlM step start).any (fun c => c.recoveryMode == .replay && c.inRecovery
      && !c.marketDataSynchronized && c.replayLastApplied == 5 && c.snapshotTcpBuffer.isEmpty
      && decide (TurnsDown c.decoder (feedFrame 6 (executeMsg 1 1)))
      && decide (Run.Along step (Repeats (feedFrame 6 (executeMsg 1 1))) c repeatedAnswers)) = true := by
    decide +kernel
  obtain ⟨c, hrun, hcheck⟩ := (Option.any_eq_true _ _).mp hrun
  simp only [Bool.and_eq_true, Bool.not_eq_true', beq_iff_eq, List.isEmpty_iff, decide_eq_true_eq] at hcheck
  obtain ⟨⟨⟨⟨⟨⟨hmode, hrecovery⟩, hcleared⟩, hlast⟩, hempty⟩, hturns⟩, hrepeats⟩ := hcheck
  obtain ⟨c', hanswered, hunanswered, hsockets⟩ := replay_requested_forever
    ⟨hmode, hrecovery, hcleared, hlast, rfl, fun _ => hempty, hturns⟩ repeatedAnswers hrepeats
  exact ⟨c, c', hrun, hanswered, hunanswered, hsockets⟩

end MarketDataConsumer

end AlphaTrader
