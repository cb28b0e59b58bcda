import AlphaTrader.ItchDecoder
import AlphaTrader.Library.Loop

/-!
# The market data consumer

`src/market_data/market_data_consumer.cpp`, `market_data_incremental.cpp` and
`market_data_recovery.cpp`: datagrams of the incremental feed are decoded and delivered in sequence;
after a gap the consumer asks for a replay or a snapshot over TCP, queues what arrives meanwhile, and
delivers both when the recovery completes. The environment decides what is received. A step yields
`none` where the behaviour of the decoder is undefined. Sockets are taken to work, as the code asserts.

Three history variables, which nothing reads, record the frames that the decoder has accepted and the
sockets that were opened and closed.
-/

namespace AlphaTrader

/-- Frames of the feed and of a replay start with a sequence number, frames of a snapshot do not. -/
inductive FrameKind where
  | feed
  | snapshot
  deriving DecidableEq, Repr

/-- The bytes of a frame before its message. -/
def FrameKind.headerSize : FrameKind → Nat
  | .feed => 8
  | .snapshot => 0

def ItchDecoder.decodeFrame (decoder : ItchDecoder) (kind : FrameKind) (wire : List UInt8) :
    Option Decoded :=
  match kind with
  | .feed => decoder.decode wire {}
  | .snapshot => decoder.decodeSnapshot wire {}

structure Frame where
  kind : FrameKind
  bytes : List UInt8
  deriving DecidableEq, Repr

/-- An update with the frame it was decoded from. -/
structure Arrival where
  update : MarketUpdate
  frame : Frame
  deriving DecidableEq, Repr

inductive RecoveryMode where
  | none
  | snapshot
  | replay
  deriving DecidableEq, Repr

/-- The first byte of the answer to a replay request. -/
inductive ReplayStatus where
  | granted
  | denied
  | current
  | unexpected
  deriving DecidableEq, Repr

def ReplayStatus.ofByte (status : UInt8) : ReplayStatus :=
  match Char.ofNat status.toNat with
  | 'R' => granted
  | 'N' => denied
  | 'C' => current
  | _ => unexpected

/-- What was done with recovery sockets. A number stands for a socket, `none` for the descriptor -1. -/
inductive SocketCall where
  | opened (socket : Nat)
  | closed (socket : Option Nat)
  deriving DecidableEq, Repr

structure MarketDataConsumer where
  decoder : ItchDecoder := {}
  nextExpIncSeqNum : SeqNum := 0
  inRecovery : Bool := false
  marketDataSynchronized : Bool := false
  snapshotHaveStart : Bool := false
  recoveryMode : RecoveryMode := .none
  replayStatusRead : Bool := false
  replayLastApplied : SeqNum := 0
  incrementalQueuedUpdates : Std.TreeMap SeqNum Arrival := {}
  snapshotQueuedUpdates : List Arrival := []
  /-- The bytes of the incremental socket that have not been used. -/
  inboundData : List UInt8 := []
  /-- The socket of the recovery; `none` is the descriptor -1. -/
  snapshotTcpFd : Option Nat := none
  snapshotTcpBuffer : List UInt8 := []
  /-- Everything pushed to the queue of the trading thread. -/
  incomingMdUpdates : List Arrival := []
  /-- History: the frames accepted since the decoder was last reset. -/
  applied : List Frame := []
  /-- History: in a recovery, the frames accepted since it began or since its snapshot started. -/
  recent : List Frame := []
  /-- History: the recovery sockets opened and closed. -/
  socketCalls : List SocketCall := []

namespace MarketDataConsumer

def replayCapacity : SeqNum := 8192

/-- `kRegistrationMagic` -/
def registrationMagic : List UInt8 := [0x4E, 0x45, 0x58, 0x53, 0x55, 0x42]

def push (c : MarketDataConsumer) (updates : List Arrival) : MarketDataConsumer :=
  { c with incomingMdUpdates := c.incomingMdUpdates ++ updates }

/-! ### Decoding -/

/-- The history after a frame has been accepted. -/
def record (c : MarketDataConsumer) (frame : Frame) : MarketDataConsumer :=
  { c with
    applied := c.applied ++ [frame]
    recent := if c.inRecovery then c.recent ++ [frame] else [frame] }

/-- Offers the bytes to the decoder, which accepts a frame at their head or does not. -/
def offer (c : MarketDataConsumer) (kind : FrameKind) (wire : List UInt8) :
    Option (MarketDataConsumer × Option Arrival) :=
  match c.decoder.decodeFrame kind wire with
  | none => none
  | some decoded =>
      let c := { c with decoder := decoded.decoder }
      if decoded.accepted then
        let frame : Frame :=
          ⟨kind, wire.take (kind.headerSize + decoded.decoder.lastDecodedSize)⟩
        some (c.record frame, some ⟨decoded.update, frame⟩)
      else some (c, none)

/-! ### Recovery -/

/-- `snapshot_tcp_fd_ = socket(...)`, which gives a socket that was not there before. -/
def openSocket (c : MarketDataConsumer) : MarketDataConsumer :=
  { c with
    snapshotTcpFd := some c.socketCalls.length
    socketCalls := c.socketCalls ++ [.opened c.socketCalls.length] }

/-- `close(snapshot_tcp_fd_); snapshot_tcp_fd_ = -1;` -/
def closeSocket (c : MarketDataConsumer) : MarketDataConsumer :=
  { c with
    snapshotTcpFd := none
    socketCalls := c.socketCalls ++ [.closed c.snapshotTcpFd] }

/-- `if (snapshot_tcp_fd_ != -1) close(snapshot_tcp_fd_); snapshot_tcp_fd_ = -1;` -/
def closeIfOpen (c : MarketDataConsumer) : MarketDataConsumer :=
  { c with
    snapshotTcpFd := none
    socketCalls := c.socketCalls ++ if c.snapshotTcpFd.isSome then [.closed c.snapshotTcpFd] else [] }

def startSnapshotSync (c : MarketDataConsumer) : MarketDataConsumer :=
  { c.openSocket with
    marketDataSynchronized := false
    inRecovery := true
    recoveryMode := .snapshot
    snapshotHaveStart := false
    incrementalQueuedUpdates := {}
    snapshotQueuedUpdates := []
    snapshotTcpBuffer := [] }

def startReplaySync (c : MarketDataConsumer) (clientSeq : SeqNum) (fresh : Bool) :
    MarketDataConsumer :=
  { c.openSocket with
    marketDataSynchronized := false
    inRecovery := true
    recoveryMode := .replay
    replayStatusRead := false
    replayLastApplied := clientSeq
    incrementalQueuedUpdates := if fresh then {} else c.incrementalQueuedUpdates
    snapshotQueuedUpdates := if fresh then [] else c.snapshotQueuedUpdates
    snapshotTcpBuffer := [] }

def abortSnapshotSync (c : MarketDataConsumer) : MarketDataConsumer :=
  { c.closeIfOpen with
    snapshotHaveStart := false
    incrementalQueuedUpdates := {}
    snapshotQueuedUpdates := []
    inRecovery := false
    marketDataSynchronized := false
    recoveryMode := .none }

/-- The sequence number after the queued updates, if those from `expected` on have no gap. -/
def contiguous (expected : SeqNum) : List (SeqNum × Arrival) → Option SeqNum
  | [] => some expected
  | (seqNum, _) :: rest =>
      if seqNum < expected then contiguous expected rest
      else if seqNum ≠ expected then none
      else contiguous (expected + 1) rest

/-- The queued updates from `resumeSeq` on. -/
def drained (c : MarketDataConsumer) (resumeSeq : SeqNum) : List Arrival :=
  (c.incrementalQueuedUpdates.toList.filter fun queued => ¬ queued.1 < resumeSeq).map Prod.snd

/-- What both kinds of recovery do when they complete. -/
def completeSync (c : MarketDataConsumer) (resumeSeq expected : SeqNum) : MarketDataConsumer :=
  { c.push (c.snapshotQueuedUpdates ++ c.drained resumeSeq) with
    incrementalQueuedUpdates := {}
    nextExpIncSeqNum := expected
    inRecovery := false
    marketDataSynchronized := true
    recoveryMode := .none
    snapshotQueuedUpdates := [] }

def finishReplaySync (c : MarketDataConsumer) : MarketDataConsumer :=
  let resumeSeq := c.replayLastApplied + 1
  match contiguous resumeSeq c.incrementalQueuedUpdates.toList with
  | none => c.abortSnapshotSync
  | some expected => { (c.completeSync resumeSeq expected).closeIfOpen with snapshotTcpBuffer := [] }

/-- If the queue has a gap the consumer stays in recovery and waits for another snapshot. -/
def finishSnapshotSync (c : MarketDataConsumer) (resumeSeq : SeqNum) : MarketDataConsumer :=
  match contiguous resumeSeq c.incrementalQueuedUpdates.toList with
  | none => { c with snapshotQueuedUpdates := [] }
  | some expected => (c.completeSync resumeSeq expected).closeSocket

/-! ### Incrementals -/

def queueIncremental (c : MarketDataConsumer) (arrival : Arrival) : MarketDataConsumer :=
  { c with
    incrementalQueuedUpdates :=
      c.incrementalQueuedUpdates.insert arrival.update.seqNum arrival }

def detectGap (c : MarketDataConsumer) (receivedSeq : SeqNum) : MarketDataConsumer :=
  if c.inRecovery then c
  else
    let gap := receivedSeq - c.nextExpIncSeqNum
    if gap ≤ replayCapacity then c.startReplaySync (c.nextExpIncSeqNum - 1) true
    else c.startSnapshotSync

def processIncremental (c : MarketDataConsumer) (arrival : Arrival) : MarketDataConsumer :=
  let seqNum := arrival.update.seqNum
  if c.inRecovery then c.queueIncremental arrival
  else
    let expected := c.nextExpIncSeqNum
    if expected = 0 then { c.push [arrival] with nextExpIncSeqNum := seqNum + 1 }
    else if seqNum = expected then { c.push [arrival] with nextExpIncSeqNum := expected + 1 }
    else if expected < seqNum then (c.detectGap seqNum).queueIncremental arrival
    else c

/-- One pass of the loop of `recvCallback` over the unused bytes. -/
def recvPass (state : MarketDataConsumer × List UInt8) :
    Option ((MarketDataConsumer × List UInt8) ⊕ (MarketDataConsumer × List UInt8)) :=
  let (c, data) := state
  if data.length < 8 + 1 then some (.inr (c, data))
  else if registrationMagic.isPrefixOf data then
    some (.inl (c, data.drop registrationMagic.length))
  else
    match c.offer .feed data with
    | none => none
    | some (c, some arrival) =>
        some (.inl (c.processIncremental arrival, data.drop (8 + c.decoder.lastDecodedSize)))
    | some (c, none) =>
        if c.decoder.needMoreData then some (.inr (c, data)) else some (.inl (c, data.drop 1))

def recvCallback (c : MarketDataConsumer) : Option MarketDataConsumer :=
  match Loop.run recvPass (c.inboundData.length + 1) (c, c.inboundData) with
  | none => none
  | some (c, data) => some { c with inboundData := data }

/-! ### The TCP stream -/

def processSnapshot (c : MarketDataConsumer) (arrival : Arrival) : MarketDataConsumer :=
  if ¬ c.inRecovery then c
  else if arrival.update.type = .snapshotStart then
    { c with
      snapshotHaveStart := true
      decoder := c.decoder.reset
      snapshotQueuedUpdates := [arrival]
      applied := [arrival.frame]
      recent := [arrival.frame] }
  else if ¬ c.snapshotHaveStart then c
  else
    let c := { c with snapshotQueuedUpdates := c.snapshotQueuedUpdates ++ [arrival] }
    if arrival.update.type = .snapshotEnd then
      finishSnapshotSync { c with snapshotHaveStart := false } (arrival.update.orderRef + 1)
    else c

/-- One pass of the loop of `readSnapshotTcp` over the unused bytes of a snapshot. -/
def snapshotPass (state : MarketDataConsumer × List UInt8) :
    Option ((MarketDataConsumer × List UInt8) ⊕ (MarketDataConsumer × List UInt8)) :=
  let (c, data) := state
  if data.isEmpty then some (.inr (c, data))
  else
    match c.offer .snapshot data with
    | none => none
    | some (c, some arrival) =>
        some (.inl (c.processSnapshot arrival, data.drop c.decoder.lastDecodedSize))
    | some (c, none) => some (.inr (c, data))

/-- One pass of the loop of `processReplay` over the unused bytes of a replay. A frame out of order
aborts the recovery, and the buffer keeps its bytes. -/
def replayPass (state : MarketDataConsumer × List UInt8) :
    Option ((MarketDataConsumer × List UInt8) ⊕ MarketDataConsumer) :=
  let (c, data) := state
  if data.isEmpty then some (.inr { c with snapshotTcpBuffer := data })
  else
    match c.offer .feed data with
    | none => none
    | some (c, some arrival) =>
        if arrival.update.seqNum ≠ c.replayLastApplied + 1 then some (.inr c.abortSnapshotSync)
        else
          some (.inl ({ c with
            replayLastApplied := arrival.update.seqNum
            snapshotQueuedUpdates := c.snapshotQueuedUpdates ++ [arrival] },
            data.drop (8 + c.decoder.lastDecodedSize)))
    | some (c, none) => some (.inr { c with snapshotTcpBuffer := data })

/-- The loop over the frames of a replay. -/
def readReplay (c : MarketDataConsumer) : Option MarketDataConsumer :=
  Loop.run replayPass (c.snapshotTcpBuffer.length + 1) (c, c.snapshotTcpBuffer)

def processReplay (c : MarketDataConsumer) : Option MarketDataConsumer :=
  if c.replayStatusRead then c.readReplay
  else
    match c.snapshotTcpBuffer with
    | [] => some c
    | status :: rest =>
        let c := { c with snapshotTcpBuffer := rest, replayStatusRead := true }
        match ReplayStatus.ofByte status with
        | .granted => c.readReplay
        | .denied => some c.closeSocket.startSnapshotSync
        | .current => some c.closeSocket.finishReplaySync
        | .unexpected => some c.abortSnapshotSync

def onSnapshotTcpEof (c : MarketDataConsumer) : MarketDataConsumer :=
  if c.recoveryMode = .replay ∧ c.replayStatusRead ∧ c.snapshotTcpBuffer.isEmpty then
    c.finishReplaySync
  else if c.recoveryMode = .replay ∧ c.replayStatusRead then
    c.closeSocket.startReplaySync c.replayLastApplied false
  else c.abortSnapshotSync

/-- What `recv` returns on the TCP socket. -/
inductive TcpRead where
  | data (byte : UInt8) (bytes : List UInt8)
  | eof
  | wouldBlock
  | error

/-- The frames of a snapshot in the buffer. -/
def readSnapshot (c : MarketDataConsumer) : Option MarketDataConsumer :=
  match Loop.run snapshotPass (c.snapshotTcpBuffer.length + 1) (c, c.snapshotTcpBuffer) with
  | none => none
  | some (c, data) => some { c with snapshotTcpBuffer := data }

def readSnapshotTcp (c : MarketDataConsumer) : TcpRead → Option MarketDataConsumer
  | .eof | .error => some c.onSnapshotTcpEof
  | .wouldBlock => some c
  | .data byte bytes =>
      let c := { c with snapshotTcpBuffer := c.snapshotTcpBuffer ++ byte :: bytes }
      if c.recoveryMode = .replay then c.processReplay else c.readSnapshot

/-! ### The thread -/

inductive Event where
  | datagram (bytes : List UInt8)
  | tcp (received : TcpRead)

/-- The TCP socket is read in recovery only. -/
def step (c : MarketDataConsumer) : Event → Option MarketDataConsumer
  | .datagram bytes => recvCallback { c with inboundData := c.inboundData ++ bytes }
  | .tcp received => if c.inRecovery then c.readSnapshotTcp received else some c

/-- The consumer when its thread starts. -/
def start : MarketDataConsumer := startSnapshotSync {}

end MarketDataConsumer

end AlphaTrader
