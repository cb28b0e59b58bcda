import AlphaTrader.Proof.Framing

/-!
# A complete replay is read to its end

The server grants a replay and sends the frames behind the last sequence number of the client, in any
number of pieces. All of them are read and the end of the stream completes the replay exactly if every
frame is acceptable when its turn comes. A frame that is turned down stays at the head of the buffer,
and the replay is asked for again from where it stands, without end.
-/

namespace AlphaTrader

open MarketDataConsumer

/-- The frames carry the sequence numbers behind `last`, one by one. -/
def Consecutive (last : SeqNum) : List FeedFrame → Prop
  | [] => True
  | frame :: frames => frame.seqNum = last + 1 ∧ Consecutive frame.seqNum frames

instance : ∀ (last : SeqNum) (frames : List FeedFrame), Decidable (Consecutive last frames)
  | _, [] => isTrue trivial
  | _, frame :: frames =>
      have := instDecidableConsecutive frame.seqNum frames
      inferInstanceAs (Decidable (_ ∧ _))

def replayBytes (frames : List FeedFrame) : List UInt8 := frames.flatMap FeedFrame.bytes

theorem ItchDecoder.allAcceptable_scratch {decoder : ItchDecoder} {frames : List FeedFrame} (size : Nat)
    (more : Bool) :
    ItchDecoder.AllAcceptable { decoder with lastDecodedSize := size, needMoreData := more } frames
      ↔ decoder.AllAcceptable frames := by
  cases frames with
  | nil => exact Iff.rfl
  | cons frame frames => exact and_congr_left fun _ => acceptable_congr rfl

/-- Behind an acceptable frame the rest of the frames decide. -/
theorem ItchDecoder.allAcceptable_cons_iff {decoder decoder' : ItchDecoder} {frame : FeedFrame}
    {frames : List FeedFrame} (hacceptable : decoder.Acceptable frame.msg frame.type)
    (hafter : decoder.after frame = some decoder') :
    decoder.AllAcceptable (frame :: frames) ↔ decoder'.AllAcceptable frames := by
  constructor
  · exact fun hall => hall.2 decoder' hafter
  · intro hrest
    refine ⟨hacceptable, fun decoder'' hafter' => ?_⟩
    obtain rfl := Option.some.inj (hafter.symm.trans hafter')
    exact hrest

namespace MarketDataConsumer

variable {c : MarketDataConsumer} {last : SeqNum} {frames : List FeedFrame}

/-- The replay stands before `frames`, the last of which has the number `last`. -/
structure Expects (last : SeqNum) (frames : List FeedFrame) (c : MarketDataConsumer) : Prop where
  mode : c.recoveryMode = .replay
  recovery : c.inRecovery = true
  status : c.replayStatusRead = true
  consecutive : Consecutive c.replayLastApplied frames
  last : c.replayLastApplied + UInt64.ofNat frames.length = last

/-- The buffer holds the first bytes of the frames to come, and no frame whole. -/
structure Loaded (last : SeqNum) (pending : List UInt8) (frames : List FeedFrame) (c : MarketDataConsumer) :
    Prop extends Expects last frames c where
  bytes : c.snapshotTcpBuffer ++ pending = replayBytes frames
  short : ∀ frame ∈ frames.head?, c.snapshotTcpBuffer.length < frame.bytes.length

/-- A frame that is turned down stands at the head of the buffer. -/
structure Halted (frame : FeedFrame) (c : MarketDataConsumer) : Prop where
  mode : c.recoveryMode = .replay
  recovery : c.inRecovery = true
  status : c.replayStatusRead = true
  unacceptable : ¬ c.decoder.Acceptable frame.msg frame.type
  head : frame.bytes <+: c.snapshotTcpBuffer

/-- Where the reading of a replay stands: it is undefined or halted, and then not all frames are
acceptable, or it waits for the rest of the frames, and then they decide. -/
inductive Outcome (last : SeqNum) (pending : List UInt8) (acceptable : Prop) :
    Option MarketDataConsumer → Prop
  | stuck (hnot : ¬ acceptable) : Outcome last pending acceptable none
  | halted (hnot : ¬ acceptable) {c : MarketDataConsumer} {frame : FeedFrame} (h : Halted frame c) :
      Outcome last pending acceptable (some c)
  | loaded {c : MarketDataConsumer} {frames : List FeedFrame} (h : Loaded last pending frames c)
      (hiff : acceptable ↔ c.decoder.AllAcceptable frames) : Outcome last pending acceptable (some c)

/-! ### Passes -/

theorem not_isEmpty_append (frame : FeedFrame) (more : List UInt8) :
    ¬ (frame.bytes ++ more).isEmpty = true := by
  have hshort := frame.not_short
  rw [List.isEmpty_iff]
  intro hnil
  rw [(List.append_eq_nil_iff.mp hnil).1] at hshort
  exact hshort (by decide)

theorem replayPass_frame {frame : FeedFrame} (h : Expects last (frame :: frames) c)
    (hacceptable : c.decoder.Acceptable frame.msg frame.type) (more : List UInt8) :
    ∃ c', replayPass (c, frame.bytes ++ more) = some (.inl (c', more)) ∧ Expects last frames c'
      ∧ c.decoder.after frame = some c'.decoder := by
  obtain ⟨hseq, hconsecutive⟩ := h.consecutive
  rw [hseq] at hconsecutive
  obtain ⟨update, decoder', hdecode, hupdate, hsize, hoffer⟩ := offer_frame hacceptable more
  let arrival : Arrival := ⟨update, ⟨.feed, frame.bytes⟩⟩
  let c' : MarketDataConsumer := { { c with decoder := decoder' }.record arrival.frame with
    replayLastApplied := c.replayLastApplied + 1
    snapshotQueuedUpdates := c.snapshotQueuedUpdates ++ [arrival] }
  refine ⟨c', ?_, ⟨h.mode, h.recovery, h.status, hconsecutive, ?_⟩, ?_⟩
  · unfold replayPass
    dsimp only
    rw [if_neg (not_isEmpty_append frame more), hoffer]
    simp only [record, hupdate, hseq, ne_eq, not_true_eq_false, if_false, hsize, List.drop_left]
    rfl
  · change c.replayLastApplied + 1 + UInt64.ofNat frames.length = last
    rw [← h.last, List.length_cons, UInt64.ofNat_add, UInt64.add_assoc,
      UInt64.add_comm (UInt64.ofNat frames.length)]
    rfl
  · rw [ItchDecoder.after, hdecode, Option.map_some]
    rfl

/-- A frame that is not acceptable is undefined or stays where it is. -/
theorem replayPass_unacceptable {frame : FeedFrame}
    (hunacceptable : ¬ c.decoder.Acceptable frame.msg frame.type) (more : List UInt8) :
    replayPass (c, frame.bytes ++ more) = none
      ∨ ∃ size, replayPass (c, frame.bytes ++ more) = some (.inr
        (c.resting size false c.replayStatusRead c.inboundData (frame.bytes ++ more))) := by
  unfold replayPass
  dsimp only
  rw [if_neg (not_isEmpty_append frame more)]
  rcases offer_unacceptable hunacceptable more with hstuck | hrejected
  · exact Or.inl (by rw [hstuck])
  · rw [hrejected]
    exact Or.inr ⟨frame.type.payloadSize, rfl⟩

theorem offer_part {frame : FeedFrame} {data : List UInt8} (hfront : data <+: frame.bytes)
    (hshort : data.length < frame.bytes.length) : ∃ c', c.offer .feed data = some (c', none) := by
  have hrejected : ∃ decoder', c.decoder.decodeFrame .feed data = some ⟨false, {}, decoder'⟩ := by
    unfold ItchDecoder.decodeFrame ItchDecoder.decode
    dsimp only
    split
    case isTrue => exact ⟨_, rfl⟩
    case isFalse hlength =>
        -- the type is known, and it is the type of the frame
        obtain ⟨rest, hrest⟩ := hfront
        have htype : MsgType.ofByte? (data.getD 8 0) = some frame.type := by
          rw [← frame.typed, ← hrest, List.getD_append _ _ _ _ (by omega)]
        simp only [htype]
        rw [if_pos (by rw [← frame.sized]; exact hshort)]
        exact ⟨_, rfl⟩
  obtain ⟨decoder', hdecode⟩ := hrejected
  refine ⟨{ c with decoder := decoder' }, ?_⟩
  simp [offer, hdecode]

theorem replayPass_part {frame : FeedFrame} {data : List UInt8} (hfront : data <+: frame.bytes)
    (hshort : data.length < frame.bytes.length) :
    ∃ size more, replayPass (c, data) =
      some (.inr (c.resting size more c.replayStatusRead c.inboundData data)) := by
  unfold replayPass
  dsimp only
  by_cases hempty : data.isEmpty = true
  · rw [if_pos hempty]
    exact ⟨c.decoder.lastDecodedSize, c.decoder.needMoreData, rfl⟩
  rw [if_neg hempty]
  obtain ⟨c', hoffer⟩ := offer_part (c := c) hfront hshort
  obtain ⟨size, more, rfl⟩ := resting_of_offer hoffer
  rw [hoffer]
  exact ⟨size, more, rfl⟩

theorem Halted.resting {frame : FeedFrame} (hmode : c.recoveryMode = .replay)
    (hrecovery : c.inRecovery = true) (hstatus : c.replayStatusRead = true)
    (hunacceptable : ¬ c.decoder.Acceptable frame.msg frame.type) (size : Nat) (more : List UInt8) :
    Halted frame (c.resting size false c.replayStatusRead c.inboundData (frame.bytes ++ more)) :=
  ⟨hmode, hrecovery, hstatus, fun h => hunacceptable ((ItchDecoder.acceptable_congr rfl).mp h),
    List.prefix_append frame.bytes more⟩

/-- The loop applies the frames that are in the buffer whole, up to one that is turned down. -/
theorem run_replayPass {pending : List UInt8} {fuel : Nat} {data : List UInt8}
    (h : Expects last frames c) (hbytes : data ++ pending = replayBytes frames)
    (hfuel : data.length < fuel) :
    Outcome last pending (c.decoder.AllAcceptable frames) (Loop.run replayPass fuel (c, data)) := by
  induction frames generalizing c data fuel with
  | nil =>
      obtain ⟨fuel, rfl⟩ : ∃ n, fuel = n + 1 := ⟨fuel - 1, by omega⟩
      obtain rfl : data = [] := (List.append_eq_nil_iff.mp hbytes).1
      have hloaded : Loaded last pending [] { c with snapshotTcpBuffer := [] } :=
        ⟨⟨h.mode, h.recovery, h.status, h.consecutive, h.last⟩, hbytes, by simp⟩
      exact .loaded hloaded Iff.rfl
  | cons frame frames ih =>
      obtain ⟨fuel, rfl⟩ : ∃ n, fuel = n + 1 := ⟨fuel - 1, by omega⟩
      have hpos : 0 < frame.bytes.length := by
        have hshort := frame.not_short
        omega
      by_cases hfits : frame.bytes.length ≤ data.length
      · -- the frame is there whole, and the rest of the data belongs to the rest of the frames
        obtain ⟨rest, rfl⟩ : frame.bytes <+: data :=
          List.prefix_of_prefix_length_le ⟨replayBytes frames, hbytes.symm⟩
            (List.prefix_append data pending) hfits
        by_cases hacceptable : c.decoder.Acceptable frame.msg frame.type
        · obtain ⟨c', hpass, hexpects, hafter⟩ := replayPass_frame h hacceptable rest
          have hrest : rest ++ pending = replayBytes frames := by
            rw [List.append_assoc] at hbytes
            exact List.append_cancel_left hbytes
          have hless : rest.length < fuel := by
            simp only [List.length_append] at hfuel
            omega
          rw [Loop.run, hpass, ItchDecoder.allAcceptable_cons_iff hacceptable hafter]
          exact ih hexpects hrest hless
        · have hnot : ¬ c.decoder.AllAcceptable (frame :: frames) := fun hall => hacceptable hall.1
          rcases replayPass_unacceptable hacceptable rest with hstuck | ⟨size, hpass⟩
          · rw [Loop.run, hstuck]
            exact .stuck hnot
          · rw [Loop.run, hpass]
            exact .halted hnot (.resting h.mode h.recovery h.status hacceptable size rest)
      · have hshort : data.length < frame.bytes.length := Nat.lt_of_not_le hfits
        have hfront : data <+: frame.bytes :=
          List.prefix_of_prefix_length_le ⟨pending, hbytes⟩
            (List.prefix_append frame.bytes (replayBytes frames)) (Nat.le_of_lt hshort)
        obtain ⟨size, more, hpass⟩ := replayPass_part (c := c) hfront hshort
        have hloaded : Loaded last pending (frame :: frames)
            (c.resting size more c.replayStatusRead c.inboundData data) := by
          refine ⟨⟨h.mode, h.recovery, h.status, h.consecutive, h.last⟩, hbytes, ?_⟩
          rintro other hother
          obtain rfl := Option.some.inj hother
          exact hshort
        rw [Loop.run, hpass]
        exact .loaded hloaded (ItchDecoder.allAcceptable_scratch size more).symm

/-! ### Reads -/

theorem outcome_readReplay {pending : List UInt8} (h : Expects last frames c)
    (hbytes : c.snapshotTcpBuffer ++ pending = replayBytes frames) :
    Outcome last pending (c.decoder.AllAcceptable frames) c.readReplay :=
  run_replayPass h hbytes (Nat.lt_succ_self _)

/-- A read during a replay whose status is known adds to the buffer and goes through it. -/
theorem step_replay_data {byte : UInt8} {bytes : List UInt8} (hmode : c.recoveryMode = .replay)
    (hrecovery : c.inRecovery = true) (hstatus : c.replayStatusRead = true) :
    c.step (.tcp (.data byte bytes)) =
      readReplay { c with snapshotTcpBuffer := c.snapshotTcpBuffer ++ byte :: bytes } := by
  unfold step
  dsimp only
  rw [if_pos hrecovery]
  unfold readSnapshotTcp
  dsimp only
  rw [if_pos hmode, processReplay, if_pos hstatus]

/-- Reads do not move a frame that is turned down. -/
theorem Halted.read {frame : FeedFrame} (h : Halted frame c) (byte : UInt8) (bytes : List UInt8) :
    c.step (.tcp (.data byte bytes)) = none
      ∨ ∃ c', c.step (.tcp (.data byte bytes)) = some c' ∧ Halted frame c' := by
  obtain ⟨rest, hbuffer⟩ := h.head
  let c' : MarketDataConsumer := { c with snapshotTcpBuffer := c.snapshotTcpBuffer ++ byte :: bytes }
  have hdata : c'.snapshotTcpBuffer = frame.bytes ++ (rest ++ byte :: bytes) := by
    rw [← List.append_assoc, hbuffer]
  have hread : c.step (.tcp (.data byte bytes)) = Loop.run replayPass (c'.snapshotTcpBuffer.length + 1)
      (c', frame.bytes ++ (rest ++ byte :: bytes)) := by
    rw [step_replay_data h.mode h.recovery h.status, ← hdata]
    rfl
  have hunacceptable : ¬ c'.decoder.Acceptable frame.msg frame.type := h.unacceptable
  rw [hread, Loop.run]
  rcases replayPass_unacceptable hunacceptable (rest ++ byte :: bytes) with hstuck | ⟨size, hpass⟩
  · exact Or.inl (by rw [hstuck])
  · rw [hpass]
    exact Or.inr ⟨_, rfl, .resting h.mode h.recovery h.status hunacceptable size _⟩

theorem Outcome.read {acceptable : Prop} {byte : UInt8} {bytes pending : List UInt8}
    (h : Outcome last (byte :: bytes ++ pending) acceptable (some c)) :
    Outcome last pending acceptable (c.step (.tcp (.data byte bytes))) := by
  cases h with
  | halted hnot h =>
      rcases h.read byte bytes with hstuck | ⟨c', hstep, hhalted⟩
      · rw [hstuck]
        exact .stuck hnot
      · rw [hstep]
        exact .halted hnot hhalted
  | @loaded _ frames h hiff =>
      have hexpects : Expects last frames
          { c with snapshotTcpBuffer := c.snapshotTcpBuffer ++ byte :: bytes } :=
        ⟨h.mode, h.recovery, h.status, h.consecutive, h.last⟩
      rw [step_replay_data h.mode h.recovery h.status, hiff]
      exact outcome_readReplay hexpects ((List.append_assoc ..).trans h.bytes)

theorem Outcome.reads {acceptable : Prop} (chunks : List (UInt8 × List UInt8))
    (h : Outcome last (chunks.flatMap fun chunk => chunk.1 :: chunk.2) acceptable (some c)) :
    Outcome last [] acceptable
      ((chunks.map fun chunk => Event.tcp (.data chunk.1 chunk.2)).foldlM step c) := by
  induction chunks generalizing c with
  | nil => exact h
  | cons chunk chunks ih =>
      have hread := h.read
      rw [List.map_cons, List.foldlM_cons]
      cases hstep : c.step (.tcp (.data chunk.1 chunk.2)) with
      | none =>
          rw [hstep] at hread
          cases hread with
          | stuck hnot => exact .stuck hnot
      | some c' =>
          rw [hstep] at hread
          exact ih hread

theorem outcome_granted {bytes pending : List UInt8} {clientSeq : SeqNum} {fresh : Bool}
    (hbytes : bytes ++ pending = replayBytes frames) (hconsecutive : Consecutive clientSeq frames) :
    Outcome (clientSeq + UInt64.ofNat frames.length) pending (c.decoder.AllAcceptable frames)
      ((c.startReplaySync clientSeq fresh).step (.tcp (.data 82 bytes))) := by
  let c' : MarketDataConsumer := { c.startReplaySync clientSeq fresh with
    snapshotTcpBuffer := bytes, replayStatusRead := true }
  have hexpects : Expects (clientSeq + UInt64.ofNat frames.length) frames c' :=
    ⟨rfl, rfl, rfl, hconsecutive, rfl⟩
  exact outcome_readReplay hexpects hbytes

/-- At the end of the stream all frames have been read exactly if they are acceptable. -/
theorem Outcome.finished_iff {acceptable : Prop} {read : Option MarketDataConsumer}
    (h : Outcome last [] acceptable read) :
    (∃ c', read = some c' ∧ c'.replayLastApplied = last ∧ c'.snapshotTcpBuffer = []
      ∧ c'.step (.tcp .eof) = some c'.finishReplaySync) ↔ acceptable := by
  cases h with
  | stuck hnot => simp [hnot]
  | @halted hnot c frame h =>
      refine iff_of_false ?_ hnot
      rintro ⟨c', heq, -, hempty, -⟩
      obtain rfl := Option.some.inj heq
      have hhead := h.head
      have hshort := frame.not_short
      rw [hempty, List.prefix_nil] at hhead
      rw [hhead] at hshort
      exact hshort (by decide)
  | @loaded c frames h hiff =>
      cases frames with
      | cons frame frames =>
          have hshort := h.short frame rfl
          rw [← List.append_nil c.snapshotTcpBuffer, h.bytes, replayBytes, List.flatMap_cons,
            List.length_append] at hshort
          omega
      | nil =>
          have hempty : c.snapshotTcpBuffer = [] := by simpa [replayBytes] using h.bytes
          refine iff_of_true ⟨c, rfl, ?_, hempty, ?_⟩ (hiff.mpr trivial)
          · rw [← h.last]
            exact (UInt64.add_zero _).symm
          · simp [step, readSnapshotTcp, onSnapshotTcpEof, h.recovery, h.mode, h.status, hempty]

/-- **A complete replay is read to its end** exactly if every frame of it is acceptable: whatever the
pieces in which it arrives, the last frame is applied, the buffer is empty and the end of the stream
completes the replay. -/
theorem replay_read_iff (c : MarketDataConsumer) (clientSeq : SeqNum) (fresh : Bool)
    (frames : List FeedFrame) (chunks : List (UInt8 × List UInt8))
    (hconsecutive : Consecutive clientSeq frames)
    (hstream : (chunks.flatMap fun chunk => chunk.1 :: chunk.2) = 82 :: replayBytes frames) :
    (∃ c', (chunks.map fun chunk => Event.tcp (.data chunk.1 chunk.2)).foldlM step
        (c.startReplaySync clientSeq fresh) = some c'
      ∧ c'.replayLastApplied = clientSeq + UInt64.ofNat frames.length
      ∧ c'.snapshotTcpBuffer = [] ∧ c'.step (.tcp .eof) = some c'.finishReplaySync)
    ↔ c.decoder.AllAcceptable frames := by
  cases chunks with
  | nil => cases hstream
  | cons chunk chunks =>
      obtain ⟨byte, bytes⟩ := chunk
      obtain ⟨rfl, hbytes⟩ := List.cons.inj hstream
      have hgranted : Outcome _ _ (c.decoder.AllAcceptable frames)
          ((c.startReplaySync clientSeq fresh).step (.tcp (.data 82 bytes))) :=
        outcome_granted hbytes hconsecutive
      apply Outcome.finished_iff
      rw [List.map_cons, List.foldlM_cons]
      cases hstep : (c.startReplaySync clientSeq fresh).step (.tcp (.data 82 bytes)) with
      | none =>
          rw [hstep] at hgranted
          cases hgranted with
          | stuck hnot => exact .stuck hnot
      | some granted =>
          rw [hstep] at hgranted
          exact hgranted.reads chunks

/-- A replay of an order and its execution, cut inside both frames. -/
theorem replay_read_iff_addFrame :
    let bytes := replayBytes [addFrame, executeFrame]
    let chunks := [(82, bytes.take 10), (bytes.getD 10 0, (bytes.drop 11).take 40),
      (bytes.getD 51 0, bytes.drop 52)]
    ∃ c', (chunks.map fun chunk => Event.tcp (.data chunk.1 chunk.2)).foldlM step
        (start.startReplaySync 0 true) = some c'
      ∧ c'.replayLastApplied = 2 ∧ c'.snapshotTcpBuffer = []
      ∧ c'.step (.tcp .eof) = some c'.finishReplaySync :=
  (replay_read_iff start 0 true [addFrame, executeFrame] _ (by decide +kernel) (by decide +kernel)).mpr
    (by decide +kernel)

/-- A replay of an execution whose order is not live. -/
def untrackedReplayRun : List Event :=
  [reads (emptySnapshot 0), .datagram (feedFrame 1 (markerMsg 0xCC 7)),
    .datagram (feedFrame 3 (markerMsg 0xCC 7)), reads (82 :: feedFrame 2 (executeMsg 9 4))]

/-- The frame is complete and next in order, but it stays in the buffer, and at the end of the stream
the same replay is asked for again. -/
theorem untrackedReplayRun_repeats :
    ∃ c c', untrackedReplayRun.foldlM step start = some c ∧ c.step (.tcp .eof) = some c'
      ∧ c.replayLastApplied = 1 ∧ c.snapshotTcpBuffer = feedFrame 2 (executeMsg 9 4)
      ∧ c'.recoveryMode = .replay ∧ c'.replayStatusRead = false ∧ c'.replayLastApplied = 1
      ∧ c'.marketDataSynchronized = false := by
  have hrun : (untrackedReplayRun.foldlM step start).any (fun c => c.replayLastApplied = 1
      && c.snapshotTcpBuffer = feedFrame 2 (executeMsg 9 4) && (c.step (.tcp .eof)).any fun c' =>
        c'.recoveryMode = .replay && !c'.replayStatusRead && c'.replayLastApplied = 1
          && !c'.marketDataSynchronized) = true := by
    decide +kernel
  obtain ⟨c, hrun, hcheck⟩ := (Option.any_eq_true _ _).mp hrun
  obtain ⟨hstate, hnext⟩ := Bool.and_eq_true_iff.mp hcheck
  obtain ⟨c', hstep, hcheck⟩ := (Option.any_eq_true _ _).mp hnext
  obtain ⟨hlast, hbuffer⟩ := by simpa using hstate
  obtain ⟨⟨⟨hmode, hstatus⟩, hsame⟩, hflag⟩ := by simpa using hcheck
  exact ⟨c, c', hrun, hstep, hlast, hbuffer, hmode, hstatus, hsame, hflag⟩

end MarketDataConsumer

end AlphaTrader
