import AlphaTrader.Proof.ConsumerSpec
import AlphaTrader.Proof.FrameCells
import AlphaTrader.Library.Run

/-!
# The decoder and the delivered stream

The decoder is changed by every frame it accepts, before the consumer decides whether the update is
delivered, queued or dropped, and it is reset in the middle of a recovery. So it follows the delivered
stream only as far as the accepted frames are the delivered ones. The proof compares the frames accepted
since the last reset with those delivered since the last snapshot, order by order.
-/

namespace AlphaTrader

open Cells

/-- The updates from the last opening of a snapshot on. -/
def sinceStart (updates : List Arrival) : List Arrival :=
  updates.foldl (fun since arrival =>
    if arrival.update.type = .snapshotStart then [arrival] else since ++ [arrival]) []

theorem sinceStart_append {updates more : List Arrival}
    (hmore : ∀ arrival ∈ more, arrival.update.type ≠ .snapshotStart) :
    sinceStart (updates ++ more) = sinceStart updates ++ more := by
  induction more using List.reverseRecOn with
  | nil => simp
  | append_singleton more arrival ih =>
      have hlast : arrival.update.type ≠ .snapshotStart := hmore arrival (by simp)
      have hmore' := ih fun other hmem => hmore other (by simp [hmem])
      rw [← List.append_assoc, sinceStart, List.foldl_append, List.foldl_cons, List.foldl_nil,
        if_neg hlast, ← List.append_assoc]
      exact congrArg (· ++ [arrival]) hmore'

theorem sinceStart_start {updates more : List Arrival} {opening : Arrival}
    (hopening : opening.update.type = .snapshotStart)
    (hmore : ∀ arrival ∈ more, arrival.update.type ≠ .snapshotStart) :
    sinceStart (updates ++ opening :: more) = opening :: more := by
  rw [List.append_cons, sinceStart_append hmore, sinceStart, List.foldl_append, List.foldl_cons,
    List.foldl_nil, if_pos hopening]
  rfl

/-- A fresh decoder fed with the frames. -/
def redecode (frames : List Frame) : Option ItchDecoder :=
  frames.foldlM (fun decoder frame =>
    (decoder.decodeFrame frame.kind frame.bytes).map Decoded.decoder) {}

namespace ItchDecoder

variable {replaced : TickerId → Bool} {decoder decoder' : ItchDecoder} {frame : Frame}

theorem redecode_of_accept? {frames : List Frame}
    (hrun : frames.foldlM (accept? replaced) decoder = some decoder') :
    frames.foldlM (fun decoder frame =>
      (decoder.decodeFrame frame.kind frame.bytes).map Decoded.decoder) decoder = some decoder' := by
  induction frames generalizing decoder with
  | nil => exact hrun
  | cons frame frames ih =>
      rw [List.foldlM_cons] at hrun ⊢
      obtain ⟨next, haccept, hrun⟩ := Option.bind_eq_some_iff.mp hrun
      obtain ⟨-, update, hdecode⟩ := accept?_eq_some_iff.mp haccept
      rw [hdecode]
      exact ih hrun

theorem marker_of_snapshotStart {type : MsgType} {msg : Payload} {out : MarketUpdate}
    {result : Decoded} (hdecode : decoder.decodeMessage type msg out = some result)
    (haccepted : result.accepted = true) (hstart : result.update.type = .snapshotStart) :
    type = .orderDelete ∧ marker? msg.locate = some .snapshotStart := by
  by_cases hreplace : type = .orderReplace
  · subst hreplace
    rw [(decodeOrderReplace_confined hdecode).2] at hstart
    cases hstart
  · have htouches := touches_of_decodeMessage hreplace hdecode
    obtain ⟨⟨update, entry⟩, heffect⟩ :=
      Option.isSome_iff_exists.mp (htouches.accepted.symm.trans haccepted)
    have hupdate := htouches.update update entry heffect
    rw [hupdate] at hstart
    cases type with
    | orderDelete =>
        refine ⟨rfl, ?_⟩
        unfold touch at heffect
        dsimp only at heffect
        split at heffect
        case h_1 type hmarker =>
            obtain ⟨rfl, -⟩ := by simpa using heffect
            rw [hmarker]
            exact congrArg some hstart
        case h_2 =>
            obtain ⟨state, -, heq⟩ := Option.map_eq_some_iff.mp heffect
            obtain ⟨rfl, -⟩ := by simpa using heq
            cases hstart
    | systemEvent => cases heffect
    | orderReplace => cases heffect
    | addOrder =>
        obtain ⟨rfl, -⟩ := by simpa [touch] using heffect
        cases hstart
    | addOrderMpid =>
        obtain ⟨rfl, -⟩ := by simpa [touch] using heffect
        cases hstart
    | orderExecuted =>
        obtain ⟨state, -, heq⟩ := Option.map_eq_some_iff.mp heffect
        obtain ⟨rfl, -⟩ := by simpa using heq
        cases hstart
    | orderCancel =>
        obtain ⟨state, -, heq⟩ := Option.map_eq_some_iff.mp heffect
        obtain ⟨rfl, -⟩ := by simpa using heq
        cases hstart

theorem accept?_snapshotStart {update : MarketUpdate}
    (hdecode : decoder.decodeFrame frame.kind frame.bytes = some ⟨true, update, decoder'⟩)
    (hstart : update.type = .snapshotStart) :
    ∃ opened, accept? replaced {} frame = some opened ∧ opened.orderRefMap = {} := by
  rcases decodeFrame_cases hdecode with ⟨hrejected, -⟩ | ⟨-, type, hcomplete, -⟩
  · cases hrejected
  · rw [decodeFrame_eq decoder hcomplete] at hdecode
    obtain ⟨rfl, hmarker⟩ := marker_of_snapshotStart hdecode rfl hstart
    let opened : ItchDecoder := handling {} frame.kind .orderDelete
    have hfresh : opened.decodeMessage .orderDelete frame.msg
        { seqNum := seqNumOf frame.kind frame.bytes } = some ⟨true, _, opened⟩ :=
      decodeOrderDelete_marker hmarker
    exact ⟨opened, accept?_iff_decodeMessage.mpr ⟨_, _, hcomplete, nofun, hfresh⟩, rfl⟩

end ItchDecoder

namespace MarketDataConsumer

variable {replaced : TickerId → Bool} {c c' : MarketDataConsumer} {arrival : Arrival}

/-- The frames delivered since the last opening of a snapshot. -/
def delivered (c : MarketDataConsumer) : List Frame :=
  (sinceStart c.incomingMdUpdates).map Arrival.frame

/-- The frames that completing the recovery delivers. -/
def completion (c : MarketDataConsumer) (resumeSeq : SeqNum) : List Frame :=
  (c.snapshotQueuedUpdates ++ c.drained resumeSeq).map Arrival.frame

/-- When a recovery completes, the frames accepted since it began, or since its snapshot opened, are
those it delivers, order by order. -/
def CompletesInOrder (replaced : TickerId → Bool) (c : MarketDataConsumer) (resumeSeq : SeqNum) : Prop :=
  (contiguous resumeSeq c.incrementalQueuedUpdates.toList).isSome →
    SameOrder (Frame.cell replaced) c.recent (c.completion resumeSeq)

instance (replaced : TickerId → Bool) (c : MarketDataConsumer) (resumeSeq : SeqNum) :
    Decidable (CompletesInOrder replaced c resumeSeq) :=
  inferInstanceAs (Decidable (_ → _))

/-- What keeps the decoder with the delivered stream. Outside a recovery no stale frame and no frame of
a snapshot is accepted; markers that open a snapshot come in snapshots only; replays are in order;
recoveries complete in order, and are given up only before they have accepted a frame. -/
def Faithful (replaced : TickerId → Bool) (c : MarketDataConsumer) : Turn → Prop
  | .live arrival => arrival.frame.Plain replaced ∧ arrival.update.type ≠ .snapshotStart
      ∧ (c.inRecovery = false →
        c.nextExpIncSeqNum = 0 ∨ c.nextExpIncSeqNum ≤ arrival.update.seqNum)
  | .snapshot arrival => arrival.frame.Plain replaced ∧ c.inRecovery = true
      ∧ (arrival.update.type = .snapshotEnd → c.snapshotHaveStart = true →
        CompletesInOrder replaced { c with
          recent := c.recent ++ [arrival.frame]
          snapshotQueuedUpdates := c.snapshotQueuedUpdates ++ [arrival] }
          (arrival.update.orderRef + 1))
  | .replay arrival => arrival.frame.Plain replaced ∧ arrival.update.type ≠ .snapshotStart
      ∧ arrival.update.seqNum = c.replayLastApplied + 1
  | .finishReplay => CompletesInOrder replaced c (c.replayLastApplied + 1)
      ∧ (contiguous (c.replayLastApplied + 1) c.incrementalQueuedUpdates.toList = none →
        c.recent = [])
  | .abort => c.recent = []
  | .retry | .escalate => True

instance (replaced : TickerId → Bool) (c : MarketDataConsumer) :
    ∀ turn, Decidable (Faithful replaced c turn)
  | .live _ => inferInstanceAs (Decidable (_ ∧ _))
  | .snapshot _ => inferInstanceAs (Decidable (_ ∧ _))
  | .replay _ => inferInstanceAs (Decidable (_ ∧ _))
  | .finishReplay => inferInstanceAs (Decidable (_ ∧ _))
  | .abort => inferInstanceAs (Decidable (_ = _))
  | .retry | .escalate => isTrue trivial

/-! ### The invariant -/

/-- The decoder is where a fresh decoder gets with the accepted frames. -/
def Replayable (replaced : TickerId → Bool) (c : MarketDataConsumer) : Prop :=
  ∃ decoder, c.applied.foldlM (ItchDecoder.accept? replaced) {} = some decoder
    ∧ ∀ cell, ItchDecoder.SameCell replaced cell c.decoder decoder

/-- The accepted frames are those delivered, and in a recovery also those accepted since. -/
structure Tracked (replaced : TickerId → Bool) (c : MarketDataConsumer) : Prop where
  replayable : Replayable replaced c
  idle : c.inRecovery = false → SameOrder (Frame.cell replaced) c.applied c.delivered
  recovering : c.inRecovery = true →
    SameOrder (Frame.cell replaced) c.applied (c.delivered ++ c.recent)
      ∨ (c.applied = c.recent ∧ c.recent ≠ [])
  replaying : c.recoveryMode = .replay → c.inRecovery = true ∧ c.snapshotHaveStart = false
    ∧ SameOrder (Frame.cell replaced) c.applied (c.delivered ++ c.recent)
    ∧ ∀ arrival ∈ c.snapshotQueuedUpdates, arrival.update.type ≠ .snapshotStart
  opened : c.snapshotHaveStart = true → c.inRecovery = true ∧ c.applied = c.recent ∧ c.recent ≠ []
    ∧ ∃ opening entries, c.snapshotQueuedUpdates = opening :: entries
      ∧ opening.update.type = .snapshotStart
      ∧ ∀ arrival ∈ entries, arrival.update.type ≠ .snapshotStart
  queued : ∀ (seqNum : SeqNum) (arrival : Arrival), c.incrementalQueuedUpdates[seqNum]? = some arrival →
    arrival.update.type ≠ .snapshotStart

theorem replayable_accepted {kind : FrameKind} {data : List UInt8} (h : Replayable replaced c)
    (haccepted : Accepted c kind data arrival c') (hplain : arrival.frame.Plain replaced) :
    Replayable replaced c' := by
  obtain ⟨decoder, hrun, hsame⟩ := h
  obtain ⟨written, hdecode, rfl⟩ := haccepted.decoded
  have haccept : c.decoder.accept? replaced arrival.frame = some written :=
    ItchDecoder.accept?_eq_some_iff.mpr ⟨hplain, arrival.update, haccepted.frame ▸ hdecode⟩
  obtain ⟨decoder', hstep, hsame'⟩ :=
    (ItchDecoder.accept?_independent replaced).step_same hsame haccept
  refine ⟨decoder', ?_, hsame'⟩
  change (c.applied ++ [arrival.frame]).foldlM _ _ = _
  rw [List.foldlM_append, hrun]
  simpa using hstep

theorem Tracked.resting (h : Tracked replaced c) (size : Nat) (more statusRead : Bool)
    (inbound tcp : List UInt8) : Tracked replaced (c.resting size more statusRead inbound tcp) := by
  obtain ⟨decoder, hrun, hsame⟩ := h.replayable
  refine ⟨⟨decoder, hrun, fun cell => ?_⟩, h.idle, h.recovering, h.replaying, h.opened, h.queued⟩
  have hscratch : (c.resting size more statusRead inbound tcp).decoder.orderRefMap =
      c.decoder.orderRefMap := rfl
  exact (ItchDecoder.sameCell_equivalence replaced cell).trans
    (ItchDecoder.sameCell_of_orderRefMap_eq hscratch cell) (hsame cell)

theorem tracked_start (replaced : TickerId → Bool) : Tracked replaced start where
  replayable := ⟨{}, rfl, ItchDecoder.sameCell_of_orderRefMap_eq rfl⟩
  idle := nofun
  recovering _ := Or.inl (SameOrder.refl _ _)
  replaying := nofun
  opened := nofun
  queued := forall_queued_empty _

theorem Tracked.abort (h : Tracked replaced c) (hrecovery : c.inRecovery = true)
    (hrecent : c.recent = []) : Tracked replaced c.abortSnapshotSync := by
  refine ⟨h.replayable, fun _ => ?_, nofun, nofun, nofun, forall_queued_empty _⟩
  rcases h.recovering hrecovery with horder | ⟨-, hne⟩
  · rw [hrecent, List.append_nil] at horder
    exact horder
  · exact absurd hrecent hne

/-- What a completed recovery takes from its queue opens no snapshot. -/
theorem Tracked.drained (h : Tracked replaced c) {resumeSeq : SeqNum} :
    ∀ arrival ∈ c.drained resumeSeq, arrival.update.type ≠ .snapshotStart := by
  intro arrival hmem
  obtain ⟨⟨seqNum, queued⟩, hqueued, rfl⟩ := List.mem_map.mp hmem
  exact h.queued seqNum queued
    (Std.TreeMap.mem_toList_iff_getElem?_eq_some.mp (List.mem_of_mem_filter hqueued))

theorem Tracked.finishReplay (h : Tracked replaced c) (hmode : c.recoveryMode = .replay)
    (hfaithful : Faithful replaced c .finishReplay) : Tracked replaced c.finishReplaySync := by
  obtain ⟨hrecovery, hclosed, horder, hlist⟩ := h.replaying hmode
  unfold finishReplaySync
  dsimp only
  split
  case h_1 hgap => exact h.abort hrecovery (hfaithful.2 hgap)
  case h_2 expected hcontiguous =>
      have hmore : ∀ arrival ∈ c.snapshotQueuedUpdates ++ c.drained (c.replayLastApplied + 1),
          arrival.update.type ≠ .snapshotStart := fun arrival hmem =>
        (List.mem_append.mp hmem).elim (hlist arrival) (h.drained arrival)
      refine ⟨h.replayable, fun _ => ?_, nofun, nofun, ?_, forall_queued_empty _⟩
      · have hcompletes := hfaithful.1 (by simp [hcontiguous])
        have hdelivered := horder.trans (SameOrder.append (SameOrder.refl _ c.delivered) hcompletes)
        change SameOrder _ c.applied ((sinceStart (c.incomingMdUpdates ++ _)).map Arrival.frame)
        rw [sinceStart_append hmore, List.map_append]
        exact hdelivered
      · intro hstart
        exact absurd hclosed (by simp [show c.snapshotHaveStart = true from hstart])

theorem Tracked.recorded {decoder : ItchDecoder} {frame : Frame} (h : Tracked replaced c)
    (hrecovery : c.inRecovery = true)
    (hreplayable : Replayable replaced ({ c with decoder := decoder }.record frame)) :
    Tracked replaced ({ c with decoder := decoder }.record frame) := by
  have happlied : ({ c with decoder := decoder }.record frame).applied = c.applied ++ [frame] := rfl
  have hrecent : ({ c with decoder := decoder }.record frame).recent = c.recent ++ [frame] :=
    if_pos hrecovery
  have hdelivered : ({ c with decoder := decoder }.record frame).delivered = c.delivered := rfl
  have hextend (horder : SameOrder (Frame.cell replaced) c.applied (c.delivered ++ c.recent)) :
      SameOrder (Frame.cell replaced) (c.applied ++ [frame]) (c.delivered ++ (c.recent ++ [frame])) := by
    rw [← List.append_assoc]
    exact horder.append (SameOrder.refl _ _)
  refine ⟨hreplayable, ?_, ?_, ?_, ?_, h.queued⟩
  · exact fun hidle => absurd hrecovery (by simp [show c.inRecovery = false from hidle])
  · intro _
    rw [happlied, hrecent, hdelivered]
    rcases h.recovering hrecovery with horder | ⟨heq, -⟩
    · exact Or.inl (hextend horder)
    · exact Or.inr ⟨by rw [heq], by simp⟩
  · intro hmode
    rw [happlied, hrecent, hdelivered]
    obtain ⟨_, hclosed, horder, hlist⟩ := h.replaying hmode
    exact ⟨hrecovery, hclosed, hextend horder, hlist⟩
  · intro hstart
    rw [happlied, hrecent]
    obtain ⟨_, heq, -, hlist⟩ := h.opened hstart
    exact ⟨hrecovery, by rw [heq], by simp, hlist⟩

theorem Tracked.queueIncremental (h : Tracked replaced c)
    (htype : arrival.update.type ≠ .snapshotStart) : Tracked replaced (c.queueIncremental arrival) := by
  refine ⟨h.replayable, h.idle, h.recovering, h.replaying, h.opened, fun seqNum other hmem => ?_⟩
  rw [MarketDataConsumer.queueIncremental, Std.TreeMap.getElem?_insert] at hmem
  split at hmem
  case isTrue =>
      obtain rfl := Option.some.inj hmem
      exact htype
  case isFalse => exact h.queued seqNum other hmem

theorem tracked_startSnapshotSync (hreplayable : Replayable replaced c)
    (horder : SameOrder (Frame.cell replaced) c.applied (c.delivered ++ c.recent)) :
    Tracked replaced c.startSnapshotSync where
  replayable := hreplayable
  idle := nofun
  recovering _ := Or.inl horder
  replaying := nofun
  opened := nofun
  queued := forall_queued_empty _

theorem tracked_startReplaySync (hreplayable : Replayable replaced c)
    (horder : SameOrder (Frame.cell replaced) c.applied (c.delivered ++ c.recent))
    (hclosed : c.snapshotHaveStart = false) (clientSeq : SeqNum) :
    Tracked replaced (c.startReplaySync clientSeq true) where
  replayable := hreplayable
  idle := nofun
  recovering _ := Or.inl horder
  replaying _ := ⟨rfl, hclosed, horder, nofun⟩
  opened hstart := absurd hclosed (by simp [show c.snapshotHaveStart = true from hstart])
  queued := forall_queued_empty _

/-- A frame of the feed outside a recovery: it is delivered, or opens a gap. -/
theorem Tracked.live {decoder : ItchDecoder} (h : Tracked replaced c) (hidle : c.inRecovery = false)
    (hfaithful : Faithful replaced c (.live arrival))
    (hreplayable : Replayable replaced ({ c with decoder := decoder }.record arrival.frame)) :
    Tracked replaced
      (({ c with decoder := decoder }.record arrival.frame).processIncremental arrival) := by
  obtain ⟨-, htype, hfresh⟩ := hfaithful
  have hmode : c.recoveryMode ≠ .replay := fun hmode => by
    rw [(h.replaying hmode).1] at hidle
    cases hidle
  have hclosed : c.snapshotHaveStart ≠ true := fun hstart => by
    rw [(h.opened hstart).1] at hidle
    cases hidle
  have happend := (h.idle hidle).append (SameOrder.refl (Frame.cell replaced) [arrival.frame])
  -- the update is delivered
  have hpush : ∀ next, Tracked replaced { ({ c with decoder := decoder }.record arrival.frame).push
      [arrival] with nextExpIncSeqNum := next } := by
    intro next
    refine ⟨hreplayable, fun _ => ?_, ?_, fun hreplay => absurd hreplay hmode,
      fun hstart => absurd hstart hclosed, h.queued⟩
    · change SameOrder _ _ ((sinceStart (c.incomingMdUpdates ++ [arrival])).map Arrival.frame)
      rw [sinceStart_append (by simpa using htype), List.map_append]
      exact happend
    · exact fun hrecovery => absurd hrecovery (by simp [push, record, hidle])
  unfold processIncremental
  dsimp only
  rw [if_neg (by simp [record, hidle])]
  split
  case isTrue => exact hpush _
  case isFalse hne =>
      split
      case isTrue => exact hpush _
      case isFalse hseq =>
          have hgap : c.nextExpIncSeqNum < arrival.update.seqNum :=
            UInt64.lt_of_le_of_ne ((hfresh hidle).resolve_left hne) (Ne.symm hseq)
          refine (if_pos hgap).symm ▸ Tracked.queueIncremental ?_ htype
          have horder : SameOrder (Frame.cell replaced) (c.applied ++ [arrival.frame])
              (c.delivered ++ ({ c with decoder := decoder }.record arrival.frame).recent) := by
            rw [record, if_neg (by simp [hidle])]
            exact happend
          unfold detectGap
          rw [if_neg (by simp [record, hidle])]
          dsimp only
          split
          case isTrue =>
              exact tracked_startReplaySync hreplayable horder (Bool.eq_false_iff.mpr hclosed) _
          case isFalse => exact tracked_startSnapshotSync hreplayable horder

/-- A snapshot that completes: what was accepted since it opened is what it delivers. -/
theorem Tracked.finishSnapshot {decoder : ItchDecoder} (h : Tracked replaced c)
    (hopen : c.snapshotHaveStart = true) (hmode : c.recoveryMode ≠ .replay)
    (hend : arrival.update.type = .snapshotEnd)
    (hreplayable : Replayable replaced ({ c with decoder := decoder }.record arrival.frame))
    (hcompletes : CompletesInOrder replaced { c with
      recent := c.recent ++ [arrival.frame]
      snapshotQueuedUpdates := c.snapshotQueuedUpdates ++ [arrival] } (arrival.update.orderRef + 1)) :
    Tracked replaced (finishSnapshotSync { { c with decoder := decoder }.record arrival.frame with
      snapshotQueuedUpdates := c.snapshotQueuedUpdates ++ [arrival]
      snapshotHaveStart := false } (arrival.update.orderRef + 1)) := by
  obtain ⟨hrecovery, heq, -, opening, entries, hlist, hopening, hentries⟩ := h.opened hopen
  have hrecent : ({ c with decoder := decoder }.record arrival.frame).recent =
      c.recent ++ [arrival.frame] := if_pos hrecovery
  have happlied : ({ c with decoder := decoder }.record arrival.frame).applied =
      c.recent ++ [arrival.frame] := congrArg (· ++ [arrival.frame]) heq
  unfold finishSnapshotSync
  split
  case h_1 =>
      refine ⟨hreplayable, ?_, fun _ => Or.inr ⟨happlied.trans hrecent.symm, ?_⟩,
        fun hreplay => absurd hreplay hmode, nofun, h.queued⟩
      · exact fun hidle => absurd hrecovery (by simp [show c.inRecovery = false from hidle])
      · change ({ c with decoder := decoder }.record arrival.frame).recent ≠ []
        simp [hrecent]
  case h_2 expected hcontiguous =>
      have horder := hcompletes (by simp [show contiguous _ c.incrementalQueuedUpdates.toList = _ from hcontiguous])
      refine ⟨hreplayable, fun _ => ?_, nofun, nofun, nofun, forall_queued_empty _⟩
      · have hmore : ∀ other ∈ entries ++ [arrival] ++ c.drained (arrival.update.orderRef + 1),
            other.update.type ≠ .snapshotStart := by
          intro other hmem
          rcases List.mem_append.mp hmem with hmem | hmem
          · rcases List.mem_append.mp hmem with hmem | hmem
            · exact hentries other hmem
            · rw [List.mem_singleton.mp hmem, hend]
              decide
          · exact h.drained other hmem
        have hsplit : c.snapshotQueuedUpdates ++ [arrival] ++ c.drained (arrival.update.orderRef + 1) =
            opening :: (entries ++ [arrival] ++ c.drained (arrival.update.orderRef + 1)) := by
          rw [hlist]
          rfl
        change SameOrder _ (({ c with decoder := decoder }.record arrival.frame).applied)
          ((sinceStart (c.incomingMdUpdates ++ (c.snapshotQueuedUpdates ++ [arrival]
            ++ c.drained (arrival.update.orderRef + 1)))).map Arrival.frame)
        rw [happlied, hsplit, sinceStart_start hopening hmore, ← hsplit]
        exact horder

theorem Tracked.processSnapshot {data : List UInt8} (h : Tracked replaced c)
    (hmode : c.recoveryMode ≠ .replay) (haccepted : Accepted c .snapshot data arrival c')
    (hfaithful : Faithful replaced c (.snapshot arrival)) :
    Tracked replaced (c'.processSnapshot arrival) := by
  obtain ⟨hplain, hrecovery, hcompletes⟩ := hfaithful
  have hreplayable := replayable_accepted h.replayable haccepted hplain
  have hkind := haccepted.frame
  obtain ⟨decoder, hdecode, rfl⟩ := haccepted.decoded
  have hrecorded := h.recorded hrecovery hreplayable
  unfold MarketDataConsumer.processSnapshot
  rw [if_neg (by simp [record, hrecovery])]
  split
  case isTrue hstart =>
      obtain ⟨opened, haccept, hempty⟩ : ∃ opened,
          ItchDecoder.accept? replaced {} arrival.frame = some opened ∧ opened.orderRefMap = {} :=
        ItchDecoder.accept?_snapshotStart (hkind.symm ▸ hdecode) hstart
      refine ⟨⟨opened, ?_, ItchDecoder.sameCell_of_orderRefMap_eq hempty.symm⟩, ?_, ?_, ?_, ?_, h.queued⟩
      · simpa using haccept
      · exact fun hidle => absurd hrecovery (by simp [show c.inRecovery = false from hidle])
      · exact fun _ => Or.inr ⟨rfl, by simp⟩
      · exact fun hreplay => absurd hreplay hmode
      · exact fun _ => ⟨hrecovery, rfl, by simp, arrival, [], rfl, hstart, by simp⟩
  case isFalse hstart =>
      split
      case isTrue => exact hrecorded
      case isFalse hopen =>
          have hopen : c.snapshotHaveStart = true := by simpa [record] using hopen
          dsimp only
          split
          case isTrue hend =>
              exact h.finishSnapshot hopen hmode hend hreplayable (hcompletes hend hopen)
          case isFalse =>
              obtain ⟨-, heq, hne, opening, entries, hlist, hopening, hentries⟩ := hrecorded.opened hopen
              refine ⟨hreplayable, hrecorded.idle, hrecorded.recovering,
                fun hreplay => absurd hreplay hmode, fun _ => ⟨hrecovery, heq, hne, ?_⟩, h.queued⟩
              refine ⟨opening, entries ++ [arrival], congrArg (· ++ [arrival]) hlist, hopening, ?_⟩
              intro other hmem
              rcases List.mem_append.mp hmem with hmem | hmem
              · exact hentries other hmem
              · rw [List.mem_singleton.mp hmem]
                exact hstart

theorem Tracked.replay {data : List UInt8} (h : Tracked replaced c)
    (hmode : c.recoveryMode = .replay) (haccepted : Accepted c .feed data arrival c')
    (hfaithful : Faithful replaced c (.replay arrival)) :
    Tracked replaced { c' with
      replayLastApplied := arrival.update.seqNum
      snapshotQueuedUpdates := c'.snapshotQueuedUpdates ++ [arrival] } := by
  obtain ⟨hplain, htype, -⟩ := hfaithful
  have hreplayable := replayable_accepted h.replayable haccepted hplain
  obtain ⟨hrecovery, hclosed, -, hlist⟩ := h.replaying hmode
  obtain ⟨decoder, -, rfl⟩ := haccepted.decoded
  have hrecorded := h.recorded hrecovery hreplayable
  refine ⟨hreplayable, hrecorded.idle, hrecorded.recovering, fun _ => ?_, ?_, h.queued⟩
  · refine ⟨hrecovery, hclosed, (hrecorded.replaying hmode).2.2.1, fun other hmem => ?_⟩
    rcases List.mem_append.mp hmem with hmem | hmem
    · exact hlist other hmem
    · rw [List.mem_singleton.mp hmem]
      exact htype
  · exact fun hstart => absurd hclosed (by simp [show c.snapshotHaveStart = true from hstart])

/-- **Every turn** that is faithful keeps the decoder with the delivered stream. -/
theorem tracked_takes (c : MarketDataConsumer) (turn : Turn) (c' : MarketDataConsumer)
    (h : Tracked replaced c) (hfaithful : Faithful replaced c turn) (htakes : Takes c turn c') :
    Tracked replaced c' := by
  cases htakes with
  | live haccepted =>
      have hreplayable := replayable_accepted h.replayable haccepted hfaithful.1
      obtain ⟨decoder, -, rfl⟩ := haccepted.decoded
      by_cases hrecovery : c.inRecovery = true
      · unfold processIncremental
        dsimp only
        rw [if_pos (by simp [record, hrecovery])]
        exact (h.recorded hrecovery hreplayable).queueIncremental hfaithful.2.1
      · exact h.live (Bool.eq_false_iff.mpr hrecovery) hfaithful hreplayable
  | snapshot hmode haccepted => exact h.processSnapshot hmode haccepted hfaithful
  | replay hmode _ haccepted _ => exact h.replay hmode haccepted hfaithful
  | disordered _ _ _ hseq => exact absurd hfaithful.2.2 hseq
  | finishReplay hmode => exact h.finishReplay hmode hfaithful
  | current hmode =>
      have hclosed : Tracked replaced c.closeSocket :=
        ⟨h.replayable, h.idle, h.recovering, h.replaying, h.opened, h.queued⟩
      exact hclosed.finishReplay hmode hfaithful
  | retry hmode =>
      obtain ⟨-, hclosed, horder, hlist⟩ := h.replaying hmode
      exact ⟨h.replayable, nofun, fun _ => Or.inl horder, fun _ => ⟨rfl, hclosed, horder, hlist⟩,
        fun hstart => absurd hclosed (by simp [show c.snapshotHaveStart = true from hstart]), h.queued⟩
  | escalate hmode =>
      have hreplayable : Replayable replaced c.closeSocket := h.replayable
      exact tracked_startSnapshotSync hreplayable (h.replaying hmode).2.2.1
  | abort hrecovery => exact h.abort hrecovery hfaithful

/-- **The decoder follows the delivered stream** in every faithful run. -/
theorem decoder_follows_delivered (replaced : TickerId → Bool) (events : List Event)
    (c : MarketDataConsumer)
    (hfaithful : Run.Along step (Guarded (Faithful replaced)) start events)
    (hrun : events.foldlM step start = some c) (hidle : c.inRecovery = false) :
    ∃ decoder, redecode c.delivered = some decoder
      ∧ ∀ ticker ref, c.decoder.live? ticker ref = decoder.live? ticker ref := by
  have htracked : Tracked replaced c :=
    Run.invariant (invariant_step (fun _ _ _ _ _ _ h => h.resting ..) tracked_takes)
      (tracked_start replaced) hfaithful hrun
  obtain ⟨applied, happlied, hsame⟩ := htracked.replayable
  have hindependent := ItchDecoder.accept?_independent replaced
  obtain ⟨decoder, hdelivered, hsame'⟩ := hindependent.foldlM_sameOrder (htracked.idle hidle)
    (fun cell => (hindependent.equivalence cell).refl _) happlied
  refine ⟨decoder, ItchDecoder.redecode_of_accept? hdelivered, ?_⟩
  exact ItchDecoder.live?_eq_of_sameCell fun cell =>
    (hindependent.equivalence cell).trans (hsame cell) (hsame' cell)

/-- The frame behind the gap is about another order than the one the replay brings. -/
def reorderedRun : List Event :=
  [reads (emptySnapshot 0), .datagram (feedFrame 1 (addMsg 5 10)),
    .datagram (feedFrame 3 (addMsg 6 10)), reads (82 :: feedFrame 2 (executeMsg 5 4)), reads []]

theorem decoder_follows_delivered_reorderedRun :
    ∃ c, reorderedRun.foldlM step start = some c ∧ c.inRecovery = false
      ∧ c.delivered.length = 5 ∧ ∃ decoder, redecode c.delivered = some decoder
        ∧ ∀ ticker ref, c.decoder.live? ticker ref = decoder.live? ticker ref := by
  have hrun : (reorderedRun.foldlM step start).any (fun c =>
      !c.inRecovery && c.delivered.length = 5) = true := by
    decide +kernel
  obtain ⟨c, hrun, hcheck⟩ := (Option.any_eq_true _ _).mp hrun
  obtain ⟨hidle, hlength⟩ := by simpa using hcheck
  exact ⟨c, hrun, hidle, hlength,
    decoder_follows_delivered (fun _ => false) reorderedRun c (by decide +kernel) hrun hidle⟩

/-- An execution arrives twice. -/
def duplicatedRun : List Event :=
  [reads (emptySnapshot 0), .datagram (feedFrame 1 (addMsg 5 10)),
    .datagram (feedFrame 2 (executeMsg 5 4)), .datagram (feedFrame 2 (executeMsg 5 4))]

/-- The duplicate is not delivered, but the decoder has taken it off the order. -/
theorem duplicatedRun_diverges :
    ∃ c decoder, duplicatedRun.foldlM step start = some c ∧ c.inRecovery = false
      ∧ redecode c.delivered = some decoder
      ∧ (c.decoder.live? 7 5).map OrderState.qty = some 2
      ∧ (decoder.live? 7 5).map OrderState.qty = some 6 := by
  have hrun : (duplicatedRun.foldlM step start).any (fun c => !c.inRecovery
      && (c.decoder.live? 7 5).map OrderState.qty = some 2
      && (redecode c.delivered).any fun decoder =>
        (decoder.live? 7 5).map OrderState.qty = some 6) = true := by
    decide +kernel
  obtain ⟨c, hrun, hcheck⟩ := (Option.any_eq_true _ _).mp hrun
  simp only [Bool.and_eq_true, Bool.not_eq_true', decide_eq_true_eq] at hcheck
  obtain ⟨⟨hidle, hlive⟩, hredecode⟩ := hcheck
  obtain ⟨decoder, hredecode, hlive'⟩ := (Option.any_eq_true _ _).mp hredecode
  exact ⟨c, decoder, hrun, hidle, hredecode, hlive, by simpa using hlive'⟩

end MarketDataConsumer

end AlphaTrader
