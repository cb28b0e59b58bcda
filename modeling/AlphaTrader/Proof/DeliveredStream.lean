import AlphaTrader.Proof.ConsumerSpec
import AlphaTrader.Library.Run

/-!
# The delivered stream has no gaps and no duplicates

What the trading thread receives splits into segments. A segment is a snapshot and the increments
behind it, in sequence; only the first segment may lack the snapshot. The consumer expects the
sequence number behind the last segment, whatever mix of live, queued, replayed and snapshot frames
has led there.
-/

namespace AlphaTrader

/-! ### Segments -/

/-- Frames of the feed that carry the sequence numbers from `first` on. -/
structure Numbered (first : Nat) (updates : List Arrival) : Prop where
  seqNums : updates.map (fun arrival => arrival.update.seqNum.toNat) =
    List.range' first updates.length
  feed : ∀ arrival ∈ updates, arrival.frame.kind = .feed

theorem numbered_nil (first : Nat) : Numbered first [] := ⟨rfl, by simp⟩

theorem numbered_singleton {arrival : Arrival} (hfeed : arrival.frame.kind = .feed) :
    Numbered arrival.update.seqNum.toNat [arrival] :=
  ⟨rfl, by simpa using hfeed⟩

theorem Numbered.append {first : Nat} {updates more : List Arrival} (hupdates : Numbered first updates)
    (hmore : Numbered (first + updates.length) more) : Numbered first (updates ++ more) where
  seqNums := by
    rw [List.map_append, hupdates.seqNums, hmore.seqNums, List.length_append, List.range'_append_1]
  feed arrival hmem := (List.mem_append.mp hmem).elim (hupdates.feed arrival) (hmore.feed arrival)

/-- Entries of a snapshot: frames of a snapshot that neither open nor close one. -/
def Entries (updates : List Arrival) : Prop :=
  ∀ arrival ∈ updates, arrival.frame.kind = .snapshot ∧ arrival.update.type ≠ .snapshotStart
    ∧ arrival.update.type ≠ .snapshotEnd

/-- A snapshot that has not been closed. -/
def OpenSnapshot (updates : List Arrival) : Prop :=
  ∃ opening entries, updates = opening :: entries ∧ opening.frame.kind = .snapshot
    ∧ opening.update.type = .snapshotStart ∧ Entries entries

/-- A complete snapshot, up to the sequence number `last`. -/
def IsSnapshot (last : SeqNum) (updates : List Arrival) : Prop :=
  ∃ opening entries closing, updates = opening :: (entries ++ [closing])
    ∧ opening.frame.kind = .snapshot ∧ opening.update.type = .snapshotStart
    ∧ Entries entries
    ∧ closing.frame.kind = .snapshot ∧ closing.update.type = .snapshotEnd
    ∧ closing.update.orderRef = last

theorem IsSnapshot.ne_nil {last : SeqNum} {updates : List Arrival} (h : IsSnapshot last updates) :
    updates ≠ [] := by
  obtain ⟨opening, entries, closing, rfl, -⟩ := h
  exact List.cons_ne_nil _ _

theorem OpenSnapshot.close {updates : List Arrival} {closing : Arrival} (hopen : OpenSnapshot updates)
    (hkind : closing.frame.kind = .snapshot) (htype : closing.update.type = .snapshotEnd) :
    IsSnapshot closing.update.orderRef (updates ++ [closing]) := by
  obtain ⟨opening, entries, rfl, hopening, hstart, hentries⟩ := hopen
  exact ⟨opening, entries, closing, rfl, hopening, hstart, hentries, hkind, htype, rfl⟩

theorem OpenSnapshot.push {updates : List Arrival} {entry : Arrival} (hopen : OpenSnapshot updates)
    (hentry : entry.frame.kind = .snapshot ∧ entry.update.type ≠ .snapshotStart
      ∧ entry.update.type ≠ .snapshotEnd) : OpenSnapshot (updates ++ [entry]) := by
  obtain ⟨opening, entries, rfl, hopening, hstart, hentries⟩ := hopen
  refine ⟨opening, entries ++ [entry], rfl, hopening, hstart, fun arrival hmem => ?_⟩
  rcases List.mem_append.mp hmem with hmem | hmem
  · exact hentries arrival hmem
  · rw [List.mem_singleton.mp hmem]
    exact hentry

/-- A snapshot and the increments from the sequence number behind it on; without a snapshot the
increments may start anywhere. -/
structure Segment where
  snapshot : List Arrival
  first : Nat
  increments : List Arrival
  opens : snapshot = [] ∨ ∃ last, IsSnapshot last snapshot ∧ first = last.toNat + 1
  numbered : Numbered first increments

namespace Segment

def updates (segment : Segment) : List Arrival := segment.snapshot ++ segment.increments

/-- One past the last sequence number covered. -/
def next (segment : Segment) : Nat := segment.first + segment.increments.length

theorem next_pos {segment : Segment} (hne : segment.updates ≠ []) : 0 < segment.next := by
  unfold next
  rcases segment.opens with hnil | ⟨last, -, hfirst⟩
  · have hincrements : segment.increments ≠ [] := by simpa [updates, hnil] using hne
    have := List.length_pos_iff.mpr hincrements
    omega
  · omega

end Segment

/-- The updates split into segments, and `next` is what is expected behind them. -/
def Segmented (updates : List Arrival) (next : Nat) : Prop :=
  ∃ (earlier : List Segment) (current : Segment),
    updates = earlier.flatMap Segment.updates ++ current.updates
      ∧ (∀ segment ∈ (earlier ++ [current]).tail, segment.snapshot ≠ [])
      ∧ (current.updates ≠ [] → next = current.next) ∧ (current.updates = [] → next = 0)

namespace Segmented

variable {updates more snapshot : List Arrival} {next : Nat} {last : SeqNum}

theorem nil : Segmented [] 0 :=
  ⟨[], ⟨[], 0, [], Or.inl rfl, numbered_nil 0⟩, rfl, by simp, by simp [Segment.updates], fun _ => rfl⟩

theorem eq_nil (h : Segmented updates 0) : updates = [] := by
  obtain ⟨earlier, current, rfl, hsnapshots, hnext, -⟩ := h
  have hcurrent : current.updates = [] := by
    by_contra hne
    have := Segment.next_pos hne
    have := hnext hne
    omega
  cases earlier with
  | nil => simpa using hcurrent
  | cons first rest =>
      have hsnapshot : current.snapshot ≠ [] := hsnapshots current (by simp)
      exact absurd (List.append_eq_nil_iff.mp hcurrent).1 hsnapshot

theorem baseline (h : Segmented updates 0) {arrival : Arrival} (hfeed : arrival.frame.kind = .feed) :
    Segmented (updates ++ [arrival]) (arrival.update.seqNum.toNat + 1) := by
  rw [h.eq_nil]
  exact ⟨[], ⟨[], _, [arrival], Or.inl rfl, numbered_singleton hfeed⟩, rfl, by simp, fun _ => rfl,
    by simp [Segment.updates]⟩

theorem append (h : Segmented updates next) (hnext : next ≠ 0) (hmore : Numbered next more) :
    Segmented (updates ++ more) (next + more.length) := by
  obtain ⟨earlier, current, rfl, hsnapshots, heq, hzero⟩ := h
  have hcurrent : current.updates ≠ [] := fun hnil => hnext (hzero hnil)
  obtain rfl := heq hcurrent
  refine ⟨earlier, { current with
    increments := current.increments ++ more, numbered := current.numbered.append hmore }, ?_, ?_, ?_, ?_⟩
  · simp [Segment.updates]
  · intro segment hmem
    cases earlier with
    | nil => cases hmem
    | cons first rest =>
        rcases List.mem_append.mp hmem with hmem | hmem
        · exact hsnapshots segment (List.mem_append_left _ hmem)
        · rw [List.mem_singleton.mp hmem]
          exact hsnapshots current (by simp)
  · simp [Segment.next, Nat.add_assoc]
  · intro hnil
    refine absurd ?_ hcurrent
    simp only [Segment.updates, List.append_eq_nil_iff] at hnil ⊢
    exact ⟨hnil.1, hnil.2.1⟩

theorem resync (h : Segmented updates next) (hsnapshot : IsSnapshot last snapshot)
    (hmore : Numbered (last.toNat + 1) more) :
    Segmented (updates ++ (snapshot ++ more)) (last.toNat + 1 + more.length) := by
  obtain ⟨earlier, current, rfl, hsnapshots, -, -⟩ := h
  let segment : Segment := ⟨snapshot, _, more, Or.inr ⟨last, hsnapshot, rfl⟩, hmore⟩
  refine ⟨earlier ++ [current], segment, ?_, ?_, fun _ => rfl, ?_⟩
  · simp [Segment.updates, segment]
  · intro other hmem
    rw [List.tail_append_of_ne_nil (by simp)] at hmem
    rcases List.mem_append.mp hmem with hmem | hmem
    · exact hsnapshots other hmem
    · rw [List.mem_singleton.mp hmem]
      exact hsnapshot.ne_nil
  · intro hnil
    exact absurd (List.append_eq_nil_iff.mp hnil).1 hsnapshot.ne_nil

end Segmented

/-! ### The queue of a recovery -/

theorem toNat_succ {n : UInt64} (hlt : n.toNat + 1 < 2 ^ 64) : (n + 1).toNat = n.toNat + 1 := by
  rw [UInt64.toNat_add]
  simp only [UInt64.reduceToNat]
  omega

/-- A queued update stands under its sequence number. -/
def Queued (entry : SeqNum × Arrival) : Prop :=
  entry.2.update.seqNum = entry.1 ∧ entry.2.frame.kind = .feed ∧ entry.1.toNat + 1 < 2 ^ 64

namespace MarketDataConsumer

variable {c c' : MarketDataConsumer} {arrival : Arrival}

theorem toNat_succ_of_lt {seqNum seq : SeqNum} (hlt : seqNum < seq) :
    (seqNum + 1).toNat = seqNum.toNat + 1 := by
  have hbound := seq.toNat_lt
  rw [UInt64.lt_iff_toNat_lt] at hlt
  exact toNat_succ (by omega)

/-- Behind the first number of a sorted queue every number is larger. -/
theorem filter_next {seqNum : SeqNum} {rest : List (SeqNum × Arrival)}
    (hbelow : ∀ queued ∈ rest, seqNum < queued.1) :
    (rest.filter fun queued => ¬ queued.1 < seqNum) =
      rest.filter fun queued => ¬ queued.1 < seqNum + 1 := by
  refine List.filter_congr fun queued hmem => ?_
  have hgt := hbelow queued hmem
  have hsucc := toNat_succ_of_lt hgt
  rw [UInt64.lt_iff_toNat_lt] at hgt
  simp only [UInt64.lt_iff_toNat_lt, decide_eq_decide]
  omega

theorem numbered_of_contiguous {entries : List (SeqNum × Arrival)} {expected stop : SeqNum}
    (hsorted : entries.Pairwise fun a b => a.1 < b.1) (hqueued : ∀ entry ∈ entries, Queued entry)
    (hcontiguous : contiguous expected entries = some stop) :
    let taken := (entries.filter fun queued => ¬ queued.1 < expected).map Prod.snd
    Numbered expected.toNat taken ∧ stop.toNat = expected.toNat + taken.length := by
  induction entries generalizing expected with
  | nil =>
      obtain rfl := Option.some.inj hcontiguous
      exact ⟨numbered_nil _, rfl⟩
  | cons entry rest ih =>
      obtain ⟨seqNum, arrival⟩ := entry
      obtain ⟨hbelow, hsorted⟩ := List.pairwise_cons.mp hsorted
      obtain ⟨⟨hseq, hfeed, hlt⟩, hqueued⟩ := List.forall_mem_cons.mp hqueued
      simp only at hseq hfeed hlt hbelow
      unfold contiguous at hcontiguous
      split at hcontiguous
      case isTrue hold =>
          rw [List.filter_cons_of_neg (by simpa using hold)]
          exact ih hsorted hqueued hcontiguous
      case isFalse hnew =>
          split at hcontiguous
          case isTrue => cases hcontiguous
          case isFalse heq =>
              obtain rfl := not_not.mp heq
              obtain ⟨hnumbered, hstop⟩ := ih hsorted hqueued hcontiguous
              rw [toNat_succ hlt] at hnumbered hstop
              rw [List.filter_cons_of_pos (by simp), List.map_cons, filter_next hbelow]
              have hhead : Numbered seqNum.toNat [arrival] := hseq ▸ numbered_singleton hfeed
              refine ⟨hhead.append hnumbered, ?_⟩
              rw [hstop, List.length_cons]
              omega

theorem sorted_toList (queue : Std.TreeMap SeqNum Arrival) :
    queue.toList.Pairwise fun a b => a.1 < b.1 := by
  have hordered := queue.ordered_keys
  rw [← Std.TreeMap.map_fst_toList_eq_keys, List.pairwise_map] at hordered
  exact hordered.imp fun hlt => Std.compare_eq_lt.mp hlt

/-! ### The invariant -/

/-- Sequence numbers and the references that close a snapshot are below the largest number. -/
def InRange (_ : MarketDataConsumer) : Turn → Prop
  | .live arrival | .snapshot arrival | .replay arrival =>
      arrival.update.seqNum.toNat < 2 ^ 64 - 1
        ∧ (arrival.update.type = .snapshotEnd → arrival.update.orderRef.toNat < 2 ^ 64 - 1)
  | .finishReplay | .retry | .escalate | .abort => True

instance (c : MarketDataConsumer) : ∀ turn, Decidable (InRange c turn)
  | .live _ | .snapshot _ | .replay _ => inferInstanceAs (Decidable (_ ∧ _))
  | .finishReplay | .retry | .escalate | .abort => isTrue trivial

/-- The stream is in segments, and so is what a recovery is about to add to it. -/
structure Ordered (c : MarketDataConsumer) : Prop where
  segmented : Segmented c.incomingMdUpdates c.nextExpIncSeqNum.toNat
  queued : ∀ seqNum arrival, c.incrementalQueuedUpdates[seqNum]? = some arrival →
    Queued (seqNum, arrival)
  replayed : c.recoveryMode = .replay → c.inRecovery = true ∧ c.nextExpIncSeqNum ≠ 0
    ∧ Numbered c.nextExpIncSeqNum.toNat c.snapshotQueuedUpdates
    ∧ (c.replayLastApplied + 1).toNat = c.nextExpIncSeqNum.toNat + c.snapshotQueuedUpdates.length
  opened : c.snapshotHaveStart = true → c.inRecovery = true ∧ c.recoveryMode ≠ .replay
    ∧ OpenSnapshot c.snapshotQueuedUpdates

theorem ordered_start : Ordered start where
  segmented := .nil
  queued := forall_queued_empty _
  replayed hmode := by cases hmode
  opened hstart := by cases hstart

theorem Ordered.resting (h : Ordered c) (size : Nat) (more statusRead : Bool)
    (inbound tcp : List UInt8) : Ordered (c.resting size more statusRead inbound tcp) :=
  ⟨h.segmented, h.queued, h.replayed, h.opened⟩

theorem Ordered.accepted {kind : FrameKind} {data : List UInt8} (h : Ordered c)
    (haccepted : Accepted c kind data arrival c') : Ordered c' := by
  obtain ⟨decoder, -, rfl⟩ := haccepted.decoded
  exact ⟨h.segmented, h.queued, h.replayed, h.opened⟩

theorem Ordered.closeSocket (h : Ordered c) : Ordered c.closeSocket :=
  ⟨h.segmented, h.queued, h.replayed, h.opened⟩

theorem Ordered.abortSnapshotSync (h : Ordered c) : Ordered c.abortSnapshotSync where
  segmented := h.segmented
  queued := forall_queued_empty _
  replayed hmode := by cases hmode
  opened hstart := by cases hstart

theorem Ordered.startSnapshotSync (h : Ordered c) : Ordered c.startSnapshotSync where
  segmented := h.segmented
  queued := forall_queued_empty _
  replayed hmode := by cases hmode
  opened hstart := by cases hstart

theorem Ordered.retry (h : Ordered c) (hmode : c.recoveryMode = .replay) :
    Ordered (c.closeSocket.startReplaySync c.replayLastApplied false) where
  segmented := h.segmented
  queued := h.queued
  replayed _ := ⟨rfl, (h.replayed hmode).2⟩
  opened hstart := absurd hmode (h.opened hstart).2.1

theorem Ordered.drained (h : Ordered c) {resumeSeq expected : SeqNum}
    (hcontiguous : contiguous resumeSeq c.incrementalQueuedUpdates.toList = some expected) :
    Numbered resumeSeq.toNat (c.drained resumeSeq)
      ∧ expected.toNat = resumeSeq.toNat + (c.drained resumeSeq).length :=
  numbered_of_contiguous (sorted_toList _)
    (fun _ hmem => h.queued _ _ (Std.TreeMap.mem_toList_iff_getElem?_eq_some.mp hmem)) hcontiguous

theorem Ordered.finishReplaySync (h : Ordered c) (hmode : c.recoveryMode = .replay) :
    Ordered c.finishReplaySync := by
  obtain ⟨hrecovery, hne, hnumbered, hresume⟩ := h.replayed hmode
  unfold MarketDataConsumer.finishReplaySync
  dsimp only
  split
  case h_1 => exact h.abortSnapshotSync
  case h_2 expected hcontiguous =>
      obtain ⟨hdrained, hexpected⟩ := h.drained hcontiguous
      rw [hresume] at hdrained hexpected
      have hpos : c.nextExpIncSeqNum.toNat ≠ 0 := fun hzero => hne (UInt64.toNat_inj.mp hzero)
      refine ⟨?_, forall_queued_empty _, nofun, fun hstart => ?_⟩
      · have hsegmented := h.segmented.append hpos (hnumbered.append hdrained)
        rw [List.length_append, ← Nat.add_assoc, ← hexpected] at hsegmented
        exact hsegmented
      · exact absurd hmode (h.opened hstart).2.1

theorem Ordered.queueIncremental (h : Ordered c) (hfeed : arrival.frame.kind = .feed)
    (hlt : arrival.update.seqNum.toNat + 1 < 2 ^ 64) : Ordered (c.queueIncremental arrival) where
  segmented := h.segmented
  queued := by
    intro seqNum other hmem
    rw [MarketDataConsumer.queueIncremental, Std.TreeMap.getElem?_insert] at hmem
    split at hmem
    case isTrue heq =>
        obtain rfl := Option.some.inj hmem
        obtain rfl := Std.LawfulEqCmp.eq_of_compare heq
        exact ⟨rfl, hfeed, hlt⟩
    case isFalse => exact h.queued _ _ hmem
  replayed := h.replayed
  opened := h.opened

theorem Ordered.idle (h : Ordered c) (hidle : c.inRecovery = false) :
    c.recoveryMode ≠ .replay ∧ c.snapshotHaveStart ≠ true := by
  have hidle := Bool.eq_false_iff.mp hidle
  exact ⟨fun hmode => hidle (h.replayed hmode).1, fun hstart => hidle (h.opened hstart).1⟩

theorem Ordered.detectGap (h : Ordered c) (hidle : c.inRecovery = false)
    (hne : c.nextExpIncSeqNum ≠ 0) (receivedSeq : SeqNum) : Ordered (c.detectGap receivedSeq) := by
  obtain ⟨-, hclosed⟩ := h.idle hidle
  unfold MarketDataConsumer.detectGap
  rw [if_neg (by simp [hidle])]
  dsimp only
  split
  case isTrue =>
      refine ⟨h.segmented, forall_queued_empty _, fun _ => ⟨rfl, hne, numbered_nil _, ?_⟩,
        fun hstart => absurd hstart hclosed⟩
      change (c.nextExpIncSeqNum - 1 + 1).toNat = c.nextExpIncSeqNum.toNat + 0
      simp
  case isFalse => exact h.startSnapshotSync

theorem Ordered.processIncremental (h : Ordered c) (hfeed : arrival.frame.kind = .feed)
    (hlt : arrival.update.seqNum.toNat + 1 < 2 ^ 64) : Ordered (c.processIncremental arrival) := by
  unfold MarketDataConsumer.processIncremental
  dsimp only
  split
  case isTrue => exact h.queueIncremental hfeed hlt
  case isFalse hidle =>
      have hidle : c.inRecovery = false := Bool.eq_false_iff.mpr hidle
      obtain ⟨hmode, hclosed⟩ := h.idle hidle
      split
      case isTrue hzero =>
          have hsegmented := h.segmented
          rw [hzero] at hsegmented
          refine ⟨?_, h.queued, fun heq => absurd heq hmode, fun heq => absurd heq hclosed⟩
          change Segmented _ (arrival.update.seqNum + 1).toNat
          rw [toNat_succ hlt]
          exact hsegmented.baseline hfeed
      case isFalse hne =>
          split
          case isTrue heq =>
              refine ⟨?_, h.queued, fun heq => absurd heq hmode, fun heq => absurd heq hclosed⟩
              have hpos : c.nextExpIncSeqNum.toNat ≠ 0 := fun hzero => hne (UInt64.toNat_inj.mp hzero)
              change Segmented _ (c.nextExpIncSeqNum + 1).toNat
              rw [toNat_succ (heq ▸ hlt)]
              exact h.segmented.append hpos (heq ▸ numbered_singleton hfeed)
          case isFalse =>
              split
              case isTrue => exact (h.detectGap hidle hne _).queueIncremental hfeed hlt
              case isFalse => exact h

theorem Ordered.processSnapshot (h : Ordered c) (hmode : c.recoveryMode ≠ .replay)
    (hkind : arrival.frame.kind = .snapshot)
    (hend : arrival.update.type = .snapshotEnd → arrival.update.orderRef.toNat + 1 < 2 ^ 64) :
    Ordered (c.processSnapshot arrival) := by
  unfold MarketDataConsumer.processSnapshot
  split
  case isTrue => exact h
  case isFalse hrecovery =>
      have hrecovery : c.inRecovery = true := by simpa using hrecovery
      split
      case isTrue hstart =>
          refine ⟨h.segmented, h.queued, fun heq => absurd heq hmode, fun _ => ⟨hrecovery, hmode, ?_⟩⟩
          exact ⟨arrival, [], rfl, hkind, hstart, by simp [Entries]⟩
      case isFalse hstart =>
          split
          case isTrue => exact h
          case isFalse hopen =>
              have hopen := (h.opened (by simpa using hopen)).2.2
              dsimp only
              split
              case isFalse hclose =>
                  exact ⟨h.segmented, h.queued, fun heq => absurd heq hmode,
                    fun _ => ⟨hrecovery, hmode, hopen.push ⟨hkind, hstart, hclose⟩⟩⟩
              case isTrue hclose =>
                  have hsnapshot := hopen.close hkind hclose
                  unfold finishSnapshotSync
                  split
                  case h_1 => exact ⟨h.segmented, h.queued, fun heq => absurd heq hmode, nofun⟩
                  case h_2 expected hcontiguous =>
                      obtain ⟨hdrained, hexpected⟩ := h.drained hcontiguous
                      rw [toNat_succ (hend hclose)] at hdrained hexpected
                      refine ⟨?_, forall_queued_empty _, nofun, nofun⟩
                      have hsegmented := h.segmented.resync hsnapshot hdrained
                      rw [← hexpected] at hsegmented
                      exact hsegmented

theorem Ordered.replay (h : Ordered c) (hmode : c.recoveryMode = .replay)
    (hfeed : arrival.frame.kind = .feed) (hlt : arrival.update.seqNum.toNat + 1 < 2 ^ 64)
    (hseq : arrival.update.seqNum = c.replayLastApplied + 1) :
    Ordered { c with
      replayLastApplied := arrival.update.seqNum
      snapshotQueuedUpdates := c.snapshotQueuedUpdates ++ [arrival] } := by
  obtain ⟨hrecovery, hne, hnumbered, hresume⟩ := h.replayed hmode
  refine ⟨h.segmented, h.queued, fun _ => ⟨hrecovery, hne, ?_, ?_⟩, fun hstart => ?_⟩
  · rw [← hseq] at hresume
    exact hnumbered.append (hresume ▸ numbered_singleton hfeed)
  · rw [toNat_succ hlt, List.length_append, List.length_singleton, ← Nat.add_assoc, ← hresume, hseq]
  · exact absurd hmode (h.opened hstart).2.1

/-- **Every turn** keeps the stream in segments. -/
theorem ordered_takes (c : MarketDataConsumer) (turn : Turn) (c' : MarketDataConsumer) (h : Ordered c)
    (hrange : InRange c turn) (htakes : Takes c turn c') : Ordered c' := by
  cases htakes with
  | live haccepted =>
      exact (h.accepted haccepted).processIncremental haccepted.frame (by have := hrange.1; omega)
  | snapshot hmode haccepted =>
      refine (h.accepted haccepted).processSnapshot ?_ haccepted.frame fun hend => ?_
      · obtain ⟨decoder, -, rfl⟩ := haccepted.decoded
        exact hmode
      · have := hrange.2 hend
        omega
  | replay hmode _ haccepted hseq =>
      have hordered := h.accepted haccepted
      have hfeed := haccepted.frame
      obtain ⟨decoder, -, rfl⟩ := haccepted.decoded
      exact hordered.replay hmode hfeed (by have := hrange.1; omega) hseq
  | disordered _ _ haccepted => exact (h.accepted haccepted).abortSnapshotSync
  | finishReplay hmode => exact h.finishReplaySync hmode
  | current hmode => exact h.closeSocket.finishReplaySync hmode
  | retry hmode => exact h.retry hmode
  | escalate => exact h.closeSocket.startSnapshotSync
  | abort => exact h.abortSnapshotSync

/-- **Every run** delivers segments: snapshots, each with the increments behind it and without a gap
or a duplicate. -/
theorem delivered_in_segments (events : List Event) (c : MarketDataConsumer)
    (hrange : Run.Along step (Guarded InRange) start events)
    (hrun : events.foldlM step start = some c) :
    ∃ (earlier : List Segment) (current : Segment),
      c.incomingMdUpdates = earlier.flatMap Segment.updates ++ current.updates
        ∧ (∀ segment ∈ (earlier ++ [current]).tail, segment.snapshot ≠ [])
        ∧ (current.updates ≠ [] → c.nextExpIncSeqNum.toNat = current.next) := by
  have hordered : Ordered c :=
    Run.invariant (invariant_step (fun _ _ _ _ _ _ h => h.resting ..) ordered_takes) ordered_start
      hrange hrun
  obtain ⟨earlier, current, hsplit, hsnapshots, hnext, -⟩ := hordered.segmented
  exact ⟨earlier, current, hsplit, hsnapshots, hnext⟩

/-- A snapshot, an increment, a gap, and the replay that fills it. -/
def replayedRun : List Event :=
  [reads (emptySnapshot 0), .datagram (feedFrame 1 (markerMsg 0xCC 7)),
    .datagram (feedFrame 3 (markerMsg 0xCC 7)), reads (82 :: feedFrame 2 (markerMsg 0xCC 7)), reads []]

theorem delivered_in_segments_replayedRun :
    ∃ c, replayedRun.foldlM step start = some c ∧ c.incomingMdUpdates.length = 5
      ∧ ∃ (earlier : List Segment) (current : Segment),
        c.incomingMdUpdates = earlier.flatMap Segment.updates ++ current.updates
          ∧ (∀ segment ∈ (earlier ++ [current]).tail, segment.snapshot ≠ [])
          ∧ (current.updates ≠ [] → c.nextExpIncSeqNum.toNat = current.next) := by
  have hrun : (replayedRun.foldlM step start).any (fun c => c.incomingMdUpdates.length = 5) = true := by
    decide +kernel
  obtain ⟨c, hrun, hlength⟩ := (Option.any_eq_true _ _).mp hrun
  exact ⟨c, hrun, by simpa using hlength,
    delivered_in_segments replayedRun c (by decide +kernel) hrun⟩

end MarketDataConsumer

end AlphaTrader
