import AlphaTrader.Proof.DeliveredStream

/-!
# Trading is enabled behind a snapshot

The flag that enables trading is set when a snapshot or a replay completes. A replay only adds to what
has been delivered, so the flag stands for a snapshot only if one was delivered before the replay. The
consumer does not see to that: when the first snapshot fails, the first increment is taken as the
baseline, and a replay behind it sets the flag. Where no gap is replayed before the first snapshot, the
flag means what it should.
-/

namespace AlphaTrader

/-- A complete snapshot has been delivered, and behind the last one exactly its increments. -/
def Anchored (updates : List Arrival) (next : Nat) : Prop :=
  ∃ before last snapshot increments, updates = before ++ (snapshot ++ increments)
    ∧ IsSnapshot last snapshot ∧ Numbered (last.toNat + 1) increments
    ∧ next = last.toNat + 1 + increments.length

def HasSnapshot (updates : List Arrival) : Prop :=
  ∃ arrival ∈ updates, arrival.frame.kind = .snapshot

instance (updates : List Arrival) : Decidable (HasSnapshot updates) :=
  inferInstanceAs (Decidable (∃ arrival ∈ updates, _))

theorem HasSnapshot.append {updates : List Arrival} (h : HasSnapshot updates) (more : List Arrival) :
    HasSnapshot (updates ++ more) := by
  obtain ⟨arrival, hmem, hkind⟩ := h
  exact ⟨arrival, List.mem_append_left _ hmem, hkind⟩

theorem Segmented.anchored {updates : List Arrival} {next : Nat} (h : Segmented updates next)
    (hsnapshot : HasSnapshot updates) : Anchored updates next := by
  obtain ⟨earlier, current, rfl, hsnapshots, hnext, -⟩ := h
  have hne : current.snapshot ≠ [] := by
    cases earlier with
    | cons first rest => exact hsnapshots current (by simp)
    | nil =>
        obtain ⟨arrival, hmem, hkind⟩ := hsnapshot
        intro hnil
        simp only [List.flatMap_nil, List.nil_append, Segment.updates, hnil] at hmem
        rw [current.numbered.feed arrival hmem] at hkind
        cases hkind
  have hupdates : current.updates ≠ [] := fun hnil => hne (List.append_eq_nil_iff.mp hnil).1
  rcases current.opens with hnil | ⟨last, hlast, hfirst⟩
  · exact absurd hnil hne
  · refine ⟨_, last, current.snapshot, current.increments, rfl, hlast, hfirst ▸ current.numbered, ?_⟩
    rw [hnext hupdates, Segment.next, hfirst]

namespace MarketDataConsumer

variable {c c' : MarketDataConsumer} {arrival : Arrival}

/-- A gap leads to a replay only behind a delivered snapshot. -/
def SnapshotFirst (c : MarketDataConsumer) : Turn → Prop
  | .live arrival => InRange c (.live arrival)
      ∧ (c.inRecovery = false → c.nextExpIncSeqNum ≠ 0 →
        c.nextExpIncSeqNum < arrival.update.seqNum →
        arrival.update.seqNum - c.nextExpIncSeqNum ≤ replayCapacity →
        HasSnapshot c.incomingMdUpdates)
  | turn => InRange c turn

instance (c : MarketDataConsumer) : ∀ turn, Decidable (SnapshotFirst c turn)
  | .live _ => inferInstanceAs (Decidable (_ ∧ _))
  | .snapshot arrival => inferInstanceAs (Decidable (InRange c (.snapshot arrival)))
  | .replay arrival => inferInstanceAs (Decidable (InRange c (.replay arrival)))
  | .finishReplay | .retry | .escalate | .abort => isTrue trivial

theorem SnapshotFirst.inRange {turn : Turn} (h : SnapshotFirst c turn) : InRange c turn := by
  cases turn with
  | live => exact h.1
  | _ => exact h

/-- Behind the flag, and behind a replay, stands a snapshot. -/
def Backed (c : MarketDataConsumer) : Prop :=
  c.recoveryMode = .replay ∨ c.marketDataSynchronized = true → HasSnapshot c.incomingMdUpdates

theorem backed_processIncremental (h : Backed c)
    (hgap : c.inRecovery = false → c.nextExpIncSeqNum ≠ 0 →
      c.nextExpIncSeqNum < arrival.update.seqNum →
      arrival.update.seqNum - c.nextExpIncSeqNum ≤ replayCapacity →
      HasSnapshot c.incomingMdUpdates) : Backed (c.processIncremental arrival) := by
  unfold processIncremental
  dsimp only
  split
  case isTrue => exact h
  case isFalse hidle =>
      split
      case isTrue => exact fun hset => (h hset).append _
      case isFalse hne =>
          split
          case isTrue => exact fun hset => (h hset).append _
          case isFalse =>
              split
              case isFalse => exact h
              case isTrue hlt =>
                  unfold detectGap
                  rw [if_neg hidle]
                  dsimp only
                  split
                  case isTrue hsmall => exact fun _ => hgap (by simpa using hidle) hne hlt hsmall
                  case isFalse => exact fun hset => by simp [startSnapshotSync, queueIncremental] at hset

theorem backed_processSnapshot (h : Backed c) (hkind : arrival.frame.kind = .snapshot) :
    Backed (c.processSnapshot arrival) := by
  unfold processSnapshot
  split
  case isTrue => exact h
  case isFalse =>
      split
      case isTrue => exact h
      case isFalse =>
          split
          case isTrue => exact h
          case isFalse =>
              dsimp only
              split
              case isFalse => exact h
              case isTrue =>
                  unfold finishSnapshotSync
                  split
                  case h_1 => exact h
                  case h_2 => exact fun _ => ⟨arrival, by simp [completeSync, push, closeSocket], hkind⟩

theorem backed_finishReplaySync (h : Backed c) (hmode : c.recoveryMode = .replay) :
    Backed c.finishReplaySync := by
  unfold finishReplaySync
  dsimp only
  split
  case h_1 => exact fun hset => by simp [abortSnapshotSync] at hset
  case h_2 => exact fun _ => (h (Or.inl hmode)).append _

theorem backed_takes (c : MarketDataConsumer) (turn : Turn) (c' : MarketDataConsumer) (h : Backed c)
    (hfirst : SnapshotFirst c turn) (htakes : Takes c turn c') : Backed c' := by
  cases htakes with
  | live haccepted =>
      obtain ⟨decoder, -, rfl⟩ := haccepted.decoded
      exact backed_processIncremental h hfirst.2
  | snapshot _ haccepted =>
      have hkind := haccepted.frame
      obtain ⟨decoder, -, rfl⟩ := haccepted.decoded
      exact backed_processSnapshot h hkind
  | replay _ _ haccepted =>
      obtain ⟨decoder, -, rfl⟩ := haccepted.decoded
      exact h
  | disordered => exact fun hset => by simp [abortSnapshotSync] at hset
  | finishReplay hmode => exact backed_finishReplaySync h hmode
  | current hmode =>
      have hclosed : Backed c.closeSocket := h
      exact backed_finishReplaySync hclosed hmode
  | retry hmode => exact fun _ => h (Or.inl hmode)
  | escalate => exact fun hset => by simp [startSnapshotSync] at hset
  | abort => exact fun hset => by simp [abortSnapshotSync] at hset

/-- **The flag is authoritative** in every run that replays a gap only behind a snapshot. -/
theorem synchronized_anchored (events : List Event) (c : MarketDataConsumer)
    (hfirst : Run.Along step (Guarded SnapshotFirst) start events)
    (hrun : events.foldlM step start = some c) (hflag : c.marketDataSynchronized = true) :
    Anchored c.incomingMdUpdates c.nextExpIncSeqNum.toNat := by
  have hinit : Ordered start ∧ Backed start :=
    ⟨ordered_start, fun hset => by simp [start, startSnapshotSync] at hset⟩
  have htakes : ∀ c turn c', Ordered c ∧ Backed c → SnapshotFirst c turn → Takes c turn c' →
      Ordered c' ∧ Backed c' := fun c turn c' h hfirst htakes =>
    ⟨ordered_takes c turn c' h.1 hfirst.inRange htakes, backed_takes c turn c' h.2 hfirst htakes⟩
  obtain ⟨hordered, hbacked⟩ :=
    Run.invariant (invariant_step (fun _ _ _ _ _ _ h => ⟨h.1.resting .., h.2⟩) htakes) hinit hfirst hrun
  exact hordered.segmented.anchored (hbacked (Or.inr hflag))

theorem synchronized_anchored_replayedRun :
    ∃ c, replayedRun.foldlM step start = some c ∧ c.marketDataSynchronized = true
      ∧ Anchored c.incomingMdUpdates c.nextExpIncSeqNum.toNat := by
  have hrun : (replayedRun.foldlM step start).any (·.marketDataSynchronized) = true := by
    decide +kernel
  obtain ⟨c, hrun, hflag⟩ := (Option.any_eq_true _ _).mp hrun
  exact ⟨c, hrun, hflag, synchronized_anchored replayedRun c (by decide +kernel) hrun hflag⟩

/-- The first snapshot fails, an increment becomes the baseline, and a gap behind it is replayed. -/
def unbackedRun : List Event :=
  [reads [], .datagram (feedFrame 5 (markerMsg 0xCC 7)), .datagram (feedFrame 7 (markerMsg 0xCC 7)),
    reads (82 :: feedFrame 6 (markerMsg 0xCC 7)), reads []]

/-- The flag is set and no snapshot has been delivered. -/
theorem unbackedRun_synchronized :
    ∃ c, unbackedRun.foldlM step start = some c ∧ c.marketDataSynchronized = true
      ∧ ¬ Anchored c.incomingMdUpdates c.nextExpIncSeqNum.toNat := by
  have hrun : (unbackedRun.foldlM step start).any (fun c => c.marketDataSynchronized
      && !c.incomingMdUpdates.any fun arrival => arrival.update.type = .snapshotStart) = true := by
    decide +kernel
  obtain ⟨c, hrun, hcheck⟩ := (Option.any_eq_true _ _).mp hrun
  obtain ⟨hflag, hnone⟩ := by simpa using hcheck
  refine ⟨c, hrun, hflag, ?_⟩
  rintro ⟨before, last, _, increments, hsplit, ⟨opening, entries, closing, rfl, -, hstart, -⟩, -⟩
  exact hnone opening (by simp [hsplit]) hstart

end MarketDataConsumer

end AlphaTrader
