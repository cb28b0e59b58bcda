import AlphaTrader.Proof.RecoveryState

/-!
# What a recovery does with the increments that arrive meanwhile

Increments that arrive in a recovery are queued. When the recovery completes they are delivered, or the
recovery has covered them already. A recovery that is given up and a replay that is denied clear the
queue instead.
-/

namespace AlphaTrader

namespace MarketDataConsumer

variable {c c' : MarketDataConsumer} {arrival : Arrival} {seqNum : SeqNum}

/-- The sequence number from which a recovery resumes if the turn completes it. -/
def resumeSeq? (c : MarketDataConsumer) : Turn → Option SeqNum
  | .finishReplay => some (c.replayLastApplied + 1)
  | .snapshot arrival =>
      if arrival.update.type = .snapshotEnd then some (arrival.update.orderRef + 1) else none
  | _ => none

/-- What a turn may do with an increment that is queued under `seqNum`. -/
inductive Accounted (c : MarketDataConsumer) (turn : Turn) (c' : MarketDataConsumer)
    (seqNum : SeqNum) (arrival : Arrival) : Prop
  | queued (hqueued : c'.incrementalQueuedUpdates[seqNum]? = some arrival)
  | overwritten (later : Arrival) (hturn : turn = .live later) (hseq : later.update.seqNum = seqNum)
      (hqueued : c'.incrementalQueuedUpdates[seqNum]? = some later)
  | pushed (updates : List Arrival)
      (hpushed : c'.incomingMdUpdates = c.incomingMdUpdates ++ updates) (hmem : arrival ∈ updates)
  | covered (resumeSeq : SeqNum) (hresume : c.resumeSeq? turn = some resumeSeq)
      (hcompleted : c'.marketDataSynchronized = true) (hlt : seqNum < resumeSeq)

/-- The turn accounts for every queued increment. -/
def Accounts (c : MarketDataConsumer) (turn : Turn) : Prop :=
  ∀ c', Takes c turn c' → ∀ seqNum arrival,
    c.incrementalQueuedUpdates[seqNum]? = some arrival → Accounted c turn c' seqNum arrival

/-- A recovery is given up and a replay is denied only while nothing is queued. -/
def Retains (c : MarketDataConsumer) : Turn → Prop
  | .live _ | .snapshot _ | .retry => True
  | .replay arrival => arrival.update.seqNum = c.replayLastApplied + 1
      ∨ c.incrementalQueuedUpdates.isEmpty = true
  | .finishReplay => (contiguous (c.replayLastApplied + 1) c.incrementalQueuedUpdates.toList).isSome
  | .escalate | .abort => c.incrementalQueuedUpdates.isEmpty = true

instance (c : MarketDataConsumer) : ∀ turn, Decidable (Retains c turn)
  | .live _ | .snapshot _ | .retry => isTrue trivial
  | .replay _ => inferInstanceAs (Decidable (_ ∨ _))
  | .finishReplay | .escalate | .abort => inferInstanceAs (Decidable (_ = true))

theorem not_queued_of_isEmpty (hempty : c.incrementalQueuedUpdates.isEmpty = true) :
    ¬ c.incrementalQueuedUpdates[seqNum]? = some arrival := by
  rw [Std.TreeMap.getElem?_of_isEmpty hempty]
  exact nofun

theorem Accounted.congr {c₀ : MarketDataConsumer} {turn : Turn}
    (h : Accounted c₀ turn c' seqNum arrival)
    (hincoming : c₀.incomingMdUpdates = c.incomingMdUpdates)
    (hlast : c₀.replayLastApplied = c.replayLastApplied) : Accounted c turn c' seqNum arrival := by
  cases h with
  | queued hqueued => exact .queued hqueued
  | overwritten later hturn hseq hqueued => exact .overwritten later hturn hseq hqueued
  | pushed updates hpushed hmem => exact .pushed updates (hincoming ▸ hpushed) hmem
  | covered resumeSeq hresume hcompleted hlt =>
      refine .covered resumeSeq ?_ hcompleted hlt
      rw [← hresume]
      unfold resumeSeq?
      rw [hlast]

/-! ### Turns -/

theorem mem_drained (hqueued : c.incrementalQueuedUpdates[seqNum]? = some arrival)
    {resumeSeq : SeqNum} (hge : ¬ seqNum < resumeSeq) : arrival ∈ c.drained resumeSeq := by
  unfold drained
  apply List.mem_map.mpr
  refine ⟨(seqNum, arrival), List.mem_filter.mpr ⟨?_, by simpa using hge⟩, rfl⟩
  exact Std.TreeMap.mem_toList_iff_getElem?_eq_some.mpr hqueued

/-- A recovery that completes delivers what it has not covered. -/
theorem accounted_completed {turn : Turn} {resumeSeq : SeqNum}
    (hqueued : c.incrementalQueuedUpdates[seqNum]? = some arrival)
    (hresume : c.resumeSeq? turn = some resumeSeq) {updates : List Arrival}
    (hpushed : c'.incomingMdUpdates = c.incomingMdUpdates ++ (updates ++ c.drained resumeSeq))
    (hcompleted : c'.marketDataSynchronized = true) : Accounted c turn c' seqNum arrival := by
  by_cases hlt : seqNum < resumeSeq
  · exact .covered resumeSeq hresume hcompleted hlt
  · exact .pushed _ hpushed (List.mem_append_right _ (mem_drained hqueued hlt))

theorem accounted_queueIncremental {later : Arrival}
    (hqueued : c.incrementalQueuedUpdates[seqNum]? = some arrival) :
    Accounted c (.live later) (c.queueIncremental later) seqNum arrival := by
  by_cases heq : later.update.seqNum = seqNum
  · refine .overwritten later rfl heq ?_
    rw [queueIncremental, heq, Std.TreeMap.getElem?_insert_self]
  · refine .queued ?_
    rw [queueIncremental, Std.TreeMap.getElem?_insert, if_neg, hqueued]
    exact fun hcmp => heq (Std.LawfulEqCmp.eq_of_compare hcmp)

theorem accounted_processSnapshot {entry : Arrival}
    (hqueued : c.incrementalQueuedUpdates[seqNum]? = some arrival) :
    Accounted c (.snapshot entry) (c.processSnapshot entry) seqNum arrival := by
  unfold processSnapshot
  split
  case isTrue => exact .queued hqueued
  case isFalse =>
      split
      case isTrue => exact .queued hqueued
      case isFalse =>
          split
          case isTrue => exact .queued hqueued
          case isFalse =>
              dsimp only
              split
              case isFalse => exact .queued hqueued
              case isTrue hend =>
                  unfold finishSnapshotSync
                  split
                  case h_1 => exact .queued hqueued
                  case h_2 => exact accounted_completed hqueued (if_pos hend) rfl rfl

theorem accounted_finishReplaySync
    (hqueued : c.incrementalQueuedUpdates[seqNum]? = some arrival)
    (hcontiguous : (contiguous (c.replayLastApplied + 1) c.incrementalQueuedUpdates.toList).isSome) :
    Accounted c .finishReplay c.finishReplaySync seqNum arrival := by
  obtain ⟨expected, hexpected⟩ := Option.isSome_iff_exists.mp hcontiguous
  unfold finishReplaySync
  simp only [hexpected]
  exact accounted_completed hqueued rfl rfl rfl

/-- **Every turn** that retains the queue accounts for what is in it. -/
theorem accounts_of_retains (c : MarketDataConsumer) (turn : Turn) (h : Consistent c)
    (hretains : Retains c turn) : Accounts c turn := by
  intro c' htakes seqNum arrival hqueued
  cases htakes with
  | live haccepted =>
      by_cases hrecovery : c.inRecovery = true
      · obtain ⟨decoder, -, rfl⟩ := haccepted.decoded
        unfold processIncremental
        dsimp only
        rw [if_pos (by simp [record, hrecovery])]
        refine Accounted.congr (accounted_queueIncremental ?_) rfl rfl
        exact hqueued
      · have hidle := h.idle (Bool.eq_false_iff.mpr hrecovery)
        exact absurd hqueued (not_queued_of_isEmpty hidle.1)
  | snapshot _ haccepted =>
      obtain ⟨decoder, -, rfl⟩ := haccepted.decoded
      refine Accounted.congr (accounted_processSnapshot ?_) rfl rfl
      exact hqueued
  | replay _ _ haccepted =>
      obtain ⟨decoder, -, rfl⟩ := haccepted.decoded
      exact .queued hqueued
  | disordered _ _ _ hseq =>
      exact absurd hqueued (not_queued_of_isEmpty (hretains.resolve_left hseq))
  | finishReplay => exact accounted_finishReplaySync hqueued hretains
  | current =>
      refine Accounted.congr (accounted_finishReplaySync ?_ hretains) rfl rfl
      exact hqueued
  | retry => exact .queued hqueued
  | escalate => exact absurd hqueued (not_queued_of_isEmpty hretains)
  | abort => exact absurd hqueued (not_queued_of_isEmpty hretains)

/-- **No queued increment is lost** in a run that gives up no recovery and has no replay denied while
something is queued: every turn of every step leaves an increment queued, has a copy overwrite it, or
completes a recovery that pushes it or has covered it. -/
theorem queued_accounted (events : List Event)
    (hretains : Run.Along step (Guarded Retains) start events) :
    Run.Along step (Guarded Accounts) start events := by
  have hrest : ∀ (c : MarketDataConsumer) size more statusRead inbound tcp, Consistent c →
      Consistent (c.resting size more statusRead inbound tcp) :=
    fun _ _ _ _ _ _ h => h.resting ..
  have htakes : ∀ c turn c', Consistent c → Retains c turn → Takes c turn c' → Consistent c' :=
    fun c turn c' h _ htakes => consistent_takes c turn c' h htakes
  exact Run.Along.of_invariant Consistent (invariant_step hrest htakes)
    (guarded_of_invariant hrest htakes accounts_of_retains) consistent_start hretains

theorem queued_accounted_replayedRun :
    (∃ c, (replayedRun.take 3).foldlM step start = some c
        ∧ c.incrementalQueuedUpdates.isEmpty = false)
      ∧ Run.Along step (Guarded Accounts) start replayedRun := by
  have hrun : ((replayedRun.take 3).foldlM step start).any (fun c =>
      !c.incrementalQueuedUpdates.isEmpty) = true := by
    decide +kernel
  obtain ⟨c, hrun, hqueued⟩ := (Option.any_eq_true _ _).mp hrun
  exact ⟨⟨c, hrun, by simpa using hqueued⟩, queued_accounted replayedRun (by decide +kernel)⟩

/-- An increment is queued behind a gap, and the replay is denied: the increment is neither queued nor
pushed any more, and no recovery has completed. -/
theorem denied_replay_drops_queue :
    ∃ c c', (escalatedRun.take 3).foldlM step start = some c ∧ c.step (reads [78]) = some c'
      ∧ (∃ arrival, c.incrementalQueuedUpdates[(3 : SeqNum)]? = some arrival)
      ∧ c'.incrementalQueuedUpdates[(3 : SeqNum)]? = none
      ∧ c'.incomingMdUpdates = c.incomingMdUpdates ∧ c'.marketDataSynchronized = false := by
  have hrun : ((escalatedRun.take 3).foldlM step start).any (fun c =>
      c.incrementalQueuedUpdates[(3 : SeqNum)]?.isSome && (c.step (reads [78])).any fun c' =>
        c'.incrementalQueuedUpdates[(3 : SeqNum)]?.isNone
          && decide (c'.incomingMdUpdates = c.incomingMdUpdates)
          && !c'.marketDataSynchronized) = true := by
    decide +kernel
  obtain ⟨c, hrun, hcheck⟩ := (Option.any_eq_true _ _).mp hrun
  obtain ⟨hqueued, hnext⟩ := Bool.and_eq_true_iff.mp hcheck
  obtain ⟨c', hstep, hcheck⟩ := (Option.any_eq_true _ _).mp hnext
  obtain ⟨⟨hnone, hsame⟩, hflag⟩ := by simpa using hcheck
  exact ⟨c, c', hrun, hstep, Option.isSome_iff_exists.mp hqueued, by simpa using hnone, hsame, hflag⟩

end MarketDataConsumer

end AlphaTrader
