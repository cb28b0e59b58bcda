import AlphaTrader.Proof.DeliveredStream

/-!
# Recoveries complete as a whole or not at all

Both ways to finish a recovery first look for a hole in the queue of updates, and then push what the
queue holds from the resume number on. The search and the drain agree on every queue: either all of it is
pushed and the consumer is synchronised behind it, or nothing is pushed.
-/

namespace AlphaTrader

namespace MarketDataConsumer

variable {c c' : MarketDataConsumer}

/-! ### The search for a hole -/

/-- From the resume number on, every number below a queued one is queued. -/
def Unbroken (resumeSeq : SeqNum) (queued : SeqNum → Prop) : Prop :=
  ∀ seqNum, queued seqNum → ∀ earlier, resumeSeq ≤ earlier → earlier ≤ seqNum → queued earlier

section Entries

variable {entries rest : List (SeqNum × Arrival)} {expected seqNum : SeqNum} {arrival : Arrival}

/-- The numbers of the entries. -/
def Among (entries : List (SeqNum × Arrival)) (seqNum : SeqNum) : Prop := seqNum ∈ entries.map Prod.fst

theorem among_cons {earlier : SeqNum} :
    Among ((seqNum, arrival) :: rest) earlier ↔ earlier = seqNum ∨ Among rest earlier := by
  simp [Among]

theorem unbroken_covered (hlt : seqNum < expected) :
    Unbroken expected (Among ((seqNum, arrival) :: rest)) ↔ Unbroken expected (Among rest) := by
  have hsame : ∀ earlier, expected ≤ earlier →
      (Among ((seqNum, arrival) :: rest) earlier ↔ Among rest earlier) := by
    intro earlier hle
    rw [among_cons]
    refine or_iff_right fun heq => ?_
    rw [heq, UInt64.le_iff_toNat_le] at hle
    rw [UInt64.lt_iff_toNat_lt] at hlt
    omega
  constructor
  · intro hunbroken seq hseq earlier hge hle
    exact (hsame earlier hge).mp (hunbroken seq (among_cons.mpr (Or.inr hseq)) earlier hge hle)
  · intro hunbroken seq hseq earlier hge hle
    rw [hsame earlier hge]
    exact hunbroken seq ((hsame seq (UInt64.le_trans hge hle)).mp hseq) earlier hge hle

theorem not_unbroken_hole (hbelow : ∀ seq, Among rest seq → seqNum < seq) (hlt : ¬ seqNum < expected)
    (hne : seqNum ≠ expected) : ¬ Unbroken expected (Among ((seqNum, arrival) :: rest)) := by
  intro hunbroken
  have hle : expected ≤ seqNum := UInt64.not_lt.mp hlt
  rcases among_cons.mp (hunbroken seqNum (among_cons.mpr (Or.inl rfl)) expected (UInt64.le_refl _) hle)
    with heq | hmem
  · exact hne heq.symm
  · exact hlt (hbelow expected hmem)

theorem unbroken_next (hbelow : ∀ seq, Among rest seq → seqNum < seq) :
    Unbroken seqNum (Among ((seqNum, arrival) :: rest)) ↔ Unbroken (seqNum + 1) (Among rest) := by
  constructor
  · intro hunbroken seq hseq earlier hge hle
    have hsucc := toNat_succ_of_lt (hbelow seq hseq)
    rw [UInt64.le_iff_toNat_le, hsucc] at hge
    have hge' : seqNum ≤ earlier := UInt64.le_iff_toNat_le.mpr (by omega)
    refine (among_cons.mp (hunbroken seq (among_cons.mpr (Or.inr hseq)) earlier hge' hle)).resolve_left ?_
    rintro rfl
    omega
  · intro hunbroken seq hseq earlier hge hle
    rw [among_cons]
    by_cases heq : earlier = seqNum
    · exact Or.inl heq
    · have hlt : seqNum < earlier := UInt64.lt_of_le_of_ne hge (Ne.symm heq)
      refine Or.inr ((among_cons.mp hseq).elim ?_ fun hseq => hunbroken seq hseq earlier ?_ hle)
      · rintro rfl
        exact absurd hle (UInt64.not_le.mpr hlt)
      · rw [UInt64.le_iff_toNat_le, toNat_succ_of_lt hlt]
        exact UInt64.lt_iff_toNat_lt.mp hlt

/-- **The search** succeeds exactly if there is no hole, and counts what is to be drained. -/
theorem contiguous_eq_some_iff {stop : SeqNum} (hsorted : entries.Pairwise fun a b => a.1 < b.1) :
    contiguous expected entries = some stop ↔ Unbroken expected (Among entries)
      ∧ stop = expected + UInt64.ofNat (entries.filter fun queued => ¬ queued.1 < expected).length := by
  induction entries generalizing expected with
  | nil =>
      have hunbroken : Unbroken expected (Among []) := fun seq hseq => absurd hseq (by simp [Among])
      simp [contiguous, hunbroken, eq_comm]
  | cons entry rest ih =>
      obtain ⟨seqNum, arrival⟩ := entry
      obtain ⟨hbelow, hsorted⟩ := List.pairwise_cons.mp hsorted
      have hbelow' : ∀ seq, Among rest seq → seqNum < seq := by
        intro seq hseq
        obtain ⟨queued, hmem, rfl⟩ := List.mem_map.mp hseq
        exact hbelow queued hmem
      unfold contiguous
      by_cases hlt : seqNum < expected
      · rw [if_pos hlt, ih hsorted, unbroken_covered hlt, List.filter_cons_of_neg (by simpa using hlt)]
      · rw [if_neg hlt]
        by_cases heq : seqNum = expected
        · subst heq
          have hcount : ∀ count : Nat, seqNum + UInt64.ofNat (count + 1) = seqNum + 1 + UInt64.ofNat count := by
            intro count
            rw [UInt64.ofNat_add, UInt64.add_comm (UInt64.ofNat count), ← UInt64.add_assoc]
            rfl
          rw [if_neg (by simp), ih hsorted, unbroken_next hbelow', List.filter_cons_of_pos (by simp),
            List.length_cons, filter_next hbelow, hcount]
        · rw [if_pos heq]
          have hhole : ¬ Unbroken expected (Among ((seqNum, arrival) :: rest)) :=
            not_unbroken_hole hbelow' hlt heq
          simp [hhole]

end Entries

/-! ### Completion -/

/-- The queue holds an update under a number. -/
def IsQueued (c : MarketDataConsumer) (seqNum : SeqNum) : Prop := seqNum ∈ c.incrementalQueuedUpdates

/-- The recovered updates are pushed, and behind them what is queued from the resume number on, in the
order of the numbers. -/
structure Completed (c : MarketDataConsumer) (resumeSeq : SeqNum) (c' : MarketDataConsumer) : Prop where
  pushed : ∃ queued : List (SeqNum × Arrival),
    c'.incomingMdUpdates = c.incomingMdUpdates ++ (c.snapshotQueuedUpdates ++ queued.map Prod.snd)
      ∧ (queued.Pairwise fun a b => a.1 < b.1)
      ∧ (∀ seqNum arrival, (seqNum, arrival) ∈ queued ↔
        c.incrementalQueuedUpdates[seqNum]? = some arrival ∧ resumeSeq ≤ seqNum)
      ∧ c'.nextExpIncSeqNum = resumeSeq + UInt64.ofNat queued.length
  queue : c'.incrementalQueuedUpdates.isEmpty = true
  recovered : c'.snapshotQueuedUpdates = []
  synchronized : c'.marketDataSynchronized = true

/-- Nothing is pushed. -/
structure Refused (c c' : MarketDataConsumer) : Prop where
  pushed : c'.incomingMdUpdates = c.incomingMdUpdates
  next : c'.nextExpIncSeqNum = c.nextExpIncSeqNum
  synchronized : c'.marketDataSynchronized = false

theorem among_toList (seqNum : SeqNum) :
    Among c.incrementalQueuedUpdates.toList seqNum ↔ c.IsQueued seqNum := by
  rw [Among, Std.TreeMap.map_fst_toList_eq_keys, IsQueued, Std.TreeMap.mem_keys]

theorem unbroken_toList (resumeSeq : SeqNum) :
    Unbroken resumeSeq (Among c.incrementalQueuedUpdates.toList) ↔ Unbroken resumeSeq c.IsQueued := by
  simp only [Unbroken, among_toList]

theorem completed_completeSync {resumeSeq expected : SeqNum}
    (hcontiguous : contiguous resumeSeq c.incrementalQueuedUpdates.toList = some expected) :
    Completed c resumeSeq (c.completeSync resumeSeq expected) where
  pushed := by
    obtain ⟨-, hexpected⟩ := (contiguous_eq_some_iff (sorted_toList _)).mp hcontiguous
    refine ⟨c.incrementalQueuedUpdates.toList.filter fun queued => ¬ queued.1 < resumeSeq, rfl,
      (sorted_toList _).filter _, fun seqNum arrival => ?_, hexpected⟩
    rw [List.mem_filter, Std.TreeMap.mem_toList_iff_getElem?_eq_some]
    simp
  queue := rfl
  recovered := rfl
  synchronized := rfl

theorem Refused.not_completed {resumeSeq : SeqNum} (hrefused : Refused c c') :
    ¬ Completed c resumeSeq c' := by
  intro hcompleted
  have hflag := hcompleted.synchronized
  rw [hrefused.synchronized] at hflag
  cases hflag

theorem unbroken_iff_contiguous (c : MarketDataConsumer) (resumeSeq : SeqNum) :
    Unbroken resumeSeq c.IsQueued ↔
      ∃ expected, contiguous resumeSeq c.incrementalQueuedUpdates.toList = some expected := by
  rw [← unbroken_toList]
  simp only [contiguous_eq_some_iff (sorted_toList c.incrementalQueuedUpdates), exists_and_left, exists_eq,
    and_true]

/-- What completes when the search succeeds and refuses when it fails is decided by the hole. -/
theorem completed_iff_unbroken {resumeSeq : SeqNum}
    (hsome : ∀ expected, contiguous resumeSeq c.incrementalQueuedUpdates.toList = some expected →
      Completed c resumeSeq c')
    (hnone : contiguous resumeSeq c.incrementalQueuedUpdates.toList = none → Refused c c') :
    (Completed c resumeSeq c' ↔ Unbroken resumeSeq c.IsQueued)
      ∧ (¬ Unbroken resumeSeq c.IsQueued → Refused c c') := by
  rw [unbroken_iff_contiguous]
  cases hcontiguous : contiguous resumeSeq c.incrementalQueuedUpdates.toList with
  | none =>
      have hrefused := hnone hcontiguous
      exact ⟨iff_of_false hrefused.not_completed (by simp), fun _ => hrefused⟩
  | some expected =>
      exact ⟨iff_of_true (hsome expected hcontiguous) ⟨expected, rfl⟩, fun hhole => absurd ⟨expected, rfl⟩ hhole⟩

/-- **Recovery completes as a whole or not at all.** Both ways to finish push the recovered updates and
the queue from the resume number on exactly if the queue has no hole there, and else push nothing. -/
theorem recovery_all_or_nothing (c : MarketDataConsumer) (resumeSeq : SeqNum)
    (hflag : c.marketDataSynchronized = false) :
    ((Completed c (c.replayLastApplied + 1) c.finishReplaySync
          ↔ Unbroken (c.replayLastApplied + 1) c.IsQueued)
        ∧ (¬ Unbroken (c.replayLastApplied + 1) c.IsQueued → Refused c c.finishReplaySync))
      ∧ (Completed c resumeSeq (c.finishSnapshotSync resumeSeq) ↔ Unbroken resumeSeq c.IsQueued)
        ∧ (¬ Unbroken resumeSeq c.IsQueued → Refused c (c.finishSnapshotSync resumeSeq)) := by
  constructor
  · refine completed_iff_unbroken (fun expected hcontiguous => ?_) fun hcontiguous => ?_ <;>
      simp only [finishReplaySync, hcontiguous]
    · have hcompleted := completed_completeSync hcontiguous
      exact ⟨hcompleted.pushed, hcompleted.queue, hcompleted.recovered, hcompleted.synchronized⟩
    · exact ⟨rfl, rfl, rfl⟩
  · refine completed_iff_unbroken (fun expected hcontiguous => ?_) fun hcontiguous => ?_ <;>
      simp only [finishSnapshotSync, hcontiguous]
    · have hcompleted := completed_completeSync hcontiguous
      exact ⟨hcompleted.pushed, hcompleted.queue, hcompleted.recovered, hcompleted.synchronized⟩
    · exact ⟨rfl, rfl, hflag⟩

/-- A consumer that has replayed up to 4 and has queued 5 and 6. -/
def behindReplay : MarketDataConsumer :=
  { start with
    replayLastApplied := 4
    incrementalQueuedUpdates := (({} : Std.TreeMap SeqNum Arrival).insert 5
      ⟨{ seqNum := 5 }, ⟨.feed, []⟩⟩).insert 6 ⟨{ seqNum := 6 }, ⟨.feed, []⟩⟩ }

/-- It completes from 5 on, and a snapshot that ends at 3 leaves a hole. -/
theorem recovery_all_or_nothing_behindReplay :
    Completed behindReplay 5 behindReplay.finishReplaySync
      ∧ Refused behindReplay (behindReplay.finishSnapshotSync 4) := by
  obtain ⟨hreplay, hsnapshot⟩ := recovery_all_or_nothing behindReplay 4 rfl
  constructor
  · exact hreplay.1.mpr ((unbroken_iff_contiguous _ _).mpr ⟨7, by decide +kernel⟩)
  · refine hsnapshot.2 fun hunbroken => ?_
    obtain ⟨expected, hcontiguous⟩ := (unbroken_iff_contiguous _ _).mp hunbroken
    have hnone : contiguous 4 behindReplay.incrementalQueuedUpdates.toList = none := by decide +kernel
    rw [hnone] at hcontiguous
    cases hcontiguous

end MarketDataConsumer

end AlphaTrader
