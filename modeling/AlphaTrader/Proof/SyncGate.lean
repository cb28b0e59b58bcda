import AlphaTrader.Proof.RecoveryState
import AlphaTrader.Trading.TradingSystem

/-!
# The synchronization gate

The engine reads the flag once per iteration and then drains the queues. A gap that the consumer
detects in the meantime clears the flag, and the updates that are already queued still make the
strategy send orders. Without a gap while the engine drains, it sends nothing unsynchronized.
-/

namespace AlphaTrader

namespace MarketDataConsumer

variable {c c' : MarketDataConsumer} {arrival : Arrival} {data : List UInt8}

/-- The update is not behind a missing one. -/
def NoGap (c : MarketDataConsumer) (arrival : Arrival) : Prop :=
  c.nextExpIncSeqNum = 0 ∨ arrival.update.seqNum ≤ c.nextExpIncSeqNum
  deriving Decidable

theorem synchronized_processIncremental (hsync : c.marketDataSynchronized = true)
    (hidle : c.inRecovery = false) (hnoGap : c.NoGap arrival) :
    (c.processIncremental arrival).marketDataSynchronized = true := by
  unfold processIncremental
  simp only [hidle, Bool.false_eq_true, if_false]
  by_cases hfirst : c.nextExpIncSeqNum = 0
  · rw [if_pos hfirst]
    exact hsync
  have hle : ¬ c.nextExpIncSeqNum < arrival.update.seqNum :=
    UInt64.not_lt.mpr (hnoGap.resolve_left hfirst)
  rw [if_neg hfirst, if_neg hle]
  split <;> exact hsync

theorem Consistent.step_tcp {received : TcpRead} (h : Consistent c)
    (hstep : c.step (.tcp received) = some c') : Consistent c' := by
  have htakes : ∀ c turn c', Consistent c → True → Takes c turn c' → Consistent c' :=
    fun c turn c' h _ => consistent_takes c turn c' h
  exact invariant_step (fun _ _ _ _ _ _ h => h.resting ..) htakes c (.tcp received) c' h
    (fun _ => tcpGuarded_of_forall (fun _ _ => trivial) c received) hstep

theorem Consistent.offer {arrival? : Option Arrival} (h : Consistent c)
    (hoffer : c.offer .feed data = some (c', arrival?)) :
    Consistent (arrival?.elim c' c'.processIncremental) := by
  cases arrival? with
  | none =>
      obtain ⟨size, more, rfl⟩ := resting_of_offer hoffer
      exact h.resting ..
  | some arrival => exact consistent_takes _ _ _ h (.live (accepted_of_offer hoffer))

theorem synchronized_offer {arrival? : Option Arrival} (hsync : c.marketDataSynchronized = true)
    (hidle : c.inRecovery = false) (hnoGap : ∀ arrival ∈ c.accepted? .feed data, c.NoGap arrival)
    (hoffer : c.offer .feed data = some (c', arrival?)) :
    (arrival?.elim c' c'.processIncremental).marketDataSynchronized = true := by
  cases arrival? with
  | none =>
      obtain ⟨size, more, rfl⟩ := resting_of_offer hoffer
      exact hsync
  | some arrival =>
      have hnoGap := hnoGap arrival (mem_accepted?_of_offer hoffer)
      obtain ⟨decoder, -, rfl⟩ := (accepted_of_offer hoffer).decoded
      exact synchronized_processIncremental hsync hidle hnoGap

end MarketDataConsumer

namespace TradingSystem

open MarketDataConsumer (markerMsg addMsg feedFrame)

variable {S F π : Type} {cap : Capacity} [ObjectPool π] [FeatureEngine F] [Strategy S F cap]
  {sys sys' : TradingSystem S F π cap} {event : Event}

/-- No gap shows while the engine is past the gate. -/
def GateHolds (sys : TradingSystem S F π cap) : Event → Prop
  | .incremental data => sys.phase ≠ .gate →
      ∀ arrival ∈ sys.consumer.accepted? .feed data, sys.consumer.NoGap arrival
  | _ => True

instance (sys : TradingSystem S F π cap) : ∀ event, Decidable (sys.GateHolds event)
  | .incremental _ => inferInstanceAs (Decidable (_ → ∀ arrival ∈ _, _))
  | .tcp _ | .engine | .respond _ | .takeRequest => isTrue trivial

/-- A step of the engine while the flag is cleared pushes no request. -/
def Gated (sys : TradingSystem S F π cap) (event : Event) : Prop :=
  event = .engine → sys.consumer.marketDataSynchronized = false →
    ∀ sys', sys.step event = some sys' → sys'.engine.orderRequests = sys.engine.orderRequests

/-- Past the gate the consumer is synchronized. -/
structure Synced (sys : TradingSystem S F π cap) : Prop where
  consistent : sys.consumer.Consistent
  past : sys.phase ≠ .gate → sys.consumer.marketDataSynchronized = true

theorem consumer_engineStep (hstep : sys.engineStep = some sys') : sys'.consumer = sys.consumer := by
  unfold engineStep at hstep
  split at hstep
  case h_1 =>
      obtain rfl := Option.some.inj hstep
      split <;> rfl
  case h_2 => split at hstep <;> exact Option.some.inj hstep ▸ rfl
  case h_3 =>
      split at hstep
      · exact Option.some.inj hstep ▸ rfl
      · obtain ⟨engine, -, hrest⟩ := Option.bind_eq_some_iff.mp hstep
        exact Option.some.inj hrest ▸ rfl

/-- Not synchronized, the engine is held back at the gate. -/
theorem Synced.held (hsynced : sys.Synced) (hcleared : sys.consumer.marketDataSynchronized = false) :
    sys.engineStep = some sys := by
  have hphase : sys.phase = .gate := by
    by_contra hpast
    rw [hsynced.past hpast] at hcleared
    cases hcleared
  simp [engineStep, hphase, hcleared]

/-- **A step** without a gap behind the gate keeps the flag set behind the gate. -/
theorem synced_step (hsynced : sys.Synced) (hgate : sys.GateHolds event)
    (hstep : sys.step event = some sys') : sys'.Synced := by
  cases event with
  | incremental data =>
      obtain ⟨⟨consumer, arrival?⟩, hoffer, hrest⟩ := Option.bind_eq_some_iff.mp hstep
      obtain rfl := Option.some.inj hrest
      refine ⟨hsynced.consistent.offer hoffer, fun hpast => ?_⟩
      have hsync := hsynced.past hpast
      exact MarketDataConsumer.synchronized_offer hsync (hsynced.consistent.synchronized hsync)
        (hgate hpast) hoffer
  | tcp received =>
      obtain ⟨consumer, hconsumer, hrest⟩ := Option.bind_eq_some_iff.mp hstep
      obtain rfl := Option.some.inj hrest
      refine ⟨hsynced.consistent.step_tcp hconsumer, fun hpast => ?_⟩
      have hsync := hsynced.past hpast
      -- Outside of a recovery the socket is not read.
      rw [MarketDataConsumer.step, hsynced.consistent.synchronized hsync] at hconsumer
      obtain rfl := Option.some.inj hconsumer
      exact hsync
  | engine =>
      have hconsumer := consumer_engineStep hstep
      refine ⟨hconsumer ▸ hsynced.consistent, fun hpast => ?_⟩
      rw [hconsumer]
      cases hflag : sys.consumer.marketDataSynchronized with
      | true => rfl
      | false =>
          obtain rfl := Option.some.inj ((hsynced.held hflag).symm.trans hstep)
          exact hflag ▸ hsynced.past hpast
  | respond response =>
      obtain rfl := Option.some.inj hstep
      exact ⟨hsynced.consistent, hsynced.past⟩
  | takeRequest =>
      obtain rfl := Option.some.inj hstep
      exact ⟨hsynced.consistent, hsynced.past⟩

theorem Synced.gated (hsynced : sys.Synced) : sys.Gated event := by
  rintro rfl hcleared sys' hstep
  rw [Option.some.inj ((hsynced.held hcleared).symm.trans hstep)]

omit [ObjectPool π] [FeatureEngine F] [Strategy S F cap] in
theorem synced_start (engine : TradeEngine S F π cap) : (start engine).Synced :=
  ⟨MarketDataConsumer.consistent_start, fun hpast => absurd rfl hpast⟩

/-- **Nothing is sent unsynchronized** in any interleaving in which no gap shows while the engine is past
the gate. -/
theorem gated_along (engine : TradeEngine S F π cap) {events : List Event}
    (halong : Run.Along step GateHolds (start engine) events) :
    Run.Along step Gated (start engine) events :=
  Run.Along.of_invariant Synced (fun _ _ _ hsynced hgate hstep => synced_step hsynced hgate hstep)
    (fun _ _ hsynced _ => hsynced.gated) (synced_start engine) halong

/-- The engine of `main` with one ticker. -/
def takerEngine : TradeEngine LiquidityTaker TradingFeatures FreeListPool ⟨16, 64, 256⟩ :=
  ((TradeEngine.init { orderQty := 10, entryImbalance := 300000 } 1 4 16).registerTicker 0 7
    ⟨100, 10, 100000000⟩).2

def offerMsg (ref qty : UInt8) : List UInt8 :=
  [65, 0, 7] ++ List.replicate 15 0 ++ [ref, 83, 0, 0, 0, qty] ++ List.replicate 11 0 ++ [101]

/-- A snapshot in which the bid is the larger side, without its first byte. -/
def quotedSnapshot : List UInt8 :=
  (markerMsg 0xBB 0).tail ++ addMsg 1 9 ++ offerMsg 2 1 ++ markerMsg 0xEE 0

/-- The engine passes the gate and pops all of the snapshot but its end. -/
def drainingRun : List Event :=
  .tcp (.data 68 quotedSnapshot) :: List.replicate 5 .engine

/-- The next update arrives while the engine drains. -/
def inOrderRun : List Event :=
  drainingRun ++ [.incremental (feedFrame 1 (addMsg 3 1)), .engine, .takeRequest, .engine, .engine,
    .incremental (feedFrame 4 (addMsg 4 1)), .engine, .engine]

theorem gated_along_inOrderRun :
    (inOrderRun.foldlM step (start takerEngine)).any (fun sys =>
        !sys.consumer.marketDataSynchronized && sys.phase == .gate && sys.popped == 5
          && sys.engine.orderRequests.length == 1) = true
      ∧ Run.Along step Gated (start takerEngine) inOrderRun :=
  ⟨by decide +kernel, gated_along takerEngine (by decide +kernel)⟩

/-- An update behind a missing one arrives while the engine drains. -/
def gapRun : List Event :=
  drainingRun ++ [.incremental (feedFrame 3 (addMsg 3 1))]

/-- **The end of the snapshot is popped after the flag has been cleared**, and an order is sent. -/
theorem sends_unsynchronized :
    ∃ sys sys', gapRun.foldlM step (start takerEngine) = some sys
      ∧ sys.consumer.marketDataSynchronized = false
      ∧ sys.step .engine = some sys'
      ∧ sys.engine.orderRequests = []
      ∧ sys'.engine.orderRequests = [⟨.new, 1, 0, 7, .buy, 101, 10, true⟩] := by
  have hrun : (gapRun.foldlM step (start takerEngine)).any (fun sys =>
      sys.consumer.marketDataSynchronized = false && sys.engine.orderRequests = []
        && (sys.step .engine).any (fun sys' =>
          sys'.engine.orderRequests = [⟨.new, 1, 0, 7, .buy, 101, 10, true⟩])) = true := by
    decide +kernel
  obtain ⟨sys, hrun, hcheck⟩ := (Option.any_eq_true _ _).mp hrun
  simp only [Bool.and_eq_true, decide_eq_true_eq] at hcheck
  obtain ⟨⟨hcleared, hempty⟩, hstep⟩ := hcheck
  obtain ⟨sys', hstep, hsent⟩ := (Option.any_eq_true _ _).mp hstep
  exact ⟨sys, sys', hrun, hcleared, hstep, hempty, of_decide_eq_true hsent⟩

/-! ### An iteration of the engine -/

theorem engine_drains_responses (hphase : sys.phase = .responses) :
    (List.replicate (sys.orderResponses.length + 1) Event.engine).foldlM step sys =
      some { sys with
        phase := .updates
        engine := sys.engine.drainResponses sys.orderResponses
        orderResponses := [] } := by
  induction hresponses : sys.orderResponses generalizing sys with
  | nil => simp [step, engineStep, hphase, hresponses, TradeEngine.drainResponses]
  | cons response rest ih =>
      have hstep : sys.step .engine = some { sys with
          engine := sys.engine.processResponse response, orderResponses := rest } := by
        simp only [step, engineStep, hphase, hresponses]
      rw [List.length_cons, List.replicate_succ, List.foldlM_cons, hstep]
      exact ih hphase rfl

theorem engine_drains_updates (hphase : sys.phase = .updates) :
    (List.replicate (sys.marketUpdates.length + 1) Event.engine).foldlM step sys =
      (sys.engine.drainMarketUpdates sys.marketUpdates).map fun engine => { sys with
        phase := .gate
        engine := engine
        popped := sys.popped + sys.marketUpdates.length } := by
  induction hupdates : sys.marketUpdates generalizing sys with
  | nil => simp [step, engineStep, hphase, hupdates, TradeEngine.drainMarketUpdates]
  | cons update rest ih =>
      have hstep : sys.step .engine = (sys.engine.processUpdate update).map fun engine =>
          { sys with engine := engine, popped := sys.popped + 1 } := by
        simp only [step, engineStep, hphase, hupdates]
        exact Option.map_eq_bind.symm
      rw [List.length_cons, List.replicate_succ, List.foldlM_cons, hstep,
        TradeEngine.drainMarketUpdates, List.foldlM_cons]
      cases sys.engine.processUpdate update with
      | none => rfl
      | some engine =>
          have hrest : ({ sys with engine := engine, popped := sys.popped + 1 } :
              TradingSystem S F π cap).marketUpdates = rest := by
            unfold marketUpdates at hupdates ⊢
            rw [← List.drop_drop, List.map_drop, hupdates]
            rfl
          have hdrains := @ih { sys with engine := engine, popped := sys.popped + 1 } hphase hrest
          rw [show sys.popped + (rest.length + 1) = sys.popped + 1 + rest.length by omega]
          exact hdrains

/-- **Left alone past the gate**, the engine does what `runOnce` does. -/
theorem engine_runs_once (hphase : sys.phase = .gate)
    (hsync : sys.consumer.marketDataSynchronized = true) :
    (List.replicate (sys.orderResponses.length + sys.marketUpdates.length + 3)
        Event.engine).foldlM step sys =
      (sys.engine.runOnce sys.orderResponses sys.marketUpdates).map fun engine => { sys with
        engine := engine
        popped := sys.popped + sys.marketUpdates.length
        orderResponses := [] } := by
  have hopen : sys.step .engine =
      some { sys with phase := .responses, engine := { sys.engine with result := {} } } := by
    simp only [step, engineStep, hphase, hsync, if_true]
  rw [show sys.orderResponses.length + sys.marketUpdates.length + 3 =
      (sys.orderResponses.length + 1 + (sys.marketUpdates.length + 1)) + 1 by omega,
    List.replicate_succ, List.foldlM_cons, hopen, List.replicate_add]
  have hresponses := @engine_drains_responses S F π cap _ _ _
    { sys with phase := .responses, engine := { sys.engine with result := {} } } rfl
  have hupdates := @engine_drains_updates S F π cap _ _ _
    { sys with
      phase := .updates
      engine := { sys.engine with result := {} }.drainResponses sys.orderResponses
      orderResponses := [] } rfl
  simp only [List.foldlM_append, Option.bind_eq_bind, Option.bind_some] at hresponses hupdates ⊢
  rw [hresponses, Option.bind_some]
  refine hupdates.trans ?_
  rw [← hphase]
  rfl

end TradingSystem

end AlphaTrader
