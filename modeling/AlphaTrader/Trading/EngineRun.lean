import AlphaTrader.Trading.TradeEngine

/-!
# The engine from the outside

What the rest of the program does with an engine: `src/main.cpp` builds it, registers tickers and may give
slots a strategy of their own; then the engine drains its queues, the gateway takes requests, and whoever
holds a slot's risk manager may use the kill switch. The lookups are those of the public interface.
-/

namespace AlphaTrader

namespace TradeEngine

variable {S F π : Type} {cap : Capacity}

/-! ### Lookups -/

/-- The shared book of a ticker. -/
def book (engine : TradeEngine S F π cap) (ticker : TickerId) : Option (MarketOrderBook π) :=
  (engine.findTicker ticker).map fun found => found.2.book

/-- The features that a slot has for a ticker. -/
def features (engine : TradeEngine S F π cap) (index : Nat) (ticker : TickerId) : Option F :=
  engine.slots[index]?.bind fun slot => (findEntry slot ticker).map fun found => found.2.features

def bookCount (engine : TradeEngine S F π cap) : Nat := engine.tickers.length

/-- The order manager of a slot with its risk manager and positions, `orders(slot)`, `risk(slot)` and
`pnl(slot)`. -/
def orders (engine : TradeEngine S F π cap) (index : Nat) : Option (Slot cap) :=
  engine.slots[index]?.map engine.manager

/-! ### Before the engine runs -/

inductive Preparation (S : Type) where
  | registerTicker (slot : Nat) (ticker : TickerId) (limits : RiskLimits)
  | setStrategy (slot : Nat) (strategy : S)

section Preparation

variable [ObjectPool π] [FeatureEngine F]

def prepare (engine : TradeEngine S F π cap) : Preparation S → TradeEngine S F π cap
  | .registerTicker slot ticker limits => (engine.registerTicker slot ticker limits).2
  | .setStrategy slot strategy => engine.setStrategy slot strategy

/-- An engine that has been built and prepared, and has not run. -/
def prepared (strategy : S) (slotCount maxSlots requestCapacity : Nat)
    (preparations : List (Preparation S)) : TradeEngine S F π cap :=
  preparations.foldl prepare (init strategy slotCount maxSlots requestCapacity)

end Preparation

/-! ### While the engine runs -/

/-- The parts of `runOnce`, the gateway that takes a request off the queue, and the kill switch of a
slot. -/
inductive Action where
  | runOnce
  | response (response : OrderResponse)
  | update (update : MarketUpdate)
  | takeRequest
  | disableTrading (slot : Nat)
  | enableTrading (slot : Nat)

/-- A write to the risk manager of a slot. -/
def setRisk (engine : TradeEngine S F π cap) (index : Nat) (f : RiskManager cap → RiskManager cap) :
    TradeEngine S F π cap :=
  match engine.slots[index]? with
  | none => engine
  | some slot => engine.setSlot index { slot with om := { slot.om with risk := f slot.om.risk } }

variable [ObjectPool π] [FeatureEngine F] [Strategy S F cap]

def act (engine : TradeEngine S F π cap) : Action → Option (TradeEngine S F π cap)
  | .runOnce => some { engine with result := {} }
  | .response response => some (engine.processResponse response)
  | .update update => engine.processUpdate update
  | .takeRequest => some { engine with orderRequests := engine.orderRequests.tail }
  | .disableTrading slot => some (engine.setRisk slot RiskManager.disableTrading)
  | .enableTrading slot => some (engine.setRisk slot RiskManager.enableTrading)

end TradeEngine

end AlphaTrader
