import AlphaTrader.MarketDataConsumer
import AlphaTrader.Trading.TradeEngine

/-!
# The threads together

The consumer and the engine as `src/main.cpp` connects them: the market data queue, the flag
`market_data_synchronized` that gates the engine, and the two queues of the gateway. A step of the
engine is the check of the gate, the pop and processing of one response or of one update, or finding a
queue empty; the sleeps are steps not taken.
-/

namespace AlphaTrader

/-- Where the engine is in `run`: before the check of the gate, or in one of the two drain loops. -/
inductive EnginePhase where
  | gate
  | responses
  | updates
  deriving DecidableEq, Repr

structure TradingSystem (S F π : Type) (cap : Capacity) where
  consumer : MarketDataConsumer
  engine : TradeEngine S F π cap
  phase : EnginePhase := .gate
  /-- How many of the updates pushed by the consumer the engine has popped. -/
  popped : Nat := 0
  orderResponses : List OrderResponse := []

namespace TradingSystem

variable {S F π : Type} {cap : Capacity} [ObjectPool π] [FeatureEngine F] [Strategy S F cap]

/-- The market data queue. -/
def marketUpdates (sys : TradingSystem S F π cap) : List MarketUpdate :=
  (sys.consumer.incomingMdUpdates.drop sys.popped).map Arrival.update

inductive Event where
  /-- The consumer takes the frame at the head of its unused bytes. -/
  | incremental (data : List UInt8)
  | tcp (received : MarketDataConsumer.TcpRead)
  | engine
  | respond (response : OrderResponse)
  | takeRequest

def engineStep (sys : TradingSystem S F π cap) : Option (TradingSystem S F π cap) :=
  match sys.phase with
  | .gate =>
      some (if sys.consumer.marketDataSynchronized then
        { sys with phase := .responses, engine := { sys.engine with result := {} } }
      else sys)
  | .responses =>
      match sys.orderResponses with
      | [] => some { sys with phase := .updates }
      | response :: rest =>
          some { sys with engine := sys.engine.processResponse response, orderResponses := rest }
  | .updates =>
      match sys.marketUpdates with
      | [] => some { sys with phase := .gate }
      | update :: _ => do
          let engine ← sys.engine.processUpdate update
          return { sys with engine := engine, popped := sys.popped + 1 }

/-- The steps of the consumer, the engine and the gateway, in any order. -/
def step (sys : TradingSystem S F π cap) : Event → Option (TradingSystem S F π cap)
  | .incremental data => do
      let (consumer, arrival) ← sys.consumer.offer .feed data
      return { sys with consumer := arrival.elim consumer consumer.processIncremental }
  | .tcp received => do
      let consumer ← sys.consumer.step (.tcp received)
      return { sys with consumer := consumer }
  | .engine => sys.engineStep
  | .respond response => some { sys with orderResponses := sys.orderResponses ++ [response] }
  | .takeRequest =>
      some { sys with engine :=
        { sys.engine with orderRequests := sys.engine.orderRequests.drop 1 } }

/-- Both threads before their first step. -/
def start (engine : TradeEngine S F π cap) : TradingSystem S F π cap :=
  { consumer := .start, engine := engine }

end TradingSystem

end AlphaTrader
