import AlphaTrader.Trading.Strategy

/-!
# The trade engine

`src/trading/trade_engine.h`: one thread drives the strategy slots. The slots share the books, the id
allocator and the request queue, so a slot works on the engine's allocator and queue and hands them
back. An update yields `none` where the book would read through a dangling pointer.
-/

namespace AlphaTrader

structure StrategyRunResult where
  marketUpdates : Nat := 0
  responses : Nat := 0
  ordersSubmitted : Nat := 0
  rejectedResponses : Nat := 0
  deriving DecidableEq, Repr

structure TickerBook (π : Type) where
  tickerId : TickerId
  book : MarketOrderBook π

structure EngineSlot (S F : Type) (cap : Capacity) where
  strategy : S
  om : Slot cap
  entries : List (Entry F) := []

structure TradeEngine (S F π : Type) (cap : Capacity) where
  slots : List (EngineSlot S F cap) := []
  tickers : List (TickerBook π) := []
  allocator : OrderIdAllocator := {}
  /-- The requests that the gateway has not taken yet. -/
  orderRequests : List OrderRequest := []
  requestCapacity : Nat := 0
  /-- What the current `runOnce` has counted. -/
  result : StrategyRunResult := {}

namespace TradeEngine

variable {S F π : Type} {cap : Capacity} [ObjectPool π] [FeatureEngine F] [Strategy S F cap]

/-- The engine of a number of slots, all with the same strategy. -/
def init (strategy : S) (slotCount maxSlots requestCapacity : Nat) : TradeEngine S F π cap :=
  { slots := (List.range (min slotCount maxSlots)).map fun i => { strategy, om := { slot := i } }
    allocator := { slotCount := slotCount }
    requestCapacity := requestCapacity }

/-! ### Registration -/

def findTicker (engine : TradeEngine S F π cap) (ticker : TickerId) : Option (Nat × TickerBook π) :=
  Table.find TickerBook.tickerId ticker engine.tickers

def findEntry (slot : EngineSlot S F cap) (ticker : TickerId) : Option (Nat × Entry F) :=
  Table.find Entry.tickerId ticker slot.entries

def findOrCreateTicker (engine : TradeEngine S F π cap) (ticker : TickerId) :
    Option (TradeEngine S F π cap) :=
  if (engine.findTicker ticker).isSome then some engine
  else if engine.tickers.length = cap.maxTickers then none
  else some { engine with tickers := engine.tickers ++ [⟨ticker, MarketOrderBook.init π ticker⟩] }

def setSlot (engine : TradeEngine S F π cap) (index : Nat) (slot : EngineSlot S F cap) :
    TradeEngine S F π cap :=
  { engine with slots := engine.slots.set index slot }

def registerTicker (engine : TradeEngine S F π cap) (index : Nat) (ticker : TickerId)
    (limits : RiskLimits) : Bool × TradeEngine S F π cap :=
  match engine.slots[index]? with
  | none => (false, engine)
  | some slot =>
      if (findEntry slot ticker).isSome ∨ slot.entries.length = cap.maxTickers then (false, engine)
      else
        match engine.findOrCreateTicker ticker with
        | none => (false, engine)
        | some engine =>
            match slot.om.pnl.registerTicker ticker with
            | none => (false, engine)
            | some pnl =>
                let slot := { slot with om := { slot.om with pnl := pnl } }
                match slot.om.risk.registerTicker ticker limits with
                | none => (false, engine.setSlot index slot)
                | some risk =>
                    (true, engine.setSlot index { slot with
                      om := { slot.om with risk := risk }
                      entries := slot.entries ++ [⟨ticker, FeatureEngine.fresh⟩] })

/-- Replaces the strategy of one slot. -/
def setStrategy (engine : TradeEngine S F π cap) (index : Nat) (strategy : S) : TradeEngine S F π cap :=
  match engine.slots[index]? with
  | none => engine
  | some slot => engine.setSlot index { slot with strategy := strategy }

/-! ### Responses and updates -/

/-- The order manager of a slot, with what it shares with the other slots. -/
def manager (engine : TradeEngine S F π cap) (slot : EngineSlot S F cap) : Slot cap :=
  { slot.om with allocator := engine.allocator, outgoing := engine.orderRequests }

/-- A slot after its order manager has worked. -/
def handBack (engine : TradeEngine S F π cap) (index : Nat) (slot : EngineSlot S F cap) :
    TradeEngine S F π cap :=
  { engine.setSlot index slot with
    allocator := slot.om.allocator
    orderRequests := slot.om.outgoing }

/-- One pass of `drainResponses`. -/
def processResponse (engine : TradeEngine S F π cap) (response : OrderResponse) :
    TradeEngine S F π cap :=
  let result := { engine.result with responses := engine.result.responses + 1 }
  let rejected := { result with rejectedResponses := result.rejectedResponses + 1 }
  let index := engine.allocator.ownerOf response.clientOrderId
  match engine.slots[index]? with
  | none => { engine with result := rejected }
  | some slot =>
      let (taken, om) := (engine.manager slot).onOrderResponse response
      { engine.handBack index { slot with om := om } with
        result := if taken then result else rejected }

def processSlotUpdate (engine : TradeEngine S F π cap) (index : Nat) (ticker : TickerBook π)
    (update : MarketUpdate) : TradeEngine S F π cap :=
  match engine.slots[index]? with
  | none => engine
  | some slot =>
      match findEntry slot ticker.tickerId with
      | none => engine
      | some (place, entry) =>
          let entry := { entry with
            features := FeatureEngine.onMarketUpdate entry.features update ticker.book }
          let mark := FeatureEngine.mktPrice entry.features
          let om := engine.manager slot
          let om := { om with
            pnl := if mark = priceInvalid then om.pnl
              else (om.pnl.onMark ticker.tickerId mark).getD om.pnl }
          let slot := { slot with entries := slot.entries.set place entry }
          if ticker.book.inSnapshot then engine.handBack index { slot with om := om }
          else
            let hasRoom := fun requests => decide (requests.length < engine.requestCapacity)
            let (sent, strategy, om) :=
              if update.type = .execute then
                Strategy.onTrade hasRoom slot.strategy entry ticker.book update om
              else Strategy.onBookUpdate hasRoom slot.strategy entry ticker.book update om
            { engine.handBack index { slot with strategy := strategy, om := om } with
              result := { engine.result with
                ordersSubmitted := engine.result.ordersSubmitted + sent } }

def processBookUpdate (engine : TradeEngine S F π cap) (update : MarketUpdate) (place : Nat) :
    Option (TradeEngine S F π cap) := do
  let ticker ← engine.tickers[place]?
  let book ← ticker.book.applyUpdate ticker.book.trackedOrders update
  let ticker := { ticker with book := book }
  let engine := { engine with tickers := engine.tickers.set place ticker }
  return (List.range engine.slots.length).foldl
    (fun engine index => engine.processSlotUpdate index ticker update) engine

/-- The markers go to every book. -/
def isMarker (type : UpdateType) : Bool :=
  type = .snapshotStart || type = .snapshotClear || type = .snapshotEnd

/-- One pass of `drainMarketUpdates`. -/
def processUpdate (engine : TradeEngine S F π cap) (update : MarketUpdate) :
    Option (TradeEngine S F π cap) :=
  let engine := { engine with
    result := { engine.result with marketUpdates := engine.result.marketUpdates + 1 } }
  if isMarker update.type then
    (List.range engine.tickers.length).foldlM (fun engine => engine.processBookUpdate update) engine
  else
    match engine.findTicker update.tickerId with
    | none => some engine
    | some (place, _) => engine.processBookUpdate update place

def drainResponses (engine : TradeEngine S F π cap) (responses : List OrderResponse) :
    TradeEngine S F π cap :=
  responses.foldl processResponse engine

def drainMarketUpdates (engine : TradeEngine S F π cap) (updates : List MarketUpdate) :
    Option (TradeEngine S F π cap) :=
  updates.foldlM processUpdate engine

/-- A run over what the two queues hold, as nothing is added while it lasts. -/
def runOnce (engine : TradeEngine S F π cap) (responses : List OrderResponse)
    (updates : List MarketUpdate) : Option (TradeEngine S F π cap) :=
  ({ engine with result := {} }.drainResponses responses).drainMarketUpdates updates

end TradeEngine

end AlphaTrader
