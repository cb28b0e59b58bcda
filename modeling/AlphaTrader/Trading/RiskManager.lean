import AlphaTrader.Trading.PnLTracker

/-!
# Risk limits and reservations

`src/trading/risk_manager.h`: an order is checked against the limits of its ticker, counting what is
already reserved, and reserves its own quantity until responses release it. The pending table is an
array with a count; erasing an entry moves the last one into its place.
-/

namespace AlphaTrader

inductive RiskResult where
  | accepted
  | tradingDisabled
  | invalidRequest
  | unknownTicker
  | duplicateOrder
  | pendingCapacityExceeded
  | orderQtyExceeded
  | orderNotionalExceeded
  | positionLimitExceeded
  deriving DecidableEq, Repr

structure RiskLimits where
  maxAbsPosition : Int := 0
  maxOrderQty : Quantity := 0
  maxOrderNotional : Int := 0
  deriving DecidableEq, Repr

structure TickerLimits where
  tickerId : TickerId := tickerIdInvalid
  limits : RiskLimits
  deriving DecidableEq, Repr

structure PendingOrder where
  clientOrderId : OrderId := 0
  tickerId : TickerId := tickerIdInvalid
  side : Side := .buy
  reservedQty : Quantity := 0
  deriving DecidableEq, Repr

structure RiskManager (cap : Capacity) where
  tickers : List TickerLimits := []
  pending : List PendingOrder := []
  tradingEnabled : Bool := true

namespace RiskManager

variable {cap : Capacity}

def findTicker (risk : RiskManager cap) (ticker : TickerId) : Option RiskLimits :=
  (Table.find TickerLimits.tickerId ticker risk.tickers).map fun found => found.2.limits

/-- The reservation of an order, and where it is. -/
def findPending (risk : RiskManager cap) (id : OrderId) : Option (Nat × PendingOrder) :=
  Table.find PendingOrder.clientOrderId id risk.pending

def registerTicker (risk : RiskManager cap) (ticker : TickerId) (limits : RiskLimits) :
    Option (RiskManager cap) :=
  if limits.maxAbsPosition < 0 ∨ limits.maxOrderNotional < 0 then none
  else if (risk.findTicker ticker).isSome then none
  else if risk.tickers.length = cap.maxTickers then none
  else some { risk with tickers := risk.tickers ++ [⟨ticker, limits⟩] }

def disableTrading (risk : RiskManager cap) : RiskManager cap := { risk with tradingEnabled := false }

def enableTrading (risk : RiskManager cap) : RiskManager cap := { risk with tradingEnabled := true }

/-- What one reservation adds to the exposure in a ticker. -/
def exposureOf (ticker : TickerId) (pending : PendingOrder) : Int :=
  if pending.tickerId = ticker then pending.side.signed pending.reservedQty else 0

def pendingExposure (risk : RiskManager cap) (ticker : TickerId) : Int :=
  (risk.pending.map (exposureOf ticker)).sum

def pendingCount (risk : RiskManager cap) : Nat := risk.pending.length

def canSubmit (risk : RiskManager cap) (request : OrderRequest) (position : Position) :
    RiskResult :=
  if ¬ risk.tradingEnabled then .tradingDisabled
  else if request.type ≠ .new ∨ request.clientOrderId = 0 ∨ request.tickerId = tickerIdInvalid
      ∨ request.price = priceInvalid ∨ request.price < 0 ∨ request.qty = 0 then .invalidRequest
  else
    match risk.findTicker request.tickerId with
    | none => .unknownTicker
    | some limits =>
        if (risk.findPending request.clientOrderId).isSome then .duplicateOrder
        else if risk.pending.length = cap.maxPendingOrders then .pendingCapacityExceeded
        else if limits.maxOrderQty < request.qty then .orderQtyExceeded
        else if limits.maxOrderNotional < request.price.toInt * request.qty.toNat then
          .orderNotionalExceeded
        else
          let projected := position.netQty + risk.pendingExposure request.tickerId
            + request.side.signed request.qty
          if projected < -limits.maxAbsPosition ∨ limits.maxAbsPosition < projected then
            .positionLimitExceeded
          else .accepted

def onSubmitted (risk : RiskManager cap) (request : OrderRequest) : Option (RiskManager cap) :=
  if (risk.findPending request.clientOrderId).isSome ∨ risk.pending.length = cap.maxPendingOrders then
    none
  else
    some { risk with
      pending := risk.pending ++
        [⟨request.clientOrderId, request.tickerId, request.side, request.qty⟩] }

def onReplaced (risk : RiskManager cap) (oldId newId : OrderId) : Option (RiskManager cap) :=
  if newId = 0 ∨ (risk.findPending newId).isSome then none
  else do
    let (index, pending) ← risk.findPending oldId
    return { risk with
      pending := risk.pending.set index { pending with clientOrderId := newId } }

/-- `pending_[index] = pending_[--pending_count_]` -/
def erasePending (risk : RiskManager cap) (index : Nat) : RiskManager cap :=
  { risk with pending := Table.removeAt risk.pending index }

/-- Takes quantity off a reservation, which leaves the table when nothing remains. -/
def release (risk : RiskManager cap) (index : Nat) (pending : PendingOrder) (qty : Quantity) :
    RiskManager cap :=
  let reserved := pending.reservedQty - qty
  let risk := { risk with pending := risk.pending.set index { pending with reservedQty := reserved } }
  if reserved = 0 then risk.erasePending index else risk

def onOrderResponse (risk : RiskManager cap) (response : OrderResponse) (pnl : PnLTracker cap) :
    Option (RiskManager cap × PnLTracker cap) := do
  let (index, pending) ← risk.findPending response.clientOrderId
  match response.status with
  | .accepted | .cancelRejected => return (risk, pnl)
  | .executed =>
      if response.executedQty = 0 ∨ pending.reservedQty < response.executedQty then none
      else
        let pnl ← pnl.onExecution pending.tickerId pending.side response.executionPrice
          response.executedQty
        return (risk.release index pending response.executedQty, pnl)
  | .canceled =>
      if response.canceledQty = 0 ∨ pending.reservedQty < response.canceledQty then none
      else return (risk.release index pending response.canceledQty, pnl)
  | .rejected => return (risk.erasePending index, pnl)

end RiskManager

end AlphaTrader
