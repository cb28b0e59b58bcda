import AlphaTrader.Trading.OrderManager

/-!
# A slot and the exchange

The other party of `src/order_gateway/order_gateway.cpp`: an exchange that works the requests of a
slot in the order in which they were sent and answers through one channel. What it decides is left
open. It opens new orders or refuses them, moves what is open of an order to the id of a replace,
takes cancelled shares off an order, and executes at most what is open. The gateway passes both
channels on as they are, so the outgoing queue of the slot is the request channel.
-/

namespace AlphaTrader

/-- What is open of an order on the exchange. -/
structure ExchangeOrder where
  tickerId : TickerId
  side : Side
  openQty : Nat
  deriving DecidableEq, Repr

/-- The open orders by id. -/
abbrev Exchange := OrderId → Option ExchangeOrder

/-- A response, with the ticker and the side that the exchange has for its order. -/
structure Report where
  response : OrderResponse
  tickerId : TickerId
  side : Side
  deriving DecidableEq, Repr

/-- What the exchange decides about a request. -/
inductive Verdict where
  | accept
  | refuse
  | ignore
  | cancel (qty : Quantity)

namespace Exchange

/-- A new order opens, and a replace moves what is open to the new id. -/
def enroll (exchange : Exchange) (request : OrderRequest) : Exchange :=
  match request.type with
  | .new =>
      Function.update exchange request.clientOrderId
        (some ⟨request.tickerId, request.side, request.qty.toNat⟩)
  | .cancel => exchange
  | .replace =>
      match exchange request.clientOrderId with
      | none => exchange
      | some order =>
          Function.update (Function.update exchange request.clientOrderId none)
            request.newClientOrderId (some order)

/-- Takes shares off an order, which is gone when nothing is open. -/
def reduce (exchange : Exchange) (id : OrderId) (order : ExchangeOrder) (qty : Nat) : Exchange :=
  Function.update exchange id
    (if order.openQty ≤ qty then none else some { order with openQty := order.openQty - qty })

/-- The exchange after a request and what it answers, if the verdict is one it can give. A replace of
an open order is never refused. -/
def handle (exchange : Exchange) (request : OrderRequest) (verdict : Verdict) :
    Option (Exchange × List OrderResponse) :=
  match request.type, verdict with
  | .new, .accept =>
      some (exchange.enroll request,
        [{ clientOrderId := request.clientOrderId, status := .accepted }])
  | .new, .refuse =>
      some (exchange, [{ clientOrderId := request.clientOrderId, status := .rejected }])
  | .cancel, .cancel qty =>
      match exchange request.clientOrderId with
      | none => none
      | some order =>
          if qty = 0 ∨ order.openQty < qty.toNat then none
          else
            some (exchange.reduce request.clientOrderId order qty.toNat,
              [{ clientOrderId := request.clientOrderId, canceledQty := qty, status := .canceled }])
  | .cancel, .refuse =>
      some (exchange, [{ clientOrderId := request.clientOrderId, status := .cancelRejected }])
  | .cancel, .ignore => some (exchange, [])
  | .replace, .accept =>
      if exchange request.clientOrderId = none then none
      else
        some (exchange.enroll request,
          [{ clientOrderId := request.newClientOrderId, status := .accepted }])
  | .replace, .refuse =>
      if exchange request.clientOrderId = none then
        some (exchange, [{ clientOrderId := request.newClientOrderId, status := .rejected }])
      else none
  | .replace, .ignore => if exchange request.clientOrderId = none then some (exchange, []) else none
  | _, _ => none

end Exchange

/-- A slot, the exchange, the responses on their way, and all that has been executed. -/
structure Market (cap : Capacity) where
  client : Slot cap
  exchange : Exchange := fun _ => none
  responses : List Report := []
  executed : List Report := []

namespace Market

variable {cap : Capacity}

inductive Event where
  | client (op : Slot.Op)
  | process (verdict : Verdict)
  | execute (id : OrderId) (qty : Quantity) (price : Price)
  | deliver

/-- An execution is reported under the id that the order has when it executes. -/
def executionReport (id : OrderId) (order : ExchangeOrder) (qty : Quantity) (price : Price) : Report :=
  ⟨{ clientOrderId := id, executedQty := qty, executionPrice := price, status := .executed },
    order.tickerId, order.side⟩

/-- The slot gets its responses from the channel only. -/
def step (m : Market cap) : Event → Option (Market cap)
  | .client (.onOrderResponse _) => none
  | .client op => some { m with client := m.client.step op }
  | .process verdict =>
      match m.client.outgoing with
      | [] => none
      | request :: rest =>
          match m.exchange.handle request verdict with
          | none => none
          | some (exchange, responses) =>
              some { m with
                client := { m.client with outgoing := rest }
                exchange := exchange
                responses := m.responses ++
                  responses.map fun response => ⟨response, request.tickerId, request.side⟩ }
  | .execute id qty price =>
      match m.exchange id with
      | none => none
      | some order =>
          if qty = 0 ∨ order.openQty < qty.toNat then none
          else
            some { m with
              exchange := m.exchange.reduce id order qty.toNat
              responses := m.responses ++ [executionReport id order qty price]
              executed := m.executed ++ [executionReport id order qty price] }
  | .deliver =>
      match m.responses with
      | [] => none
      | report :: rest =>
          some { m with
            client := m.client.step (.onOrderResponse report.response)
            responses := rest }

/-- The shares that a report adds to the position in a ticker. -/
def sharesOf (ticker : TickerId) (report : Report) : Int :=
  if report.response.status = .executed ∧ report.tickerId = ticker then
    report.side.signed report.response.executedQty
  else 0

/-- The signed sum of the executions of a ticker. -/
def shares (ticker : TickerId) (reports : List Report) : Int := (reports.map (sharesOf ticker)).sum

end Market

end AlphaTrader
