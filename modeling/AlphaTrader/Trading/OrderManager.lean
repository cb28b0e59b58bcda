import AlphaTrader.Trading.RiskManager

/-!
# The orders of a strategy slot

`src/trading/order_manager.h` with the risk manager, the positions, the id allocator and the outgoing
queue it works on. The recorded orders are the first `count_` entries of the array. Whether the
outgoing queue takes a request is an input of each operation, as the other side drains it.
-/

namespace AlphaTrader

inductive OMOrderState where
  | invalid
  | notActive
  | active
  | partiallyFilled
  | completed
  | cancelled
  | dead
  deriving DecidableEq, Repr

namespace OMOrderState

/-- The states whose slots are reused. -/
def Finished (state : OMOrderState) : Prop :=
  state = completed ∨ state = cancelled ∨ state = dead

instance (state : OMOrderState) : Decidable state.Finished := inferInstanceAs (Decidable (_ ∨ _))

/-- The states that `activeCount` counts. -/
def Live (state : OMOrderState) : Prop :=
  state = active ∨ state = partiallyFilled ∨ state = notActive

instance (state : OMOrderState) : Decidable state.Live := inferInstanceAs (Decidable (_ ∨ _))

@[simp]
theorem live_notActive : notActive.Live := by decide

@[simp]
theorem live_partiallyFilled : partiallyFilled.Live := by decide

@[simp]
theorem finished_completed : completed.Finished := by decide

@[simp]
theorem finished_cancelled : cancelled.Finished := by decide

@[simp]
theorem finished_dead : dead.Finished := by decide

theorem Finished.not_live {state : OMOrderState} (hfinished : state.Finished) : ¬ state.Live := by
  cases state <;> revert hfinished <;> decide

end OMOrderState

structure OMOrder where
  request : OrderRequest
  state : OMOrderState := .invalid
  isCancelRequested : Bool := false
  isCancelRejected : Bool := false
  filledQty : Quantity := 0
  avgFillPrice : Price := priceInvalid
  deriving DecidableEq, Repr

def OMOrder.id (order : OMOrder) : OrderId := order.request.clientOrderId

/-- A strategy slot: its order manager and what the order manager points to. -/
structure Slot (cap : Capacity) where
  slot : Nat := 0
  orders : List OMOrder := []
  newOrders : Nat := 0
  replaces : Nat := 0
  cancels : Nat := 0
  fills : Nat := 0
  filledQty : UInt64 := 0
  rejected : Nat := 0
  allocator : OrderIdAllocator := {}
  risk : RiskManager cap := {}
  pnl : PnLTracker cap := {}
  outgoing : List OrderRequest := []

namespace Slot

variable {cap : Capacity}

/-- The recorded order with an id, and where it is. -/
def find (s : Slot cap) (id : OrderId) : Option (Nat × OMOrder) :=
  Table.find OMOrder.id id s.orders

/-- The first slot of a finished order, or the end of the recorded orders. -/
def allocSlot (s : Slot cap) : Nat := s.orders.findIdx fun order => order.state.Finished

/-- `orders_[slot] = order; if (slot == count_) ++count_;` -/
def placeOrder (s : Slot cap) (slot : Nat) (order : OMOrder) : List OMOrder :=
  if slot = s.orders.length then s.orders ++ [order] else s.orders.set slot order

/-- A write through the pointer that `find` returned. -/
def setOrder (s : Slot cap) (index : Nat) (order : OMOrder) : Slot cap :=
  { s with orders := s.orders.set index order }

def activeCount (s : Slot cap) : Nat := s.orders.countP fun order => order.state.Live

/-! ### Requests -/

def sendNewOrder (s : Slot cap) (request : OrderRequest) (position : Position) (room : Bool) :
    Bool × Slot cap :=
  let slot := s.allocSlot
  if slot = cap.maxOrders then (false, s)
  else
    let (id, allocator) := s.allocator.next s.slot
    let s := { s with allocator := allocator }
    let request := { request with clientOrderId := id, newClientOrderId := 0 }
    if s.risk.canSubmit request position ≠ .accepted then
      (false, { s with rejected := s.rejected + 1 })
    else if ¬ room then (false, s)
    else
      let s := { s with outgoing := s.outgoing ++ [request] }
      match s.risk.onSubmitted request with
      | none => (false, s)
      | some risk =>
          (true, { s with
            risk := risk
            newOrders := s.newOrders + 1
            orders := s.placeOrder slot { request := request, state := .notActive } })

def sendCancel (s : Slot cap) (id : OrderId) (qty : Quantity) (room : Bool) : Bool × Slot cap :=
  match s.find id with
  | some (index, order) =>
      if order.state.Finished ∨ order.isCancelRequested then (false, s)
      else if ¬ room then (false, s)
      else
        let cancel : OrderRequest := ⟨.cancel, id, 0, order.request.tickerId, order.request.side,
          order.request.price, qty, order.request.ioc⟩
        (true, { s.setOrder index { order with isCancelRequested := true } with
          outgoing := s.outgoing ++ [cancel]
          cancels := s.cancels + 1 })
  | none => (false, s)

/-- The request is on its way before the reservation is re-keyed. -/
def sendReplace (s : Slot cap) (id : OrderId) (price : Price) (qty : Quantity) (room : Bool) :
    Bool × Slot cap :=
  match s.find id with
  | some (index, order) =>
      if order.state.Finished ∨ order.isCancelRequested then (false, s)
      else
        let (newId, allocator) := s.allocator.next s.slot
        let s := { s with allocator := allocator }
        let replace : OrderRequest := ⟨.replace, id, newId, order.request.tickerId,
          order.request.side, price, qty, order.request.ioc⟩
        if ¬ room then (false, s)
        else
          let s := { s with outgoing := s.outgoing ++ [replace] }
          match s.risk.onReplaced id newId with
          | none => (false, s)
          | some risk =>
              let request := { replace with clientOrderId := newId, newClientOrderId := 0 }
              (true, { s.setOrder index { order with request := request } with
                risk := risk
                replaces := s.replaces + 1 })
  | none => (false, s)

/-! ### Responses -/

/-- The average over all fills, where `filled` includes the new one. -/
def averagePrice (order : OMOrder) (filled : Quantity) (response : OrderResponse) : Price :=
  if filled = response.executedQty then response.executionPrice
  else
    Int32.ofInt ((order.avgFillPrice.toInt * (filled - response.executedQty).toNat +
      response.executionPrice.toInt * response.executedQty.toNat).tdiv filled.toNat)

def onExecuted (s : Slot cap) (index : Nat) (order : OMOrder) (response : OrderResponse) :
    Bool × Slot cap :=
  if response.executedQty = 0 ∨ order.state.Finished then (false, s)
  else if order.request.qty.toNat < order.filledQty.toNat + response.executedQty.toNat then (false, s)
  else
    match s.risk.onOrderResponse response s.pnl with
    | none => (false, s.setOrder index { order with state := .dead })
    | some (risk, pnl) =>
        let filled := order.filledQty + response.executedQty
        (true, { s.setOrder index { order with
            filledQty := filled
            avgFillPrice := averagePrice order filled response
            state := if filled = order.request.qty then .completed else .partiallyFilled } with
          risk := risk
          pnl := pnl
          fills := s.fills + 1
          filledQty := s.filledQty + response.executedQty.toUInt64 })

/-- A cancel of no shares is not passed to the risk manager. -/
def onCanceled (s : Slot cap) (index : Nat) (order : OMOrder) (response : OrderResponse) :
    Bool × Slot cap :=
  if order.state = .completed ∨ order.state = .dead then (false, s)
  else
    let released :=
      if response.canceledQty = 0 then some (s.risk, s.pnl)
      else s.risk.onOrderResponse response s.pnl
    match released with
    | none => (false, s)
    | some (risk, pnl) =>
        (true, { s.setOrder index { order with
            isCancelRequested := false
            state := if order.filledQty = order.request.qty then .completed else .cancelled } with
          risk := risk
          pnl := pnl })

def onOrderResponse (s : Slot cap) (response : OrderResponse) : Bool × Slot cap :=
  match s.find response.clientOrderId with
  | some (index, order) =>
      match response.status with
      | .accepted =>
          if order.state = .notActive then
            (true, s.setOrder index { order with state := .active })
          else if order.state ≠ .active ∧ order.state ≠ .partiallyFilled then (false, s)
          else (true, s)
      | .executed => s.onExecuted index order response
      | .canceled => s.onCanceled index order response
      | .cancelRejected =>
          if order.state = .completed ∨ order.state = .dead then (false, s)
          else
            (true, s.setOrder index
              { order with isCancelRequested := false, isCancelRejected := true })
      | .rejected =>
          match s.risk.onOrderResponse response s.pnl with
          | none => (false, s)
          | some (risk, pnl) =>
              (true, { s.setOrder index { order with state := .dead } with
                risk := risk
                pnl := pnl
                rejected := s.rejected + 1 })
  | none => (false, s)

/-! ### Operations -/

/-- Everything that happens to a slot: its own requests and responses, marks, the kill switch, and
ids that other slots draw from the shared allocator. -/
inductive Op where
  | sendNewOrder (request : OrderRequest) (position : Position) (room : Bool)
  | sendCancel (id : OrderId) (qty : Quantity) (room : Bool)
  | sendReplace (id : OrderId) (price : Price) (qty : Quantity) (room : Bool)
  | onOrderResponse (response : OrderResponse)
  | onMark (ticker : TickerId) (price : Price)
  | disableTrading
  | enableTrading
  | otherSlot (slot : Nat)

/-- The return value of an operation and the slot after it. -/
def apply (s : Slot cap) : Op → Bool × Slot cap
  | .sendNewOrder request position room => s.sendNewOrder request position room
  | .sendCancel id qty room => s.sendCancel id qty room
  | .sendReplace id price qty room => s.sendReplace id price qty room
  | .onOrderResponse response => s.onOrderResponse response
  | .onMark ticker price =>
      match s.pnl.onMark ticker price with
      | none => (false, s)
      | some pnl => (true, { s with pnl := pnl })
  | .disableTrading => (true, { s with risk := s.risk.disableTrading })
  | .enableTrading => (true, { s with risk := s.risk.enableTrading })
  | .otherSlot slot => (true, { s with allocator := (s.allocator.next slot).2 })

def step (s : Slot cap) (op : Op) : Slot cap := (s.apply op).2

/-- A slot before its first operation: limits and tickers registered, every position flat. -/
structure Fresh (s : Slot cap) : Prop where
  limits : ∀ entry ∈ s.risk.tickers,
    0 ≤ entry.limits.maxAbsPosition ∧ 0 ≤ entry.limits.maxOrderNotional
  orders : s.orders = []
  pending : s.risk.pending = []
  flat : ∀ entry ∈ s.pnl.entries, entry.position = {}
  counter : s.allocator.counter = 1
  outgoing : s.outgoing = []

end Slot

end AlphaTrader
