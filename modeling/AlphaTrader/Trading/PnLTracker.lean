import AlphaTrader.Types
import AlphaTrader.Library.Table

/-!
# Positions and order ids

`src/trading/pnl_tracker.h` and `src/trading/order_id_allocator.h`. The code computes average prices and
results in 128 bits and checks the range of the results before it stores them; here that arithmetic is
exact, with the same checks. `net_qty` is an `int64_t` that executions are added to without a check; here
it is exact, and the two agree while its absolute value stays below `2 ^ 63`. An operation that returns
false leaves the tracker as it was and yields `none`.
-/

namespace AlphaTrader

/-- The template parameters of the trading classes. -/
structure Capacity where
  maxTickers : Nat
  maxPendingOrders : Nat
  maxOrders : Nat

/-! ### Order ids -/

structure OrderIdAllocator where
  slotCount : Nat := 1
  counter : OrderId := 1

namespace OrderIdAllocator

def counterBits : OrderId := 48

def counterMask : OrderId := 0xFFFFFFFFFFFF

/-- The id of a slot with a value of the counter. -/
def makeId (slot : Nat) (counter : OrderId) : OrderId :=
  (UInt64.ofNat slot <<< counterBits) ||| (counter &&& counterMask)

def next (allocator : OrderIdAllocator) (slot : Nat) : OrderId × OrderIdAllocator :=
  (makeId slot allocator.counter, { allocator with counter := allocator.counter + 1 })

def ownerOf (allocator : OrderIdAllocator) (id : OrderId) : Nat :=
  let slot := (id >>> counterBits).toNat
  if slot < allocator.slotCount then slot else allocator.slotCount

end OrderIdAllocator

/-! ### Positions -/

structure PnLEntry where
  tickerId : TickerId
  position : Position := {}
  deriving DecidableEq, Repr

structure PnLTracker (cap : Capacity) where
  entries : List PnLEntry := []

namespace PnLTracker

variable {cap : Capacity}

/-- The entry of a ticker, and where it is. -/
def find (pnl : PnLTracker cap) (ticker : TickerId) : Option (Nat × PnLEntry) :=
  Table.find PnLEntry.tickerId ticker pnl.entries

def get (pnl : PnLTracker cap) (ticker : TickerId) : Option Position :=
  (pnl.find ticker).map fun found => found.2.position

def registerTicker (pnl : PnLTracker cap) (ticker : TickerId) : Option (PnLTracker cap) :=
  if (pnl.get ticker).isSome then some pnl
  else if pnl.entries.length = cap.maxTickers then none
  else some { pnl with entries := pnl.entries ++ [{ tickerId := ticker }] }

/-- A write through the pointer that `get` returned. -/
def setPosition (pnl : PnLTracker cap) (index : Nat) (entry : PnLEntry) (position : Position) :
    PnLTracker cap :=
  { pnl with entries := pnl.entries.set index { entry with position := position } }

def FitsInt64 (value : Int) : Prop := -2 ^ 63 ≤ value ∧ value ≤ 2 ^ 63 - 1

instance (value : Int) : Decidable (FitsInt64 value) := inferInstanceAs (Decidable (_ ∧ _))

def updateUnrealized (position : Position) : Option Position :=
  if position.netQty = 0 ∨ position.markPrice = priceInvalid then
    some { position with unrealizedPnl := 0 }
  else
    let unrealized :=
      position.netQty * (position.markPrice.toInt - position.avgEntryPrice.toInt)
    if FitsInt64 unrealized then some { position with unrealizedPnl := unrealized } else none

/-- The realised result after an execution against the open position. -/
def realizedOnClose (current : Position) (price : Price) (qty : Quantity) : Int :=
  let openQty : Int := current.netQty.natAbs
  let closingQty : Int := if openQty < qty.toNat then openQty else qty.toNat
  let pnlPerUnit :=
    if 0 < current.netQty then price.toInt - current.avgEntryPrice.toInt
    else current.avgEntryPrice.toInt - price.toInt
  current.realizedPnl + pnlPerUnit * closingQty

/-- The position after an execution, before it is marked to market. -/
def applyExecution (current : Position) (side : Side) (price : Price) (qty : Quantity) :
    Option Position :=
  let signedQty := side.signed qty
  if current.netQty = 0 then
    some { current with netQty := signedQty, avgEntryPrice := price }
  else if 0 < current.netQty ↔ 0 < signedQty then
    let oldQty : Int := current.netQty.natAbs
    let newQty := oldQty + qty.toNat
    let weightedPrice := current.avgEntryPrice.toInt * oldQty + price.toInt * qty.toNat
    some { current with
      avgEntryPrice := Int32.ofInt (weightedPrice.tdiv newQty)
      netQty := current.netQty + signedQty }
  else
    let openQty : Int := current.netQty.natAbs
    let realized := realizedOnClose current price qty
    if ¬ FitsInt64 realized then none
    else if openQty < qty.toNat then
      some { current with
        realizedPnl := realized
        netQty := if side = .buy then qty.toNat - openQty else openQty - qty.toNat
        avgEntryPrice := price }
    else
      some { current with
        realizedPnl := realized
        netQty := current.netQty + signedQty
        avgEntryPrice :=
          if current.netQty + signedQty = 0 then priceInvalid else current.avgEntryPrice }

def onExecution (pnl : PnLTracker cap) (ticker : TickerId) (side : Side) (price : Price)
    (qty : Quantity) : Option (PnLTracker cap) := do
  let (index, entry) ← pnl.find ticker
  if price = priceInvalid ∨ qty = 0 then none
  else
    let next ← applyExecution entry.position side price qty
    let next ← updateUnrealized next
    return pnl.setPosition index entry next

def onMark (pnl : PnLTracker cap) (ticker : TickerId) (markPrice : Price) :
    Option (PnLTracker cap) := do
  let (index, entry) ← pnl.find ticker
  if markPrice = priceInvalid then none
  else
    let next ← updateUnrealized { entry.position with markPrice := markPrice }
    return pnl.setPosition index entry next

/-- The results of all tickers together. -/
def totalPnL (pnl : PnLTracker cap) : Option Int :=
  let total := pnl.entries.foldl
    (fun total entry => total + entry.position.realizedPnl + entry.position.unrealizedPnl) 0
  if FitsInt64 total then some total else none

/-- The confirmed position in a ticker, zero for a ticker that is not registered. -/
def netQty (pnl : PnLTracker cap) (ticker : TickerId) : Int :=
  ((pnl.get ticker).map Position.netQty).getD 0

inductive Op where
  | registerTicker (ticker : TickerId)
  | onExecution (ticker : TickerId) (side : Side) (price : Price) (qty : Quantity)
  | onMark (ticker : TickerId) (markPrice : Price)

def apply (pnl : PnLTracker cap) : Op → Option (PnLTracker cap)
  | .registerTicker ticker => pnl.registerTicker ticker
  | .onExecution ticker side price qty => pnl.onExecution ticker side price qty
  | .onMark ticker markPrice => pnl.onMark ticker markPrice

def step (pnl : PnLTracker cap) (op : Op) : PnLTracker cap := (pnl.apply op).getD pnl

end PnLTracker

end AlphaTrader
