import Mathlib

/-!
# Domain types

The messages that the three threads exchange, as `src/types.h` declares them. Fixed-width integers
keep their width, so a wrap in the code is a wrap here. The signed 64-bit quantities of the position
and of the risk limits are integers: the code checks their range explicitly where it matters.
-/

namespace AlphaTrader

abbrev Price := Int32
abbrev Quantity := UInt32
abbrev OrderId := UInt64
abbrev SeqNum := UInt64
abbrev TickerId := UInt32

def priceInvalid : Price := Int32.minValue

def orderIdInvalid : OrderId := 0xFFFFFFFFFFFFFFFF

def tickerIdInvalid : TickerId := 0xFFFFFFFF

inductive Side where
  | buy
  | sell
  deriving DecidableEq, Repr

/-- A quantity signed by its side: positive when bought, negative when sold. -/
def Side.signed (side : Side) (qty : Quantity) : Int :=
  match side with
  | .buy => qty.toNat
  | .sell => -qty.toNat

inductive UpdateType where
  | add
  | addMpid
  | execute
  | cancel
  | delete
  | replace
  | snapshotStart
  | snapshotClear
  | snapshotEnd
  deriving DecidableEq, Repr

structure MarketUpdate where
  seqNum : SeqNum := 0
  tickerId : TickerId := tickerIdInvalid
  type : UpdateType := .add
  side : Side := .buy
  price : Price := 0
  qty : Quantity := 0
  orderRef : OrderId := 0
  newRef : OrderId := 0
  deriving DecidableEq, Repr

inductive OrderRequestType where
  | new
  | cancel
  | replace
  deriving DecidableEq, Repr

structure OrderRequest where
  type : OrderRequestType := .new
  clientOrderId : OrderId := 0
  newClientOrderId : OrderId := 0
  tickerId : TickerId := tickerIdInvalid
  side : Side := .buy
  price : Price := 0
  qty : Quantity := 0
  ioc : Bool := false
  deriving DecidableEq, Repr

inductive ResponseStatus where
  | accepted
  | executed
  | canceled
  | rejected
  | cancelRejected
  deriving DecidableEq, Repr

structure OrderResponse where
  clientOrderId : OrderId := 0
  marketOrderId : OrderId := 0
  side : Side := .buy
  price : Price := 0
  qty : Quantity := 0
  executedQty : Quantity := 0
  executionPrice : Price := 0
  canceledQty : Quantity := 0
  status : ResponseStatus := .rejected
  deriving DecidableEq, Repr

structure Position where
  netQty : Int := 0
  realizedPnl : Int := 0
  unrealizedPnl : Int := 0
  avgEntryPrice : Price := priceInvalid
  markPrice : Price := priceInvalid
  deriving DecidableEq, Repr

/-- The address of an order in its pool. -/
abbrev Addr := Nat

structure BookOrder where
  orderRef : OrderId := 0
  qty : Quantity := 0
  next : Option Addr := none
  prev : Option Addr := none
  deriving DecidableEq, Repr

structure PriceLevel where
  price : Price := 0
  totalQty : Quantity := 0
  head : Option Addr := none
  tail : Option Addr := none
  deriving DecidableEq, Repr

structure BBO where
  bidPrice : Price := priceInvalid
  bidQty : Quantity := 0
  askPrice : Price := priceInvalid
  askQty : Quantity := 0
  deriving DecidableEq, Repr

namespace SnapshotControl

def snapshotStart : UInt16 := 0xBBBB

def snapshotClear : UInt16 := 0xCCCC

def snapshotEnd : UInt16 := 0xEEEE

end SnapshotControl

end AlphaTrader
