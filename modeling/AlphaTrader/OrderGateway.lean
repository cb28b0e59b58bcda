import AlphaTrader.ItchDecoder
import AlphaTrader.Library.Loop

/-!
# The order gateway

`src/order_gateway/order_gateway.cpp`: order requests become bytes for the exchange, and the bytes of
the exchange become order responses. The packed structs and the enumerators of the message types are
those of an OUCH library outside the repository. For the responses they are a parameter, as are the
offsets of the fields that are read; the requests have the structs of `test/test_integration.cpp`. The
socket only appends to `inboundData` and sends what it is given, and the response queue always has room.
-/

namespace AlphaTrader

/-- The bytes of a value in network order. -/
def beBytes : Nat → Nat → List UInt8
  | 0, _ => []
  | width + 1, value => beBytes width (value / 256) ++ [UInt8.ofNat value]

/-- The bytes of an array member of a packed struct. -/
def slice (bytes : List UInt8) (offset width : Nat) : List UInt8 := (bytes.drop offset).take width

/-- The responses that the gateway understands. -/
inductive OuchType where
  | orderAccepted
  | orderExecuted
  | orderCanceled
  | replaceOrder
  | cancelRejected
  deriving DecidableEq, Repr

/-- Where `OrderAccepted` and `OrderReplaced` have the fields that are read. -/
structure OrderLayout where
  orderToken : Nat
  orderReferenceNumber : Nat
  buySellIndicator : Nat
  price : Nat
  shares : Nat

structure ExecutedLayout where
  orderToken : Nat
  matchNumber : Nat
  executedShares : Nat
  executionPrice : Nat

structure CanceledLayout where
  orderToken : Nat
  decrementShares : Nat

/-- The enumerators of the message types and the packed structs. The enumerators are the labels of one
`switch`, so they differ. -/
structure OuchLayout where
  code : OuchType → UInt8
  code_injective : Function.Injective code
  size : OuchType → Nat
  size_pos : ∀ type, 0 < size type
  accepted : OrderLayout
  executed : ExecutedLayout
  canceled : CanceledLayout
  replaced : OrderLayout
  rejectedToken : Nat

/-- An `OrderResponse` as the gateway fills it in. The side is the byte of the message, which the cast
to `Side` keeps whatever it is. -/
structure GatewayResponse where
  clientOrderId : OrderId := 0
  marketOrderId : OrderId := 0
  side : UInt8 := 66
  price : Price := 0
  qty : Quantity := 0
  executedQty : Quantity := 0
  executionPrice : Price := 0
  canceledQty : Quantity := 0
  status : ResponseStatus := .rejected
  deriving DecidableEq, Repr

namespace OrderGateway

def makeToken (clientOrderId : OrderId) : List UInt8 :=
  beBytes 8 clientOrderId.toNat ++ List.replicate 6 0

def parseToken (token : List UInt8) : OrderId := UInt64.ofNat (beNat (token.take 8))

/-- `toWire32` of a 32-bit member. -/
def wire32 (bytes : List UInt8) (offset : Nat) : UInt32 := UInt32.ofNat (field bytes offset 4)

/-- `toWire64` of a 64-bit member. -/
def wire64 (bytes : List UInt8) (offset : Nat) : UInt64 := UInt64.ofNat (field bytes offset 8)

end OrderGateway

open OrderGateway

/-- The response to an accepted or replaced order. -/
def OrderLayout.decode (layout : OrderLayout) (msg : List UInt8) : GatewayResponse :=
  { clientOrderId := parseToken (slice msg layout.orderToken 14)
    marketOrderId := wire64 msg layout.orderReferenceNumber
    side := msg.getD layout.buySellIndicator 0
    price := (wire32 msg layout.price).toInt32
    qty := wire32 msg layout.shares
    status := .accepted }

def ExecutedLayout.decode (layout : ExecutedLayout) (msg : List UInt8) : GatewayResponse :=
  { clientOrderId := parseToken (slice msg layout.orderToken 14)
    marketOrderId := wire64 msg layout.matchNumber
    executedQty := wire32 msg layout.executedShares
    executionPrice := (wire32 msg layout.executionPrice).toInt32
    status := .executed }

def CanceledLayout.decode (layout : CanceledLayout) (msg : List UInt8) : GatewayResponse :=
  { clientOrderId := parseToken (slice msg layout.orderToken 14)
    canceledQty := wire32 msg layout.decrementShares
    status := .canceled }

namespace OuchLayout

variable (layout : OuchLayout)

def ofByte? (type : UInt8) : Option OuchType :=
  if type = layout.code .orderAccepted then some .orderAccepted
  else if type = layout.code .orderExecuted then some .orderExecuted
  else if type = layout.code .orderCanceled then some .orderCanceled
  else if type = layout.code .replaceOrder then some .replaceOrder
  else if type = layout.code .cancelRejected then some .cancelRejected
  else none

def messageSize (type : UInt8) : Nat :=
  match layout.ofByte? type with
  | some type => layout.size type
  | none => 0

/-- The response to a message; for a replaced order the token is the replacement's. -/
def decode (type : UInt8) (msg : List UInt8) : GatewayResponse :=
  match layout.ofByte? type with
  | some .orderAccepted => layout.accepted.decode msg
  | some .orderExecuted => layout.executed.decode msg
  | some .orderCanceled => layout.canceled.decode msg
  | some .replaceOrder => layout.replaced.decode msg
  | some .cancelRejected =>
      { clientOrderId := parseToken (slice msg layout.rejectedToken 14), status := .cancelRejected }
  | none => {}

end OuchLayout

structure OrderGateway where
  layout : OuchLayout
  inboundData : List UInt8 := []
  incomingResponses : List GatewayResponse := []

namespace OrderGateway

/-- One pass of the loop in `recvCallback`, on the responses pushed so far and the bytes from the offset
on. -/
def recvPass (layout : OuchLayout) (state : List GatewayResponse × List UInt8) :
    Option ((List GatewayResponse × List UInt8) ⊕ (List GatewayResponse × List UInt8)) :=
  let (responses, data) := state
  match data with
  | [] => some (.inr (responses, data))
  | type :: rest =>
      let size := layout.messageSize type
      if size = 0 then some (.inl (responses, rest))
      else if data.length < size then some (.inr (responses, data))
      else some (.inl (responses ++ [layout.decode type (data.take size)], data.drop size))

def recvCallback (gateway : OrderGateway) : Option OrderGateway :=
  (Loop.run (recvPass gateway.layout) (gateway.inboundData.length + 1)
    (gateway.incomingResponses, gateway.inboundData)).map fun done =>
      { gateway with incomingResponses := done.1, inboundData := done.2 }

/-- Bytes arrive, and the socket calls back. -/
def receive (gateway : OrderGateway) (bytes : List UInt8) : Option OrderGateway :=
  recvCallback { gateway with inboundData := gateway.inboundData ++ bytes }

/-! ### Requests -/

def sideByte : Side → UInt8
  | .buy => 66
  | .sell => 83

def writeTicker (tickerId : TickerId) : List UInt8 := beBytes 8 tickerId.toUInt64.toNat

def timeInForce (ioc : Bool) : UInt32 := if ioc then 0 else 99998

/-- `EnterOrder`, member by member; every member is assigned after the `memset`. -/
def enterOrder (req : OrderRequest) : List (List UInt8) :=
  [[79], makeToken req.clientOrderId, [sideByte req.side], beBytes 4 req.qty.toNat,
    writeTicker req.tickerId, beBytes 4 req.price.toUInt32.toNat, beBytes 4 (timeInForce req.ioc).toNat,
    -- firm, display, capacity, intermarket_sweep, cross_type, customer_type
    [65, 76, 80, 72], [89], [65], [78], [78], [82]]

@[inherit_doc enterOrder]
def cancelOrder (req : OrderRequest) : List (List UInt8) :=
  [[88], makeToken req.clientOrderId, beBytes 4 req.qty.toNat]

@[inherit_doc enterOrder]
def replaceOrder (req : OrderRequest) : List (List UInt8) :=
  [[85], makeToken req.clientOrderId, makeToken req.newClientOrderId, beBytes 4 req.qty.toNat,
    beBytes 4 req.price.toUInt32.toNat, beBytes 4 (timeInForce req.ioc).toNat,
    -- display, intermarket_sweep
    [89], [78]]

/-- The bytes for the socket, unless an `ASSERT` fails. -/
def sendEnter (req : OrderRequest) : Option (List UInt8) :=
  if req.tickerId = tickerIdInvalid then none
  else if req.price < 0 then none
  else some (enterOrder req).flatten

@[inherit_doc sendEnter]
def sendCancel (req : OrderRequest) : Option (List UInt8) := some (cancelOrder req).flatten

@[inherit_doc sendEnter]
def sendReplace (req : OrderRequest) : Option (List UInt8) :=
  if req.newClientOrderId = 0 then none
  else if req.price < 0 then none
  else some (replaceOrder req).flatten

def send (req : OrderRequest) : Option (List UInt8) :=
  match req.type with
  | .new => sendEnter req
  | .cancel => sendCancel req
  | .replace => sendReplace req

/-- The inner loop of `run`: the bytes of the requests that were popped, one after another. -/
def run (requests : List OrderRequest) : Option (List UInt8) :=
  requests.foldlM (fun sent req => (send req).map (sent ++ ·)) []

end OrderGateway

end AlphaTrader
