import AlphaTrader.Types

/-!
# The ITCH decoder

`src/market_data/itch_decoder.cpp`: frames become market updates, with a table of the live orders of
each ticker that gives executions, cancels and deletes the side and the price of their order. The
table is a vector per ticker, indexed by the order reference; a zero quantity marks a dead entry.
Decoding yields `none` where the behaviour of the code is undefined: when it would index a vector past
its end, or write through a reference into storage that the vector has given up.
-/

namespace AlphaTrader

/-! ### Frames -/

/-- The number that big-endian bytes spell. -/
def beNat (bytes : List UInt8) : Nat := bytes.foldl (fun value byte => value * 256 + byte.toNat) 0

/-- The field of `width` bytes at an offset. -/
def field (bytes : List UInt8) (offset width : Nat) : Nat := beNat ((bytes.drop offset).take width)

inductive MsgType where
  | systemEvent
  | addOrder
  | addOrderMpid
  | orderExecuted
  | orderCancel
  | orderDelete
  | orderReplace
  deriving DecidableEq, Repr

namespace MsgType

def ofByte? (byte : UInt8) : Option MsgType :=
  match Char.ofNat byte.toNat with
  | 'S' => some systemEvent
  | 'A' => some addOrder
  | 'F' => some addOrderMpid
  | 'E' => some orderExecuted
  | 'X' => some orderCancel
  | 'D' => some orderDelete
  | 'U' => some orderReplace
  | _ => none

/-- The size of the packed struct. -/
def payloadSize : MsgType → Nat
  | systemEvent => 12
  | addOrder => 36
  | addOrderMpid => 40
  | orderExecuted => 31
  | orderCancel => 23
  | orderDelete => 19
  | orderReplace => 35

end MsgType

/-- The struct behind a message pointer, with the fields at their packed offsets. -/
abbrev Payload := List UInt8

namespace Payload

def locate (msg : Payload) : UInt16 := UInt16.ofNat (field msg 1 2)

def stockLocate (msg : Payload) : TickerId := UInt32.ofNat (locate msg).toNat

def ref (msg : Payload) : OrderId := UInt64.ofNat (field msg 11 8)

def side (msg : Payload) : Side := if Char.ofNat (field msg 19 1) = 'B' then .buy else .sell

def shares (msg : Payload) : Quantity := UInt32.ofNat (field msg 20 4)

def price (msg : Payload) : Price := (UInt32.ofNat (field msg 32 4)).toInt32

def execShares (msg : Payload) : Quantity := UInt32.ofNat (field msg 19 4)

def matchNumber (msg : Payload) : OrderId := UInt64.ofNat (field msg 23 8)

def canceled (msg : Payload) : Quantity := UInt32.ofNat (field msg 19 4)

def newRef (msg : Payload) : OrderId := UInt64.ofNat (field msg 19 8)

def newShares (msg : Payload) : Quantity := UInt32.ofNat (field msg 27 4)

def newPrice (msg : Payload) : Price := (UInt32.ofNat (field msg 31 4)).toInt32

end Payload

/-! ### The order table -/

structure OrderState where
  side : Side := .buy
  price : Price := 0
  qty : Quantity := 0
  tickerId : TickerId := 0
  deriving DecidableEq, Repr

/-- A `std::vector<OrderState>`: only the entries ever written are stored, all others below the size
are value-initialised. -/
structure OrderVector where
  size : UInt64 := 0
  capacity : UInt64 := 0
  states : Std.TreeMap OrderId OrderState := {}
  bound : ∀ ref ∈ states, ref < size := by simp

/-- The vector that `operator[]` of the map puts in for a new ticker. -/
instance : Inhabited OrderVector := ⟨{}⟩

namespace OrderVector

def get? (slot : OrderVector) (ref : OrderId) : Option OrderState :=
  if ref < slot.size then some (slot.states.getD ref {}) else none

/-- The entry of a live order. -/
def live? (slot : OrderVector) (ref : OrderId) : Option OrderState :=
  (slot.get? ref).filter fun state => state.qty ≠ 0

def set? (slot : OrderVector) (ref : OrderId) (state : OrderState) : Option OrderVector :=
  if hlt : ref < slot.size then
    some { slot with
      states := slot.states.insert ref state
      bound := fun other hmem => by
        rcases Std.TreeMap.mem_insert.mp hmem with heq | hmem
        · rw [← Std.LawfulEqCmp.eq_of_compare heq]
          exact hlt
        · exact slot.bound other hmem }
  else none

/-- Growing reallocates past the capacity, as libstdc++ does. The only smaller size asked for is
zero, when `ref + 1` wraps. -/
def resize (slot : OrderVector) (size : UInt64) : OrderVector :=
  if hle : slot.size ≤ size then
    { size := size
      capacity := if size ≤ slot.capacity then slot.capacity else max (slot.size + slot.size) size
      states := slot.states
      bound := fun ref hmem => UInt64.lt_of_lt_of_le (slot.bound ref hmem) hle }
  else { size := size, capacity := slot.capacity }

/-- `if (slot.size() <= ref) slot.resize(ref + 1)` -/
def reserve (slot : OrderVector) (ref : OrderId) : OrderVector :=
  if slot.size ≤ ref then slot.resize (ref + 1) else slot

end OrderVector

structure ItchDecoder where
  orderRefMap : Std.TreeMap TickerId OrderVector := {}
  trackedOrderCount : UInt64 := 0
  lastDecodedSize : Nat := 0
  needMoreData : Bool := false

/-- What a call of the decoder leaves behind: its return value, `out`, and itself. -/
structure Decoded where
  accepted : Bool
  update : MarketUpdate
  decoder : ItchDecoder

namespace ItchDecoder

def state? (decoder : ItchDecoder) (ticker : TickerId) (ref : OrderId) : Option OrderState :=
  decoder.orderRefMap[ticker]?.bind fun slot => slot.get? ref

def live? (decoder : ItchDecoder) (ticker : TickerId) (ref : OrderId) : Option OrderState :=
  decoder.orderRefMap[ticker]?.bind fun slot => slot.live? ref

/-- A write through a reference into the vector of a ticker. -/
def setState? (decoder : ItchDecoder) (ticker : TickerId) (ref : OrderId) (state : OrderState) :
    Option ItchDecoder := do
  let slot ← decoder.orderRefMap[ticker]?
  let slot ← slot.set? ref state
  return { decoder with orderRefMap := decoder.orderRefMap.insert ticker slot }

/-! ### Messages -/

def decodeSystemEvent (decoder : ItchDecoder) (out : MarketUpdate) : Option Decoded :=
  some ⟨false, out, decoder⟩

/-- Both add messages, which share the layout of the fields read. -/
def decodeAdd (type : UpdateType) (decoder : ItchDecoder) (msg : Payload) (out : MarketUpdate) :
    Option Decoded := do
  let out := { out with
    type := type, side := msg.side, price := msg.price, qty := msg.shares, orderRef := msg.ref,
    newRef := 0, tickerId := msg.stockLocate }
  let slot := (decoder.orderRefMap[out.tickerId]?.getD default).reserve out.orderRef
  let slot ← slot.set? out.orderRef ⟨out.side, out.price, out.qty, out.tickerId⟩
  return ⟨true, out, { decoder with
    orderRefMap := decoder.orderRefMap.insert out.tickerId slot
    trackedOrderCount := decoder.trackedOrderCount + 1 }⟩

def decodeAddOrder := decodeAdd .add

def decodeAddOrderMpid := decodeAdd .addMpid

/-- Both messages that take quantity off an order. -/
def decodeReduction (type : UpdateType) (qty : Quantity) (newRef : OrderId) (decoder : ItchDecoder)
    (msg : Payload) (out : MarketUpdate) : Option Decoded :=
  let out := { out with type := type, qty := qty, orderRef := msg.ref, newRef := newRef }
  match decoder.state? msg.stockLocate msg.ref with
  | none => some ⟨false, out, decoder⟩
  | some state =>
      if state.qty = 0 then some ⟨false, out, decoder⟩
      else do
        let out := { out with side := state.side, price := state.price, tickerId := state.tickerId }
        if state.qty ≤ qty then
          let decoder ← decoder.setState? msg.stockLocate msg.ref { state with qty := 0 }
          return ⟨true, out, { decoder with trackedOrderCount := decoder.trackedOrderCount - 1 }⟩
        else
          let decoder ← decoder.setState? msg.stockLocate msg.ref { state with qty := state.qty - qty }
          return ⟨true, out, decoder⟩

def decodeOrderExecuted (decoder : ItchDecoder) (msg : Payload) (out : MarketUpdate) :
    Option Decoded :=
  decodeReduction .execute msg.execShares msg.matchNumber decoder msg out

def decodeOrderCancel (decoder : ItchDecoder) (msg : Payload) (out : MarketUpdate) :
    Option Decoded :=
  decodeReduction .cancel msg.canceled 0 decoder msg out

def decodeOrderDelete (decoder : ItchDecoder) (msg : Payload) (out : MarketUpdate) :
    Option Decoded :=
  if msg.locate = SnapshotControl.snapshotStart then
    some ⟨true, { out with
      type := .snapshotStart, orderRef := msg.ref, newRef := 0, tickerId := tickerIdInvalid }, decoder⟩
  else if msg.locate = SnapshotControl.snapshotClear then
    some ⟨true, { out with
      type := .snapshotClear, orderRef := msg.ref, newRef := 0,
      tickerId := UInt32.ofNat msg.ref.toNat }, decoder⟩
  else if msg.locate = SnapshotControl.snapshotEnd then
    some ⟨true, { out with
      type := .snapshotEnd, orderRef := msg.ref, newRef := 0, tickerId := tickerIdInvalid }, decoder⟩
  else
    let out := { out with type := .delete, qty := 0, orderRef := msg.ref, newRef := 0 }
    match decoder.state? msg.stockLocate msg.ref with
    | none => some ⟨false, out, decoder⟩
    | some state =>
        if state.qty = 0 then some ⟨false, out, decoder⟩
        else do
          let out := { out with
            side := state.side, price := state.price, tickerId := state.tickerId }
          let decoder ← decoder.setState? msg.stockLocate msg.ref { state with qty := 0 }
          return ⟨true, out, { decoder with trackedOrderCount := decoder.trackedOrderCount - 1 }⟩

/-- The last write goes through a reference taken before the vector grows. If growing reallocates the
vector, the reference dangles and the write is undefined. -/
def decodeOrderReplace (decoder : ItchDecoder) (msg : Payload) (out : MarketUpdate) :
    Option Decoded :=
  let out := { out with
    type := .replace, price := msg.newPrice, qty := msg.newShares, orderRef := msg.ref,
    newRef := msg.newRef }
  match decoder.orderRefMap[msg.stockLocate]? with
  | none => some ⟨false, out, decoder⟩
  | some slot =>
      match slot.get? msg.ref with
      | none => some ⟨false, out, decoder⟩
      | some state =>
          if state.qty = 0 then some ⟨false, out, decoder⟩
          else do
            let out := { out with side := state.side, tickerId := state.tickerId }
            let grown := slot.reserve out.newRef
            let written ← grown.set? out.newRef ⟨out.side, out.price, out.qty, out.tickerId⟩
            if slot.size ≤ out.newRef ∧ slot.capacity < grown.size then none
            else
              let current ← written.get? msg.ref
              let final ← written.set? msg.ref { current with qty := 0 }
              return ⟨true, out, { decoder with
                orderRefMap := decoder.orderRefMap.insert msg.stockLocate final
                trackedOrderCount := decoder.trackedOrderCount + 1 }⟩

def decodeMessage (decoder : ItchDecoder) (type : MsgType) (msg : Payload) (out : MarketUpdate) :
    Option Decoded :=
  match type with
  | .systemEvent => decoder.decodeSystemEvent out
  | .addOrder => decoder.decodeAddOrder msg out
  | .addOrderMpid => decoder.decodeAddOrderMpid msg out
  | .orderExecuted => decoder.decodeOrderExecuted msg out
  | .orderCancel => decoder.decodeOrderCancel msg out
  | .orderDelete => decoder.decodeOrderDelete msg out
  | .orderReplace => decoder.decodeOrderReplace msg out

/-! ### Frames of the feed and of a snapshot -/

/-- A frame of the feed: a sequence number of eight bytes, then the message. -/
def decode (decoder : ItchDecoder) (wire : List UInt8) (out : MarketUpdate) : Option Decoded :=
  let decoder := { decoder with lastDecodedSize := 0, needMoreData := false }
  if wire.length < 8 + 1 then some ⟨false, out, { decoder with needMoreData := true }⟩
  else
    match MsgType.ofByte? (wire.getD 8 0) with
    | none => some ⟨false, out, decoder⟩
    | some type =>
        if wire.length < 8 + type.payloadSize then
          some ⟨false, out, { decoder with needMoreData := true }⟩
        else
          let out := { out with seqNum := UInt64.ofNat (field wire 0 8) }
          let decoder := { decoder with lastDecodedSize := type.payloadSize }
          decoder.decodeMessage type (wire.drop 8) out

/-- A frame of a snapshot: the message alone. -/
def decodeSnapshot (decoder : ItchDecoder) (wire : List UInt8) (out : MarketUpdate) :
    Option Decoded :=
  let decoder := { decoder with lastDecodedSize := 0 }
  if wire.length = 0 then some ⟨false, out, decoder⟩
  else
    let out := { out with seqNum := 0 }
    match MsgType.ofByte? (wire.getD 0 0) with
    | none => some ⟨false, out, decoder⟩
    | some type =>
        if wire.length < type.payloadSize then some ⟨false, out, decoder⟩
        else
          let decoder := { decoder with lastDecodedSize := type.payloadSize }
          decoder.decodeMessage type wire out

def reset (decoder : ItchDecoder) : ItchDecoder :=
  { decoder with orderRefMap := {}, trackedOrderCount := 0 }

def trackedOrders (decoder : ItchDecoder) : UInt64 := decoder.trackedOrderCount

end ItchDecoder

end AlphaTrader
