import AlphaTrader.Library.Incremental
import AlphaTrader.OrderGateway

/-!
# Responses may be cut anywhere

`recvCallback` takes whole messages off the front of the buffer and waits for the rest of the last one.
What it pushes does not depend on how the bytes were cut, and a stream of well-formed messages gives one
response each, with the id that `makeToken` put into the token and the values of the message's fields.
-/

namespace AlphaTrader

open OrderGateway

/-! ### Network order -/

@[simp]
theorem length_beBytes (width value : Nat) : (beBytes width value).length = width := by
  induction width generalizing value with
  | zero => rfl
  | succ width ih => simp [beBytes, ih]

theorem beNat_append_singleton (bytes : List UInt8) (byte : UInt8) :
    beNat (bytes ++ [byte]) = beNat bytes * 256 + byte.toNat := by
  simp [beNat]

theorem beNat_beBytes (width value : Nat) : beNat (beBytes width value) = value % 256 ^ width := by
  induction width generalizing value with
  | zero => simp [beBytes, beNat, Nat.mod_one]
  | succ width ih =>
      calc beNat (beBytes (width + 1) value)
          = value / 256 % 256 ^ width * 256 + value % 256 := by
            rw [beBytes, beNat_append_singleton, ih, UInt8.toNat_ofNat']
        _ = value % 256 + 256 * (value / 256 % 256 ^ width) := by omega
        _ = value % 256 ^ (width + 1) := by rw [Nat.pow_succ', Nat.mod_mul]

namespace OrderGateway

theorem parseToken_makeToken (id : OrderId) : parseToken (makeToken id) = id := by
  have htake : (makeToken id).take 8 = beBytes 8 id.toNat :=
    List.take_left' (length_beBytes 8 id.toNat)
  have hlt : id.toNat < 256 ^ 8 := id.toNat_lt
  rw [parseToken, htake, beNat_beBytes, Nat.mod_eq_of_lt hlt, UInt64.ofNat_toNat]

variable {msg : List UInt8} {offset : Nat}

theorem wire32_of_slice {value : UInt32} (hslice : slice msg offset 4 = beBytes 4 value.toNat) :
    wire32 msg offset = value := by
  have hfield : field msg offset 4 = beNat (slice msg offset 4) := rfl
  have hlt : value.toNat < 256 ^ 4 := value.toNat_lt
  rw [wire32, hfield, hslice, beNat_beBytes, Nat.mod_eq_of_lt hlt, UInt32.ofNat_toNat]

theorem wire64_of_slice {value : UInt64} (hslice : slice msg offset 8 = beBytes 8 value.toNat) :
    wire64 msg offset = value := by
  have hfield : field msg offset 8 = beNat (slice msg offset 8) := rfl
  have hlt : value.toNat < 256 ^ 8 := value.toNat_lt
  rw [wire64, hfield, hslice, beNat_beBytes, Nat.mod_eq_of_lt hlt, UInt64.ofNat_toNat]

end OrderGateway

/-! ### Messages -/

/-- The fields of an accepted or replaced order. -/
structure OrderFields where
  id : OrderId
  orderReferenceNumber : UInt64
  buySellIndicator : UInt8
  price : UInt32
  shares : UInt32

inductive OuchMessage where
  | accepted (fields : OrderFields)
  | executed (id : OrderId) (matchNumber : UInt64) (executedShares executionPrice : UInt32)
  | canceled (id : OrderId) (decrementShares : UInt32)
  | replaced (fields : OrderFields)
  | cancelRejected (id : OrderId)

/-- The bytes of a message hold the fields in network order, and an id as `makeToken` writes it. -/
def OrderLayout.Holds (layout : OrderLayout) (msg : List UInt8) (fields : OrderFields) : Prop :=
  slice msg layout.orderToken 14 = makeToken fields.id
    ∧ slice msg layout.orderReferenceNumber 8 = beBytes 8 fields.orderReferenceNumber.toNat
    ∧ msg[layout.buySellIndicator]? = some fields.buySellIndicator
    ∧ slice msg layout.price 4 = beBytes 4 fields.price.toNat
    ∧ slice msg layout.shares 4 = beBytes 4 fields.shares.toNat

namespace OuchMessage

def type : OuchMessage → OuchType
  | accepted _ => .orderAccepted
  | executed .. => .orderExecuted
  | canceled .. => .orderCanceled
  | replaced _ => .replaceOrder
  | cancelRejected _ => .cancelRejected

@[inherit_doc OrderLayout.Holds]
def Holds (layout : OuchLayout) (msg : List UInt8) : OuchMessage → Prop
  | accepted fields => layout.accepted.Holds msg fields
  | executed id matchNumber executedShares executionPrice =>
      slice msg layout.executed.orderToken 14 = makeToken id
        ∧ slice msg layout.executed.matchNumber 8 = beBytes 8 matchNumber.toNat
        ∧ slice msg layout.executed.executedShares 4 = beBytes 4 executedShares.toNat
        ∧ slice msg layout.executed.executionPrice 4 = beBytes 4 executionPrice.toNat
  | canceled id decrementShares =>
      slice msg layout.canceled.orderToken 14 = makeToken id
        ∧ slice msg layout.canceled.decrementShares 4 = beBytes 4 decrementShares.toNat
  | replaced fields => layout.replaced.Holds msg fields
  | cancelRejected id => slice msg layout.rejectedToken 14 = makeToken id

/-- The response that a message calls for. -/
def response : OuchMessage → GatewayResponse
  | accepted fields | replaced fields =>
      { clientOrderId := fields.id
        marketOrderId := fields.orderReferenceNumber
        side := fields.buySellIndicator
        price := fields.price.toInt32
        qty := fields.shares
        status := .accepted }
  | executed id matchNumber executedShares executionPrice =>
      { clientOrderId := id
        marketOrderId := matchNumber
        executedQty := executedShares
        executionPrice := executionPrice.toInt32
        status := .executed }
  | canceled id decrementShares =>
      { clientOrderId := id, canceledQty := decrementShares, status := .canceled }
  | cancelRejected id => { clientOrderId := id, status := .cancelRejected }

end OuchMessage

/-- A message on the wire. -/
structure WireMessage (layout : OuchLayout) where
  message : OuchMessage
  bytes : List UInt8
  length_eq : bytes.length = layout.size message.type
  head_eq : bytes.head? = some (layout.code message.type)
  holds : message.Holds layout bytes

/-! ### Decoding -/

theorem OrderLayout.decode_of_holds {layout : OrderLayout} {msg : List UInt8} {fields : OrderFields}
    (hholds : layout.Holds msg fields) :
    layout.decode msg = (OuchMessage.accepted fields).response := by
  obtain ⟨htoken, hreference, hindicator, hprice, hshares⟩ := hholds
  simp only [decode, htoken, parseToken_makeToken, wire64_of_slice hreference,
    List.getD_eq_getElem?_getD, hindicator, Option.getD_some, wire32_of_slice hprice,
    wire32_of_slice hshares, OuchMessage.response]

namespace OuchLayout

variable (layout : OuchLayout)

theorem ofByte?_code (type : OuchType) : layout.ofByte? (layout.code type) = some type := by
  have hcode : ∀ other, layout.code type = layout.code other ↔ type = other :=
    fun other => layout.code_injective.eq_iff
  cases type <;> simp [ofByte?, hcode]

theorem messageSize_code (type : OuchType) : layout.messageSize (layout.code type) = layout.size type := by
  rw [messageSize, ofByte?_code]

/-- **A well-formed message** is decoded to the response it calls for. -/
theorem decode_of_holds {message : OuchMessage} {msg : List UInt8} (hholds : message.Holds layout msg) :
    layout.decode (layout.code message.type) msg = message.response := by
  rw [decode, ofByte?_code]
  cases message with
  | accepted fields => exact OrderLayout.decode_of_holds hholds
  | executed id matchNumber executedShares executionPrice =>
      obtain ⟨htoken, hmatch, hshares, hprice⟩ := hholds
      simp only [OuchMessage.type, ExecutedLayout.decode, htoken, parseToken_makeToken,
        wire64_of_slice hmatch, wire32_of_slice hshares, wire32_of_slice hprice, OuchMessage.response]
  | canceled id decrementShares =>
      obtain ⟨htoken, hshares⟩ := hholds
      simp only [OuchMessage.type, CanceledLayout.decode, htoken, parseToken_makeToken,
        wire32_of_slice hshares, OuchMessage.response]
  | replaced fields => exact OrderLayout.decode_of_holds hholds
  | cancelRejected id =>
      have htoken : slice msg layout.rejectedToken 14 = makeToken id := hholds
      simp only [OuchMessage.type, htoken, parseToken_makeToken, OuchMessage.response]

end OuchLayout

/-! ### Passes -/

namespace OrderGateway

variable {layout : OuchLayout} {responses : List GatewayResponse} {gateway : OrderGateway}

theorem recvPass_nil : recvPass layout (responses, []) = some (.inr (responses, [])) := rfl

theorem recvPass_skip {type : UInt8} (hunknown : layout.messageSize type = 0) (rest : List UInt8) :
    recvPass layout (responses, type :: rest) = some (.inl (responses, rest)) :=
  if_pos hunknown

theorem recvPass_wait {type : UInt8} {rest : List UInt8} (hknown : layout.messageSize type ≠ 0)
    (hshort : (type :: rest).length < layout.messageSize type) :
    recvPass layout (responses, type :: rest) = some (.inr (responses, type :: rest)) :=
  (if_neg hknown).trans (if_pos hshort)

theorem recvPass_take {type : UInt8} {rest : List UInt8} (hknown : layout.messageSize type ≠ 0)
    (hlong : layout.messageSize type ≤ (type :: rest).length) :
    recvPass layout (responses, type :: rest) =
      some (.inl (responses ++ [layout.decode type ((type :: rest).take (layout.messageSize type))],
        (type :: rest).drop (layout.messageSize type))) :=
  (if_neg hknown).trans (if_neg (Nat.not_lt.mpr hlong))

theorem recvPass_take_append {type : UInt8} {rest : List UInt8} (hknown : layout.messageSize type ≠ 0)
    (hlong : layout.messageSize type ≤ (type :: rest).length) (more : List UInt8) :
    recvPass layout (responses, type :: rest ++ more) =
      some (.inl (responses ++ [layout.decode type ((type :: rest).take (layout.messageSize type))],
        (type :: rest).drop (layout.messageSize type) ++ more)) := by
  have hlonger : layout.messageSize type ≤ (type :: (rest ++ more)).length := by
    rw [← List.cons_append, List.length_append]
    omega
  rw [List.cons_append, recvPass_take hknown hlonger, ← List.cons_append,
    List.take_append_of_le_length hlong, List.drop_append_of_le_length hlong]

theorem recvPass_settled (responses : List GatewayResponse) (data : List UInt8) :
    Incremental.Settled (recvPass layout) responses data := by
  cases data with
  | nil => exact Or.inl recvPass_nil
  | cons type rest =>
      by_cases hunknown : layout.messageSize type = 0
      · exact Or.inr (Or.inr ⟨responses, rest, Nat.lt_succ_self _, fun more => recvPass_skip hunknown _⟩)
      by_cases hshort : (type :: rest).length < layout.messageSize type
      · exact Or.inl (recvPass_wait hunknown hshort)
      have hlong : layout.messageSize type ≤ (type :: rest).length := Nat.le_of_not_lt hshort
      refine Or.inr (Or.inr ⟨_, _, ?_, recvPass_take_append hunknown hlong⟩)
      rw [List.length_drop, List.length_cons]
      omega

theorem recvPass_stable : Incremental.Stable (recvPass layout) := .of_settled recvPass_settled

theorem recvPass_ne_none (state : List GatewayResponse × List UInt8) : recvPass layout state ≠ none := by
  obtain ⟨responses, _ | ⟨type, rest⟩⟩ := state
  · simp [recvPass]
  · simp only [recvPass]
    split_ifs <;> simp

theorem recvPass_wire (wire : WireMessage layout) (rest : List UInt8) :
    recvPass layout (responses, wire.bytes ++ rest) =
      some (.inl (responses ++ [wire.message.response], rest)) := by
  obtain ⟨message, bytes, hlength, hhead, hholds⟩ := wire
  obtain ⟨tail, rfl⟩ : ∃ tail, bytes = layout.code message.type :: tail := by
    cases bytes with
    | nil => cases hhead
    | cons type tail => exact ⟨tail, by rw [Option.some.inj hhead]⟩
  have hknown : layout.messageSize (layout.code message.type) ≠ 0 := by
    rw [layout.messageSize_code]
    exact (layout.size_pos _).ne'
  have hlong : layout.messageSize (layout.code message.type) ≤
      (layout.code message.type :: tail).length := by
    rw [layout.messageSize_code, hlength]
  rw [recvPass_take_append hknown hlong, layout.messageSize_code, ← hlength, List.take_length,
    List.drop_length, layout.decode_of_holds hholds, List.nil_append]

theorem parse_wires (wires : List (WireMessage layout)) (responses : List GatewayResponse) :
    Incremental.parse (recvPass layout) responses (wires.flatMap WireMessage.bytes) =
      some (responses ++ wires.map fun wire => wire.message.response, []) := by
  induction wires generalizing responses with
  | nil => simp [Incremental.parse, Loop.run, recvPass]
  | cons wire wires ih =>
      rw [List.flatMap_cons, Incremental.parse_of_go recvPass_stable (recvPass_wire wire _), ih]
      simp

/-! ### Arrivals -/

theorem receive_eq (bytes : List UInt8) : gateway.receive bytes =
    (Incremental.parse (recvPass gateway.layout) gateway.incomingResponses
      (gateway.inboundData ++ bytes)).map fun done =>
        { gateway with incomingResponses := done.1, inboundData := done.2 } := rfl

theorem receive_append (gateway : OrderGateway) (data more : List UInt8) :
    gateway.receive (data ++ more) =
      (gateway.receive data).bind fun gateway' => gateway'.receive more := by
  rw [receive_eq, receive_eq, ← List.append_assoc, Incremental.parse_append recvPass_stable,
    Option.map_bind, Option.bind_map]
  rfl

/-- **Responses are parsed however they are cut.** Every way of cutting a stream into arrivals pushes
the same responses and leaves the same bytes as one arrival; well-formed messages give exactly one
response each, in order, and leave nothing. -/
theorem responses_parsed (gateway : OrderGateway) (first : List UInt8) (chunks : List (List UInt8)) :
    ∃ gateway', (first :: chunks).foldlM receive gateway = some gateway'
      ∧ gateway.receive (first :: chunks).flatten = some gateway'
      ∧ ∀ wires : List (WireMessage gateway.layout), gateway.inboundData = [] →
        (first :: chunks).flatten = wires.flatMap WireMessage.bytes →
        gateway'.inboundData = []
          ∧ gateway'.incomingResponses =
            gateway.incomingResponses ++ wires.map fun wire => wire.message.response := by
  obtain ⟨done, hparse⟩ := Incremental.exists_parse_eq recvPass_stable recvPass_ne_none
    gateway.incomingResponses (gateway.inboundData ++ (first :: chunks).flatten)
  have hwhole : gateway.receive (first :: chunks).flatten =
      some { gateway with incomingResponses := done.1, inboundData := done.2 } := by
    rw [receive_eq, hparse, Option.map_some]
  refine ⟨_, ?_, hwhole, ?_⟩
  · rw [Incremental.foldlM_chunks receive_append, hwhole]
  · intro wires hempty hwires
    rw [hempty, List.nil_append, hwires, parse_wires] at hparse
    obtain rfl := Option.some.inj hparse
    exact ⟨rfl, rfl⟩

/-- The structs of the exchange as `tools/compete.py` lists them, without padding: each has the type, a
timestamp and the token in front. -/
def packedLayout : OuchLayout where
  code
    | .orderAccepted => 65
    | .orderExecuted => 69
    | .orderCanceled => 67
    | .replaceOrder => 85
    | .cancelRejected => 74
  code_injective := by
    intro type other
    cases type <;> cases other <;> decide
  size
    | .orderAccepted => 61
    | .orderExecuted => 39
    | .orderCanceled => 28
    | .replaceOrder => 61
    | .cancelRejected => 23
  size_pos := by
    intro type
    cases type <;> decide
  accepted := ⟨9, 49, 23, 36, 24⟩
  executed := ⟨9, 31, 23, 27⟩
  canceled := ⟨9, 23⟩
  replaced := ⟨9, 49, 23, 36, 24⟩
  rejectedToken := 9

def acceptedWire : WireMessage packedLayout where
  message := .accepted ⟨101, 9001, 66, 1234567, 25⟩
  bytes := [65] ++ List.replicate 8 32 ++ makeToken 101 ++ [66] ++ beBytes 4 25 ++ List.replicate 8 32
    ++ beBytes 4 1234567 ++ List.replicate 9 32 ++ beBytes 8 9001 ++ List.replicate 4 32
  length_eq := by decide
  head_eq := by decide
  holds := by
    unfold OuchMessage.Holds OrderLayout.Holds
    decide

def canceledWire : WireMessage packedLayout where
  message := .canceled 101 15
  bytes := [67] ++ List.replicate 8 32 ++ makeToken 101 ++ beBytes 4 15 ++ [85]
  length_eq := by decide
  head_eq := by decide
  holds := by
    unfold OuchMessage.Holds
    decide

/-- One message cut in two, and its rest together with another one. -/
theorem responses_parsed_cut :
    ∃ gateway', [acceptedWire.bytes.take 7, acceptedWire.bytes.drop 7 ++ canceledWire.bytes].foldlM
        receive { layout := packedLayout } = some gateway'
      ∧ gateway'.inboundData = []
      ∧ gateway'.incomingResponses =
        [acceptedWire.message.response, canceledWire.message.response] := by
  obtain ⟨gateway', hcut, -, hwires⟩ := responses_parsed { layout := packedLayout }
    (acceptedWire.bytes.take 7) [acceptedWire.bytes.drop 7 ++ canceledWire.bytes]
  exact ⟨gateway', hcut, hwires [acceptedWire, canceledWire] rfl (by simp [← List.append_assoc])⟩

end OrderGateway

end AlphaTrader
