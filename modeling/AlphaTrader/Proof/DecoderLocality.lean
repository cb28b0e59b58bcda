import AlphaTrader.MarketDataConsumer
import AlphaTrader.Proof.DecoderSpec

/-!
# What a frame depends on

Every message, replaces included, reads and writes the vector of its own ticker. A frame is decoded
from its own bytes, whatever follows them in the buffer.
-/

namespace AlphaTrader

namespace ItchDecoder

variable {decoder decoder' : ItchDecoder} {type : MsgType} {msg : Payload} {out : MarketUpdate}
  {result : Decoded}

/-! ### Messages -/

/-- The decoder is as it was, or has a new vector for the ticker of the message. -/
inductive Confined (decoder : ItchDecoder) (msg : Payload) (out : MarketUpdate) : Decoded → Prop
  | unchanged (accepted : Bool) (update : MarketUpdate) (hseq : update.seqNum = out.seqNum) :
      Confined decoder msg out ⟨accepted, update, decoder⟩
  | written (update : MarketUpdate) (slot : OrderVector) (count : UInt64)
      (hseq : update.seqNum = out.seqNum) :
      Confined decoder msg out ⟨true, update, { decoder with
        orderRefMap := decoder.orderRefMap.insert msg.stockLocate slot
        trackedOrderCount := count }⟩

theorem setState?_eq {ticker : TickerId} {ref : OrderId} {state : OrderState}
    (hset : decoder.setState? ticker ref state = some decoder') :
    ∃ slot, decoder' = { decoder with orderRefMap := decoder.orderRefMap.insert ticker slot } := by
  simp only [setState?, Option.bind_eq_bind, Option.pure_def, Option.bind_eq_some_iff,
    Option.some.injEq] at hset
  obtain ⟨_, _, slot, _, rfl⟩ := hset
  exact ⟨slot, rfl⟩

theorem decodeAdd_confined {type : UpdateType}
    (hdecode : decodeAdd type decoder msg out = some result) : Confined decoder msg out result := by
  simp only [decodeAdd, Option.bind_eq_bind, Option.pure_def, Option.bind_eq_some_iff,
    Option.some.injEq] at hdecode
  obtain ⟨slot, _, rfl⟩ := hdecode
  exact .written _ slot _ rfl

theorem decodeReduction_confined {type : UpdateType} {qty : Quantity} {newRef : OrderId}
    (hdecode : decodeReduction type qty newRef decoder msg out = some result) :
    Confined decoder msg out result := by
  unfold decodeReduction at hdecode
  split at hdecode
  case h_1 =>
      obtain rfl := Option.some.inj hdecode
      exact .unchanged _ _ rfl
  case h_2 state _ =>
      split at hdecode
      case isTrue =>
          obtain rfl := Option.some.inj hdecode
          exact .unchanged _ _ rfl
      case isFalse =>
          simp only [Option.bind_eq_bind, Option.pure_def] at hdecode
          split at hdecode <;>
            obtain ⟨written, hset, heq⟩ := Option.bind_eq_some_iff.mp hdecode <;>
            obtain ⟨slot, rfl⟩ := setState?_eq hset <;>
            obtain rfl := Option.some.inj heq <;>
            exact .written _ slot _ rfl

theorem decodeOrderDelete_confined (hdecode : decoder.decodeOrderDelete msg out = some result) :
    Confined decoder msg out result := by
  cases hmarker : marker? msg.locate with
  | some type =>
      rw [decodeOrderDelete_marker hmarker] at hdecode
      obtain rfl := Option.some.inj hdecode
      exact .unchanged _ _ rfl
  | none =>
      obtain ⟨hstart, hclear, hend⟩ := marker?_eq_none hmarker
      rw [decodeOrderDelete, if_neg hstart, if_neg hclear, if_neg hend] at hdecode
      split at hdecode
      case h_1 =>
          obtain rfl := Option.some.inj hdecode
          exact .unchanged _ _ rfl
      case h_2 state _ =>
          split at hdecode
          case isTrue =>
              obtain rfl := Option.some.inj hdecode
              exact .unchanged _ _ rfl
          case isFalse =>
              obtain ⟨written, hset, heq⟩ := Option.bind_eq_some_iff.mp hdecode
              obtain ⟨slot, rfl⟩ := setState?_eq hset
              obtain rfl := Option.some.inj heq
              exact .written _ slot _ rfl

theorem decodeOrderReplace_confined (hdecode : decoder.decodeOrderReplace msg out = some result) :
    Confined decoder msg out result ∧ result.update.type = .replace := by
  unfold decodeOrderReplace at hdecode
  split at hdecode
  case h_1 =>
      obtain rfl := Option.some.inj hdecode
      exact ⟨.unchanged _ _ rfl, rfl⟩
  case h_2 slot _ =>
      split at hdecode
      case h_1 =>
          obtain rfl := Option.some.inj hdecode
          exact ⟨.unchanged _ _ rfl, rfl⟩
      case h_2 state _ =>
          split at hdecode
          case isTrue =>
              obtain rfl := Option.some.inj hdecode
              exact ⟨.unchanged _ _ rfl, rfl⟩
          case isFalse =>
              obtain ⟨written, _, hdecode⟩ := Option.bind_eq_some_iff.mp hdecode
              dsimp only at hdecode
              split at hdecode
              case isTrue => cases hdecode
              case isFalse =>
                  obtain ⟨current, _, hdecode⟩ := Option.bind_eq_some_iff.mp hdecode
                  obtain ⟨final, _, heq⟩ := Option.bind_eq_some_iff.mp hdecode
                  obtain rfl := Option.some.inj heq
                  exact ⟨.written _ final _ rfl, rfl⟩

/-- **Every message** is confined to the vector of its ticker. -/
theorem decodeMessage_confined (hdecode : decoder.decodeMessage type msg out = some result) :
    Confined decoder msg out result := by
  cases type with
  | systemEvent =>
      obtain rfl := Option.some.inj hdecode
      exact .unchanged _ _ rfl
  | addOrder => exact decodeAdd_confined hdecode
  | addOrderMpid => exact decodeAdd_confined hdecode
  | orderExecuted => exact decodeReduction_confined hdecode
  | orderCancel => exact decodeReduction_confined hdecode
  | orderDelete => exact decodeOrderDelete_confined hdecode
  | orderReplace => exact (decodeOrderReplace_confined hdecode).1

/-- What shows of a result at a ticker: the answer and the vector. -/
def answer (ticker : TickerId) (result : Decoded) : Bool × MarketUpdate × Option OrderVector :=
  (result.accepted, result.update, result.decoder.orderRefMap[ticker]?)

section Congruence

variable (hslot : decoder.orderRefMap[msg.stockLocate]? = decoder'.orderRefMap[msg.stockLocate]?)

include hslot

theorem state?_congr (ref : OrderId) :
    decoder.state? msg.stockLocate ref = decoder'.state? msg.stockLocate ref := by
  rw [state?, hslot, state?]

theorem setState?_congr (ref : OrderId) (state : OrderState) (update : MarketUpdate)
    (count : UInt64 → UInt64) :
    ((decoder.setState? msg.stockLocate ref state).bind fun written => some (Decoded.mk true update
        { written with trackedOrderCount := count written.trackedOrderCount })).map
        (answer msg.stockLocate) =
      ((decoder'.setState? msg.stockLocate ref state).bind fun written => some (Decoded.mk true update
        { written with trackedOrderCount := count written.trackedOrderCount })).map
        (answer msg.stockLocate) := by
  unfold setState?
  rw [hslot]
  cases decoder'.orderRefMap[msg.stockLocate]? with
  | none => rfl
  | some slot =>
      cases hset : slot.set? ref state with
      | none => simp [hset]
      | some slot' => simp [hset, answer]

theorem decodeAdd_congr (type : UpdateType) :
    (decodeAdd type decoder msg out).map (answer msg.stockLocate) =
      (decodeAdd type decoder' msg out).map (answer msg.stockLocate) := by
  simp only [decodeAdd, hslot, Option.bind_eq_bind, Option.pure_def, Option.map_bind]
  congr 1
  funext slot
  simp [answer]

theorem decodeReduction_congr (type : UpdateType) (qty : Quantity) (newRef : OrderId) :
    (decodeReduction type qty newRef decoder msg out).map (answer msg.stockLocate) =
      (decodeReduction type qty newRef decoder' msg out).map (answer msg.stockLocate) := by
  unfold decodeReduction
  rw [state?_congr hslot]
  cases decoder'.state? msg.stockLocate msg.ref with
  | none => simp [answer, hslot]
  | some state =>
      dsimp only
      split
      case isTrue => simp [answer, hslot]
      case isFalse =>
          split
          case isTrue => exact setState?_congr hslot _ _ _ (· - 1)
          case isFalse => exact setState?_congr hslot _ _ _ id

theorem decodeOrderDelete_congr :
    (decoder.decodeOrderDelete msg out).map (answer msg.stockLocate) =
      (decoder'.decodeOrderDelete msg out).map (answer msg.stockLocate) := by
  unfold decodeOrderDelete
  rw [state?_congr hslot]
  repeat' split
  all_goals first
    | exact setState?_congr hslot _ _ _ (· - 1)
    | simp [answer, hslot]

theorem decodeOrderReplace_congr :
    (decoder.decodeOrderReplace msg out).map (answer msg.stockLocate) =
      (decoder'.decodeOrderReplace msg out).map (answer msg.stockLocate) := by
  unfold decodeOrderReplace
  rw [hslot]
  cases hslot' : decoder'.orderRefMap[msg.stockLocate]? with
  | none => simp [answer, hslot, hslot']
  | some slot =>
      dsimp only
      split
      case h_1 => simp [answer, hslot, hslot']
      case h_2 state _ =>
          split
          case isTrue => simp [answer, hslot, hslot']
          case isFalse =>
              simp only [Option.bind_eq_bind, Option.pure_def, Option.map_bind]
              congr 1
              funext written
              simp only [Function.comp_apply]
              split
              case isTrue => rfl
              case isFalse =>
                  simp only [Option.map_bind]
                  congr 1
                  funext current
                  simp only [Function.comp_apply, Option.map_bind]
                  congr 1
                  funext final
                  simp [answer]

/-- **The vector of the ticker** decides what a message does. -/
theorem decodeMessage_congr (type : MsgType) :
    (decoder.decodeMessage type msg out).map (answer msg.stockLocate) =
      (decoder'.decodeMessage type msg out).map (answer msg.stockLocate) := by
  cases type with
  | systemEvent => simp [decodeMessage, decodeSystemEvent, answer, hslot]
  | addOrder => exact decodeAdd_congr hslot _
  | addOrderMpid => exact decodeAdd_congr hslot _
  | orderExecuted => exact decodeReduction_congr hslot ..
  | orderCancel => exact decodeReduction_congr hslot ..
  | orderDelete => exact decodeOrderDelete_congr hslot
  | orderReplace => exact decodeOrderReplace_congr hslot

end Congruence

/-! ### Frames -/

section Frames

variable {kind : FrameKind} {wire : List UInt8}

/-- The sequence number in front of the message. -/
def seqNumOf (kind : FrameKind) (wire : List UInt8) : SeqNum :=
  match kind with
  | .feed => UInt64.ofNat (field wire 0 8)
  | .snapshot => 0

/-- The buffer starts with all bytes of a frame. -/
def Complete (kind : FrameKind) (wire : List UInt8) (type : MsgType) : Prop :=
  MsgType.ofByte? (wire.getD kind.headerSize 0) = some type
    ∧ kind.headerSize + type.payloadSize ≤ wire.length

/-- The decoder as it handles a complete frame. -/
def handling (decoder : ItchDecoder) (kind : FrameKind) (type : MsgType) : ItchDecoder :=
  { decoder with
    lastDecodedSize := type.payloadSize
    needMoreData :=
      match kind with
      | .feed => false
      | .snapshot => decoder.needMoreData }

theorem payloadSize_pos (type : MsgType) : 0 < type.payloadSize := by
  cases type <;> decide

theorem decodeFrame_eq (decoder : ItchDecoder) (hcomplete : Complete kind wire type) :
    decoder.decodeFrame kind wire = (decoder.handling kind type).decodeMessage type
      (wire.drop kind.headerSize) { seqNum := seqNumOf kind wire } := by
  obtain ⟨htype, hlength⟩ := hcomplete
  cases kind with
  | feed => exact decode_eq_decodeMessage htype hlength
  | snapshot => exact decodeSnapshot_eq_decodeMessage htype ((Nat.zero_add _).symm.trans_le hlength)

/-- An unknown type, or too few bytes. -/
theorem decodeFrame_of_incomplete (decoder : ItchDecoder)
    (hincomplete : ¬ ∃ type, Complete kind wire type) :
    ∃ update size more, decoder.decodeFrame kind wire =
        some ⟨false, update, { decoder with lastDecodedSize := size, needMoreData := more }⟩
      ∧ (kind = .snapshot → more = decoder.needMoreData) := by
  cases kind with
  | feed =>
      unfold decodeFrame decode
      dsimp only
      split
      case isTrue => exact ⟨_, _, _, rfl, nofun⟩
      case isFalse =>
          split
          case h_1 => exact ⟨_, _, _, rfl, nofun⟩
          case h_2 type htype =>
              have hshort : wire.length < 8 + type.payloadSize := by
                by_contra hle
                exact hincomplete ⟨type, htype, Nat.not_lt.mp hle⟩
              rw [if_pos hshort]
              exact ⟨_, _, _, rfl, nofun⟩
  | snapshot =>
      unfold decodeFrame decodeSnapshot
      dsimp only
      split
      case isTrue => exact ⟨_, _, _, rfl, fun _ => rfl⟩
      case isFalse =>
          split
          case h_1 => exact ⟨_, _, _, rfl, fun _ => rfl⟩
          case h_2 type htype =>
              have hshort : wire.length < type.payloadSize := by
                by_contra hle
                refine hincomplete ⟨type, htype, ?_⟩
                simpa [FrameKind.headerSize] using hle
              rw [if_pos hshort]
              exact ⟨_, _, _, rfl, fun _ => rfl⟩

/-- **A frame** is turned down without a trace, or complete and accepted as its message. -/
theorem decodeFrame_cases (hdecode : decoder.decodeFrame kind wire = some result) :
    (result.accepted = false ∧ ∃ size more,
        result.decoder = { decoder with lastDecodedSize := size, needMoreData := more }
          ∧ (kind = .snapshot → more = decoder.needMoreData))
      ∨ (result.accepted = true ∧ ∃ type, Complete kind wire type
        ∧ result.decoder.lastDecodedSize = type.payloadSize
        ∧ result.update.seqNum = seqNumOf kind wire
        ∧ Confined (decoder.handling kind type) (wire.drop kind.headerSize)
          { seqNum := seqNumOf kind wire } result) := by
  by_cases hcomplete : ∃ type, Complete kind wire type
  · obtain ⟨type, hcomplete⟩ := hcomplete
    rw [decodeFrame_eq decoder hcomplete] at hdecode
    have hconfined := decodeMessage_confined hdecode
    have hcases := hconfined
    cases hcases with
    | written update slot count hseq =>
        exact Or.inr ⟨rfl, type, hcomplete, rfl, hseq, hconfined⟩
    | unchanged accepted update hseq =>
        cases accepted with
        | false => exact Or.inl ⟨rfl, _, _, rfl, by rintro rfl; rfl⟩
        | true => exact Or.inr ⟨rfl, type, hcomplete, rfl, hseq, hconfined⟩
  · obtain ⟨update, size, more, hdecode', hmore⟩ := decodeFrame_of_incomplete decoder hcomplete
    obtain rfl := Option.some.inj (hdecode.symm.trans hdecode')
    exact Or.inl ⟨rfl, size, more, rfl, hmore⟩

/-- A frame that is turned down leaves nothing behind that another frame would read. -/
theorem decodeFrame_of_rejected (hdecode : decoder.decodeFrame kind wire = some result)
    (hrejected : result.accepted = false) (wire' : List UInt8) :
    result.decoder.decodeFrame kind wire' = decoder.decodeFrame kind wire' := by
  rcases decodeFrame_cases hdecode with ⟨-, size, more, hdecoder, hmore⟩ | ⟨haccepted, -⟩
  · rw [hdecoder]
    cases kind with
    | feed => rfl
    | snapshot =>
        rw [hmore rfl]
        rfl
  · rw [hrejected] at haccepted
    cases haccepted

/-! ### The bytes behind a frame -/

/-- The fields of its struct that a message reads, as offset and width. -/
def fieldsRead : MsgType → List (Nat × Nat)
  | .systemEvent => []
  | .addOrder | .addOrderMpid => [(19, 1), (32, 4), (20, 4), (11, 8), (1, 2)]
  | .orderExecuted => [(19, 4), (11, 8), (23, 8), (1, 2)]
  | .orderCancel => [(19, 4), (11, 8), (1, 2)]
  | .orderDelete => [(1, 2), (11, 8)]
  | .orderReplace => [(31, 4), (27, 4), (11, 8), (19, 8), (1, 2)]

theorem fieldsRead_inside (type : MsgType) :
    ∀ read ∈ fieldsRead type, read.1 + read.2 ≤ type.payloadSize := by
  cases type <;> decide

/-- Two byte strings are the same where the reads go. -/
def AgreeOn (reads : List (Nat × Nat)) (wire wire' : List UInt8) : Prop :=
  ∀ read ∈ reads, (wire.drop read.1).take read.2 = (wire'.drop read.1).take read.2

/-- A message depends on the fields it reads, and on no other bytes. -/
theorem decodeMessage_congr_fields {msg' : Payload} (decoder : ItchDecoder) (out : MarketUpdate)
    (hagree : AgreeOn (fieldsRead type) msg msg') :
    decoder.decodeMessage type msg out = decoder.decodeMessage type msg' out := by
  have hfield : ∀ offset width, (offset, width) ∈ fieldsRead type →
      field msg offset width = field msg' offset width := fun offset width hmem =>
    congrArg beNat (hagree _ hmem)
  by_cases hsystem : type = .systemEvent
  · subst hsystem
    rfl
  -- Every other message reads the locate and the reference.
  have hlocate : msg.locate = msg'.locate := by
    rw [Payload.locate, hfield 1 2 (by cases type <;> simp_all [fieldsRead]), Payload.locate]
  have hticker : msg.stockLocate = msg'.stockLocate := by
    rw [Payload.stockLocate, hlocate, Payload.stockLocate]
  have href : msg.ref = msg'.ref := by
    rw [Payload.ref, hfield 11 8 (by cases type <;> simp_all [fieldsRead]), Payload.ref]
  cases type with
  | systemEvent => exact absurd rfl hsystem
  | addOrder | addOrderMpid =>
      have hside : msg.side = msg'.side := by
        rw [Payload.side, hfield 19 1 (by simp [fieldsRead]), Payload.side]
      have hprice : msg.price = msg'.price := by
        rw [Payload.price, hfield 32 4 (by simp [fieldsRead]), Payload.price]
      have hshares : msg.shares = msg'.shares := by
        rw [Payload.shares, hfield 20 4 (by simp [fieldsRead]), Payload.shares]
      simp only [decodeMessage, decodeAddOrder, decodeAddOrderMpid, decodeAdd, hside, hprice, hshares, href,
        hticker]
  | orderExecuted =>
      have hshares : msg.execShares = msg'.execShares := by
        rw [Payload.execShares, hfield 19 4 (by simp [fieldsRead]), Payload.execShares]
      have hmatch : msg.matchNumber = msg'.matchNumber := by
        rw [Payload.matchNumber, hfield 23 8 (by simp [fieldsRead]), Payload.matchNumber]
      simp only [decodeMessage, decodeOrderExecuted, decodeReduction, hshares, hmatch, href, hticker]
  | orderCancel =>
      have hcanceled : msg.canceled = msg'.canceled := by
        rw [Payload.canceled, hfield 19 4 (by simp [fieldsRead]), Payload.canceled]
      simp only [decodeMessage, decodeOrderCancel, decodeReduction, hcanceled, href, hticker]
  | orderDelete => simp only [decodeMessage, decodeOrderDelete, hlocate, href, hticker]
  | orderReplace =>
      have hprice : msg.newPrice = msg'.newPrice := by
        rw [Payload.newPrice, hfield 31 4 (by simp [fieldsRead]), Payload.newPrice]
      have hshares : msg.newShares = msg'.newShares := by
        rw [Payload.newShares, hfield 27 4 (by simp [fieldsRead]), Payload.newShares]
      have hnew : msg.newRef = msg'.newRef := by
        rw [Payload.newRef, hfield 19 8 (by simp [fieldsRead]), Payload.newRef]
      simp only [decodeMessage, decodeOrderReplace, hprice, hshares, hnew, href, hticker]

theorem take_drop_take (bytes : List UInt8) {offset width size : Nat} (hle : offset + width ≤ size) :
    ((bytes.take size).drop offset).take width = (bytes.drop offset).take width := by
  rw [List.drop_take, List.take_take, min_eq_left (by omega)]

theorem decodeMessage_take (decoder : ItchDecoder) (type : MsgType) (msg : Payload)
    (out : MarketUpdate) :
    decoder.decodeMessage type (msg.take type.payloadSize) out = decoder.decodeMessage type msg out :=
  decodeMessage_congr_fields decoder out fun read hread =>
    take_drop_take msg (fieldsRead_inside type read hread)

theorem complete_take (hcomplete : Complete kind wire type) :
    Complete kind (wire.take (kind.headerSize + type.payloadSize)) type := by
  have hpos := payloadSize_pos type
  obtain ⟨htype, hlength⟩ := hcomplete
  refine ⟨?_, by simp [hlength]⟩
  rw [← htype, List.getD_eq_getElem?_getD, List.getD_eq_getElem?_getD,
    List.getElem?_take_of_lt (by omega)]

theorem seqNumOf_take (kind : FrameKind) (wire : List UInt8) (size : Nat) :
    seqNumOf kind (wire.take (kind.headerSize + size)) = seqNumOf kind wire := by
  cases kind with
  | feed => exact congrArg (fun bytes => UInt64.ofNat (beNat bytes)) (take_drop_take wire (by simp [FrameKind.headerSize]))
  | snapshot => rfl

/-- **A frame alone** is decoded as it was in the buffer. -/
theorem decodeFrame_take (decoder : ItchDecoder) (hcomplete : Complete kind wire type) :
    decoder.decodeFrame kind (wire.take (kind.headerSize + type.payloadSize)) =
      decoder.decodeFrame kind wire := by
  rw [decodeFrame_eq decoder hcomplete, decodeFrame_eq decoder (complete_take hcomplete),
    seqNumOf_take, List.drop_take, Nat.add_sub_cancel_left, decodeMessage_take]

end Frames

end ItchDecoder

end AlphaTrader
