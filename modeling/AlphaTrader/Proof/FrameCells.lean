import AlphaTrader.Library.Cells
import AlphaTrader.Proof.DecoderLocality

/-!
# The cells of the order table

Frames of different orders act on different entries of the decoder. A replace is the exception: where
it writes depends on the size and the capacity of the vector, so a ticker with replaces is one cell.
-/

namespace AlphaTrader

namespace Frame

def msg (frame : Frame) : Payload := frame.bytes.drop frame.kind.headerSize

def type? (frame : Frame) : Option MsgType :=
  MsgType.ofByte? (frame.bytes.getD frame.kind.headerSize 0)

/-- The cell a frame acts on: its order, or its ticker if the ticker may see replaces. -/
def cell (replaced : TickerId → Bool) (frame : Frame) : TickerId × Option OrderId :=
  (frame.msg.stockLocate, if replaced frame.msg.stockLocate then none else some frame.msg.ref)

/-- Only tickers that may see replaces do. -/
def Plain (replaced : TickerId → Bool) (frame : Frame) : Prop :=
  frame.type? = some .orderReplace → replaced frame.msg.stockLocate = true

instance (replaced : TickerId → Bool) (frame : Frame) : Decidable (frame.Plain replaced) :=
  inferInstanceAs (Decidable (_ → _))

end Frame

namespace ItchDecoder

variable {replaced : TickerId → Bool} {decoder decoder' : ItchDecoder} {frame : Frame}

/-- Two decoders have the same cell. -/
def SameCell (replaced : TickerId → Bool) :
    TickerId × Option OrderId → ItchDecoder → ItchDecoder → Prop
  | (ticker, none), left, right =>
      replaced ticker = true → left.orderRefMap[ticker]? = right.orderRefMap[ticker]?
  | (ticker, some ref), left, right =>
      replaced ticker = false → left.live? ticker ref = right.live? ticker ref

theorem sameCell_equivalence (replaced : TickerId → Bool) (cell : TickerId × Option OrderId) :
    Equivalence (SameCell replaced cell) := by
  obtain ⟨ticker, ref⟩ := cell
  cases ref with
  | none =>
      exact ⟨fun _ _ => rfl, fun h hticker => (h hticker).symm,
        fun h h' hticker => (h hticker).trans (h' hticker)⟩
  | some ref =>
      exact ⟨fun _ _ => rfl, fun h hticker => (h hticker).symm,
        fun h h' hticker => (h hticker).trans (h' hticker)⟩

theorem live?_eq_of_sameCell (hsame : ∀ cell, SameCell replaced cell decoder decoder')
    (ticker : TickerId) (ref : OrderId) : decoder.live? ticker ref = decoder'.live? ticker ref := by
  cases hticker : replaced ticker with
  | false => exact hsame (ticker, some ref) hticker
  | true => rw [live?, hsame (ticker, none) hticker, live?]

theorem sameCell_of_orderRefMap_eq (heq : decoder.orderRefMap = decoder'.orderRefMap)
    (cell : TickerId × Option OrderId) : SameCell replaced cell decoder decoder' := by
  obtain ⟨ticker, ref⟩ := cell
  cases ref with
  | none =>
      intro _
      rw [heq]
  | some ref =>
      intro _
      rw [live?, heq, live?]

/-- The decoder behind an accepted frame. -/
def accept? (replaced : TickerId → Bool) (decoder : ItchDecoder) (frame : Frame) :
    Option ItchDecoder :=
  if frame.Plain replaced then
    (decoder.decodeFrame frame.kind frame.bytes).bind fun result =>
      if result.accepted then some result.decoder else none
  else none

theorem accept?_eq_some_iff : decoder.accept? replaced frame = some decoder' ↔
    frame.Plain replaced ∧ ∃ update,
      decoder.decodeFrame frame.kind frame.bytes = some ⟨true, update, decoder'⟩ := by
  unfold accept?
  split
  case isFalse hplain => simp [hplain]
  case isTrue hplain =>
      simp only [hplain, true_and, Option.bind_eq_some_iff]
      constructor
      · rintro ⟨⟨accepted, update, written⟩, hdecode, heq⟩
        split at heq
        case isTrue haccepted =>
            obtain rfl := Option.some.inj heq
            exact ⟨update, by rw [hdecode, show accepted = true from haccepted]⟩
        case isFalse => cases heq
      · rintro ⟨update, hdecode⟩
        exact ⟨_, hdecode, rfl⟩

/-- An add with the largest reference never returns. -/
theorem decodeAdd_invalid {type : UpdateType} {msg : Payload} {out : MarketUpdate}
    (hinvalid : msg.ref = orderIdInvalid) : decodeAdd type decoder msg out = none := by
  have hset : ∀ (slot : OrderVector) state, (slot.reserve orderIdInvalid).set? orderIdInvalid state = none := by
    intro slot state
    have hle : slot.size ≤ orderIdInvalid := by
      rw [UInt64.le_iff_toNat_le]
      have := slot.size.toNat_lt
      simp only [orderIdInvalid]
      exact Nat.le_of_lt_succ this
    have hsize : (slot.reserve orderIdInvalid).size = 0 := by
      rw [OrderVector.reserve, if_pos hle, OrderVector.resize]
      split <;> rfl
    simp [OrderVector.set?, hsize]
  simp [decodeAdd, hinvalid, hset]

theorem ref_valid_of_decodeMessage {type : MsgType} {msg : Payload} {out : MarketUpdate}
    {result : Decoded} (hdecode : decoder.decodeMessage type msg out = some result)
    (htype : type = .addOrder ∨ type = .addOrderMpid) : msg.ref ≠ orderIdInvalid := by
  intro hinvalid
  rcases htype with rfl | rfl
  · exact absurd (hdecode.symm.trans (decodeAdd_invalid hinvalid)) (by simp)
  · exact absurd (hdecode.symm.trans (decodeAdd_invalid hinvalid)) (by simp)

theorem accept?_iff_decodeMessage : decoder.accept? replaced frame = some decoder' ↔
    ∃ type update, Complete frame.kind frame.bytes type
      ∧ (type = .orderReplace → replaced frame.msg.stockLocate = true)
      ∧ (decoder.handling frame.kind type).decodeMessage type frame.msg
        { seqNum := seqNumOf frame.kind frame.bytes } = some ⟨true, update, decoder'⟩ := by
  rw [accept?_eq_some_iff]
  constructor
  · rintro ⟨hplain, update, hdecode⟩
    rcases decodeFrame_cases hdecode with ⟨hrejected, -⟩ | ⟨-, type, hcomplete, -⟩
    · cases hrejected
    · rw [decodeFrame_eq decoder hcomplete] at hdecode
      exact ⟨type, update, hcomplete, fun htype => hplain (htype ▸ hcomplete.1), hdecode⟩
  · rintro ⟨type, update, hcomplete, hreplace, hdecode⟩
    refine ⟨fun htype => hreplace ?_, update, (decodeFrame_eq decoder hcomplete).trans hdecode⟩
    exact Option.some.inj (hcomplete.1.symm.trans htype)

theorem touches_of_decodeMessage {type : MsgType} {msg : Payload} {out : MarketUpdate}
    {result : Decoded} (hreplace : type ≠ .orderReplace)
    (hdecode : decoder.decodeMessage type msg out = some result) :
    Touches decoder msg result (touch type msg out (decoder.live? msg.stockLocate msg.ref)) := by
  obtain ⟨result', hdecode', htouches⟩ : ∃ result', decoder.decodeMessage type msg out = some result'
      ∧ Touches decoder msg result' (touch type msg out (decoder.live? msg.stockLocate msg.ref)) :=
    decodeMessage_touches hreplace (ref_valid_of_decodeMessage hdecode)
  obtain rfl := Option.some.inj (hdecode.symm.trans hdecode')
  exact htouches

theorem sameCell_frame {cell : TickerId × Option OrderId}
    (haccept : decoder.accept? replaced frame = some decoder') (hne : cell ≠ frame.cell replaced) :
    SameCell replaced cell decoder decoder' := by
  obtain ⟨type, update, -, hreplace, hdecode⟩ := accept?_iff_decodeMessage.mp haccept
  -- a vector of another ticker is not written
  have hother : ∀ ticker, ticker ≠ frame.msg.stockLocate →
      decoder.orderRefMap[ticker]? = decoder'.orderRefMap[ticker]? := by
    intro ticker hticker
    have hcompare : compare frame.msg.stockLocate ticker ≠ .eq := by simpa using Ne.symm hticker
    cases decodeMessage_confined hdecode with
    | unchanged => rfl
    | written => simp [Std.TreeMap.getElem?_insert, hcompare, handling]
  obtain ⟨ticker, ref⟩ := cell
  by_cases hticker : ticker = frame.msg.stockLocate
  · subst hticker
    cases ref with
    | none =>
        intro hreplaced
        exact absurd (by rw [Frame.cell, if_pos hreplaced]) hne
    | some ref =>
        intro hreplaced
        have htouches := touches_of_decodeMessage
          (fun htype => by rw [hreplace htype] at hreplaced; cases hreplaced) hdecode
        have href : ref ≠ frame.msg.ref := by
          rintro rfl
          exact hne (by rw [Frame.cell, if_neg (by simp [hreplaced])])
        rw [htouches.live, if_neg (fun h => href h.2)]
        rfl
  · cases ref with
    | none => exact fun _ => hother ticker hticker
    | some ref =>
        intro _
        rw [live?, hother ticker hticker, live?]

theorem sameCell_act {other : ItchDecoder} (haccept : decoder.accept? replaced frame = some decoder')
    (hsame : SameCell replaced (frame.cell replaced) decoder other) :
    ∃ other', other.accept? replaced frame = some other'
      ∧ SameCell replaced (frame.cell replaced) decoder' other' := by
  obtain ⟨type, update, hcomplete, hreplace, hdecode⟩ := accept?_iff_decodeMessage.mp haccept
  cases hreplaced : replaced frame.msg.stockLocate with
  | true =>
      rw [Frame.cell, if_pos hreplaced] at hsame ⊢
      let out : MarketUpdate := { seqNum := seqNumOf frame.kind frame.bytes }
      have hslot : (decoder.handling frame.kind type).orderRefMap[frame.msg.stockLocate]? =
          (other.handling frame.kind type).orderRefMap[frame.msg.stockLocate]? := hsame hreplaced
      have hcongr : ((decoder.handling frame.kind type).decodeMessage type frame.msg out).map
            (answer frame.msg.stockLocate) =
          ((other.handling frame.kind type).decodeMessage type frame.msg out).map
            (answer frame.msg.stockLocate) :=
        decodeMessage_congr hslot type
      rw [hdecode, Option.map_some] at hcongr
      obtain ⟨⟨accepted, update', other'⟩, hdecode', hanswer⟩ :=
        Option.map_eq_some_iff.mp hcongr.symm
      obtain ⟨rfl, rfl, hslot⟩ : accepted = true ∧ update' = update
          ∧ other'.orderRefMap[frame.msg.stockLocate]? =
            decoder'.orderRefMap[frame.msg.stockLocate]? := by
        simpa [answer] using hanswer
      exact ⟨other', accept?_iff_decodeMessage.mpr ⟨type, _, hcomplete, hreplace, hdecode'⟩,
        fun _ => hslot.symm⟩
  | false =>
      rw [Frame.cell, if_neg (by simp [hreplaced])] at hsame ⊢
      have hne : type ≠ .orderReplace := fun htype => by
        rw [hreplace htype] at hreplaced
        cases hreplaced
      have hlive := hsame hreplaced
      have htouches := touches_of_decodeMessage hne hdecode
      let out : MarketUpdate := { seqNum := seqNumOf frame.kind frame.bytes }
      obtain ⟨⟨accepted, update', other'⟩, hdecode', htouches'⟩ : ∃ result,
          (other.handling frame.kind type).decodeMessage type frame.msg out = some result
            ∧ Touches (other.handling frame.kind type) frame.msg result (touch type frame.msg out
              (decoder.live? frame.msg.stockLocate frame.msg.ref)) :=
        hlive ▸ decodeMessage_touches hne (ref_valid_of_decodeMessage hdecode)
      -- both see the same entry, so both do the same to it
      obtain rfl : accepted = true := htouches'.accepted.trans htouches.accepted.symm
      refine ⟨other', accept?_iff_decodeMessage.mpr ⟨type, _, hcomplete, hreplace, hdecode'⟩,
        fun _ => ?_⟩
      obtain ⟨effect, heffect⟩ := Option.isSome_iff_exists.mp htouches'.accepted.symm
      have hleft := htouches.live frame.msg.stockLocate frame.msg.ref
      have hright := htouches'.live frame.msg.stockLocate frame.msg.ref
      rw [if_pos ⟨rfl, rfl⟩] at hleft hright
      refine hleft.trans (Eq.trans ?_ hright.symm)
      rw [heffect]
      exact congrArg (fun effect => (Option.map Prod.snd effect).getD _) heffect

theorem accept?_independent (replaced : TickerId → Bool) :
    Cells.Independent (accept? replaced) (Frame.cell replaced) (SameCell replaced) where
  equivalence := sameCell_equivalence replaced
  frame := sameCell_frame
  act := sameCell_act

end ItchDecoder

end AlphaTrader
