import AlphaTrader.Library.Run
import AlphaTrader.Proof.DecoderSpec

/-!
# The count of tracked orders

The decoder counts the live orders by hand. An execution, a cancel or a delete that kills an order
takes one off; an add and a replace put one on, whether or not there is one more live order after it.
So the count is never too low, and it is right exactly as long as every add brings one more live order
and no replace is accepted.
-/

namespace AlphaTrader

theorem OrderVector.isSome_live?_iff {slot : OrderVector} {ref : OrderId} :
    (slot.live? ref).isSome = true ↔ ∃ state, slot.states[ref]? = some state ∧ state.qty ≠ 0 := by
  unfold live? get?
  rw [Std.TreeMap.getD_eq_getD_getElem?]
  cases hstate : slot.states[ref]? with
  | none => split <;> simp [Option.filter]
  | some state =>
      have hlt : ref < slot.size := slot.bound ref (Std.TreeMap.mem_iff_isSome_getElem?.mpr (by simp [hstate]))
      simp [hlt]

namespace ItchDecoder

variable {decoder decoder' : ItchDecoder} {msg : Payload} {out : MarketUpdate}

/-! ### Live orders -/

/-- The references with a quantity, each with its ticker. -/
def liveOrders (decoder : ItchDecoder) : Finset (TickerId × OrderId) :=
  (decoder.orderRefMap.toList.flatMap fun (ticker, slot) =>
    (slot.states.toList.filter fun (_, state) => state.qty ≠ 0).map fun (ref, _) =>
      (ticker, ref)).toFinset

theorem mem_liveOrders {ticker : TickerId} {ref : OrderId} :
    (ticker, ref) ∈ decoder.liveOrders ↔ (decoder.live? ticker ref).isSome = true := by
  have hlive : (decoder.live? ticker ref).isSome = true
      ↔ ∃ slot, decoder.orderRefMap[ticker]? = some slot ∧ (slot.live? ref).isSome = true := by
    simp [live?, Option.isSome_bind, Option.any_eq_true]
  rw [hlive]
  simp only [liveOrders, OrderVector.isSome_live?_iff, List.mem_toFinset, List.mem_flatMap,
    List.mem_map, List.mem_filter, Prod.exists, Std.TreeMap.mem_toList_iff_getElem?_eq_some,
    Prod.mk.injEq, decide_eq_true_eq]
  constructor
  · rintro ⟨_, slot, hslot, _, state, ⟨hstate, hqty⟩, rfl, rfl⟩
    exact ⟨slot, hslot, state, hstate, hqty⟩
  · rintro ⟨slot, hslot, state, hstate, hqty⟩
    exact ⟨ticker, slot, hslot, ref, state, ⟨hstate, hqty⟩, rfl, rfl⟩

theorem card_eq_card_erase_add {α : Type*} [DecidableEq α] (s : Finset α) (a : α) :
    s.card = (s.erase a).card + if a ∈ s then 1 else 0 := by
  by_cases hmem : a ∈ s
  · rw [if_pos hmem, Finset.card_erase_add_one hmem]
  · rw [if_neg hmem, Finset.erase_eq_of_notMem hmem, add_zero]

/-- A message that changes one entry changes the number of live orders by what it does to the entry. -/
theorem card_liveOrders {ticker : TickerId} {ref : OrderId} {entry : Option OrderState}
    (hlive : ∀ ticker' ref', decoder'.live? ticker' ref' =
      if ticker' = ticker ∧ ref' = ref then entry else decoder.live? ticker' ref') :
    decoder'.liveOrders.card + (if (decoder.live? ticker ref).isSome then 1 else 0) =
      decoder.liveOrders.card + if entry.isSome then 1 else 0 := by
  have hothers : decoder'.liveOrders.erase (ticker, ref) = decoder.liveOrders.erase (ticker, ref) := by
    ext ⟨ticker', ref'⟩
    simp only [Finset.mem_erase, ne_eq, Prod.mk.injEq, mem_liveOrders, hlive]
    refine and_congr_right fun hne => ?_
    rw [if_neg hne]
  have hself : decoder'.live? ticker ref = entry := by
    rw [hlive, if_pos ⟨rfl, rfl⟩]
  have hafter := card_eq_card_erase_add decoder'.liveOrders (ticker, ref)
  have hbefore := card_eq_card_erase_add decoder.liveOrders (ticker, ref)
  simp only [mem_liveOrders, hself] at hafter hbefore
  rw [hafter, hbefore, hothers]
  omega

theorem liveOrders_congr (htable : decoder'.orderRefMap = decoder.orderRefMap) :
    decoder'.liveOrders = decoder.liveOrders := by
  rw [liveOrders, htable, liveOrders]

/-! ### Messages -/

/-- A message that puts one on the count. -/
def Opens (decoder : ItchDecoder) (msg : Payload) : MsgType → Prop
  | .addOrder | .addOrderMpid => True
  | .orderReplace => (decoder.live? msg.stockLocate msg.ref).isSome = true
  | _ => False

instance (decoder : ItchDecoder) (msg : Payload) : ∀ type, Decidable (decoder.Opens msg type)
  | .addOrder | .addOrderMpid => isTrue trivial
  | .orderReplace => inferInstanceAs (Decidable (_ = true))
  | .systemEvent | .orderExecuted | .orderCancel | .orderDelete => isFalse id

/-- A message that brings one more live order. A replace never does. -/
def Grows (decoder : ItchDecoder) (msg : Payload) : MsgType → Prop
  | .addOrder | .addOrderMpid => msg.shares ≠ 0 ∧ decoder.live? msg.stockLocate msg.ref = none
  | _ => False

instance (decoder : ItchDecoder) (msg : Payload) : ∀ type, Decidable (decoder.Grows msg type)
  | .addOrder | .addOrderMpid => inferInstanceAs (Decidable (_ ∧ _))
  | .systemEvent | .orderExecuted | .orderCancel | .orderDelete | .orderReplace => isFalse id

/-- The new references that a message writes can be held by a vector. -/
def ValidRefs (msg : Payload) : MsgType → Prop
  | .addOrder | .addOrderMpid => msg.ref ≠ orderIdInvalid
  | .orderReplace => msg.newRef ≠ orderIdInvalid
  | _ => True

instance (msg : Payload) : ∀ type, Decidable (ValidRefs msg type)
  | .addOrder | .addOrderMpid => inferInstanceAs (Decidable (_ ≠ _))
  | .orderReplace => inferInstanceAs (Decidable (_ ≠ _))
  | .systemEvent | .orderExecuted | .orderCancel | .orderDelete => isTrue trivial

/-- What a message does to the count and to the number of live orders. -/
inductive Change (decoder : ItchDecoder) (msg : Payload) (type : MsgType) (decoder' : ItchDecoder) :
    Prop
  | kept (hopens : ¬ decoder.Opens msg type) (hcount : decoder'.trackedOrders = decoder.trackedOrders)
      (hlive : decoder'.liveOrders.card = decoder.liveOrders.card)
  | died (hopens : ¬ decoder.Opens msg type)
      (hcount : decoder'.trackedOrders = decoder.trackedOrders - 1)
      (hlive : decoder'.liveOrders.card + 1 = decoder.liveOrders.card)
  | opened (hopens : decoder.Opens msg type)
      (hcount : decoder'.trackedOrders = decoder.trackedOrders + 1)
      (hupper : decoder'.liveOrders.card ≤ decoder.liveOrders.card + 1)
      (hlower : decoder.liveOrders.card ≤ decoder'.liveOrders.card + 2)
      (hgrows : decoder'.liveOrders.card = decoder.liveOrders.card + 1 ↔ decoder.Grows msg type)

variable {type : MsgType}

theorem isSome_entry?_iff {state : OrderState} : (OrderState.entry? state).isSome = true ↔ state.qty ≠ 0 := by
  unfold OrderState.entry?
  split <;> simp_all

theorem change_add (decoder : ItchDecoder) (out : MarketUpdate)
    (htype : type = .addOrder ∨ type = .addOrderMpid) (hvalid : ValidRefs msg type) :
    ∃ result, decoder.decodeMessage type msg out = some result
      ∧ Change decoder msg type result.decoder := by
  have hreplace : type ≠ .orderReplace := by
    rcases htype with rfl | rfl <;> nofun
  have hmessage : decoder.Opens msg type ∧ (decoder.Grows msg type
      ↔ msg.shares ≠ 0 ∧ decoder.live? msg.stockLocate msg.ref = none) ∧ msg.ref ≠ orderIdInvalid := by
    rcases htype with rfl | rfl <;> exact ⟨trivial, Iff.rfl, hvalid⟩
  obtain ⟨hopens, hgrows, href⟩ := hmessage
  obtain ⟨update, hadd, htouch⟩ : ∃ update, (update.type = .add ∨ update.type = .addMpid)
      ∧ touch type msg out (decoder.live? msg.stockLocate msg.ref) =
        some (update, OrderState.entry? ⟨msg.side, msg.price, msg.shares, msg.stockLocate⟩) := by
    rcases htype with rfl | rfl
    · exact ⟨_, Or.inl rfl, rfl⟩
    · exact ⟨_, Or.inr rfl, rfl⟩
  obtain ⟨result, hdecode, htouches⟩ : ∃ result, decoder.decodeMessage type msg out = some result
      ∧ Touches decoder msg result (touch type msg out (decoder.live? msg.stockLocate msg.ref)) :=
    decodeMessage_touches hreplace fun _ => href
  rw [htouch] at htouches
  have hcount : result.decoder.trackedOrderCount = _ := htouches.count
  rw [counted, if_pos hadd] at hcount
  have hcard := card_liveOrders htouches.live
  simp only [Option.map_some, Option.getD_some, isSome_entry?_iff] at hcard
  have hbounds : result.decoder.liveOrders.card ≤ decoder.liveOrders.card + 1
      ∧ decoder.liveOrders.card ≤ result.decoder.liveOrders.card + 2 := by
    split_ifs at hcard <;> omega
  refine ⟨result, hdecode, .opened hopens hcount hbounds.1 hbounds.2 ?_⟩
  rw [hgrows]
  split_ifs at hcard with hold hshares hshares
  · exact iff_of_false (by omega) fun h => by simp [h.2] at hold
  · exact iff_of_false (by omega) fun h => hshares h.1
  · exact iff_of_true (by omega) ⟨hshares, by simpa using hold⟩
  · exact iff_of_false (by omega) fun h => hshares h.1

/-- A message that is neither an add nor a replace leaves no order where there was none. -/
theorem touch_closes {old entry : Option OrderState} {update : MarketUpdate}
    (hadd : type ≠ .addOrder ∧ type ≠ .addOrderMpid)
    (htouch : touch type msg out old = some (update, entry)) :
    ¬ (update.type = .add ∨ update.type = .addMpid) ∧ (entry.isSome = true → old.isSome = true) := by
  have hold : ∀ {f : OrderState → MarketUpdate × Option OrderState}, old.map f = some (update, entry) →
      old.isSome = true := by
    intro f hmap
    obtain ⟨state, rfl, -⟩ := Option.map_eq_some_iff.mp hmap
    rfl
  cases type with
  | systemEvent => cases htouch
  | orderReplace => cases htouch
  | addOrder => exact absurd rfl hadd.1
  | addOrderMpid => exact absurd rfl hadd.2
  | orderExecuted =>
      obtain ⟨state, -, heq⟩ := Option.map_eq_some_iff.mp htouch
      obtain ⟨rfl, -⟩ := Prod.mk.inj heq
      exact ⟨by simp [entryUpdate], fun _ => hold htouch⟩
  | orderCancel =>
      obtain ⟨state, -, heq⟩ := Option.map_eq_some_iff.mp htouch
      obtain ⟨rfl, -⟩ := Prod.mk.inj heq
      exact ⟨by simp [entryUpdate], fun _ => hold htouch⟩
  | orderDelete =>
      unfold touch at htouch
      dsimp only at htouch
      split at htouch
      case h_1 type hmarker =>
          obtain ⟨rfl, rfl⟩ := Prod.mk.inj (Option.some.inj htouch)
          exact ⟨marker?_ne_add hmarker, id⟩
      case h_2 =>
          obtain ⟨state, -, heq⟩ := Option.map_eq_some_iff.mp htouch
          obtain ⟨rfl, -⟩ := Prod.mk.inj heq
          exact ⟨by simp [entryUpdate], fun _ => hold htouch⟩

theorem change_close (decoder : ItchDecoder) (out : MarketUpdate)
    (hadd : type ≠ .addOrder ∧ type ≠ .addOrderMpid) (hreplace : type ≠ .orderReplace) :
    ∃ result, decoder.decodeMessage type msg out = some result
      ∧ Change decoder msg type result.decoder := by
  obtain ⟨result, hdecode, htouches⟩ : ∃ result, decoder.decodeMessage type msg out = some result
      ∧ Touches decoder msg result (touch type msg out (decoder.live? msg.stockLocate msg.ref)) :=
    decodeMessage_touches hreplace fun h => absurd h (by simp [hadd])
  have hopens : ¬ decoder.Opens msg type := by
    cases type with
    | addOrder => exact absurd rfl hadd.1
    | addOrderMpid => exact absurd rfl hadd.2
    | orderReplace => exact absurd rfl hreplace
    | _ => exact id
  have hcard := card_liveOrders htouches.live
  have hcount := htouches.count
  refine ⟨result, hdecode, ?_⟩
  cases htouch : touch type msg out (decoder.live? msg.stockLocate msg.ref) with
  | none =>
      rw [htouch] at hcard hcount
      exact .kept hopens hcount (by simpa using hcard)
  | some effect =>
      obtain ⟨update, entry⟩ := effect
      obtain ⟨htype, hentry⟩ := touch_closes hadd htouch
      rw [htouch, counted, if_neg htype] at hcount
      rw [htouch] at hcard
      simp only [Option.map_some, Option.getD_some] at hcard
      by_cases hdies : (decoder.live? msg.stockLocate msg.ref).isSome = true ∧ entry.isNone = true
      · rw [if_pos hdies] at hcount
        rw [if_pos hdies.1, if_neg (by simpa using hdies.2)] at hcard
        exact .died hopens hcount hcard
      · rw [if_neg hdies] at hcount
        have hiff : (decoder.live? msg.stockLocate msg.ref).isSome = true ↔ entry.isSome = true :=
          ⟨fun hold => Option.isSome_iff_ne_none.mpr (by simpa [hold] using hdies), hentry⟩
        simp only [hiff] at hcard
        exact .kept hopens hcount (Nat.add_right_cancel hcard)

/-- The old order dies, so there are no more orders than before. -/
theorem change_killed {state : OrderState} {result : Decoded}
    (hlive : decoder.live? msg.stockLocate msg.ref = some state)
    (hreplaces : Replaces decoder msg out state result) :
    Change decoder msg .orderReplace result.decoder := by
  have hold : (msg.stockLocate, msg.ref) ∈ decoder.liveOrders :=
    mem_liveOrders.mpr (by rw [hlive]; rfl)
  have hupper : result.decoder.liveOrders ⊆
      insert (msg.stockLocate, msg.newRef) (decoder.liveOrders.erase (msg.stockLocate, msg.ref)) := by
    rintro ⟨ticker, ref⟩ hmem
    rw [mem_liveOrders, hreplaces.live] at hmem
    simp only [Finset.mem_insert, Finset.mem_erase, ne_eq, Prod.mk.injEq, mem_liveOrders]
    split_ifs at hmem with hticker hkilled hnew
    · cases hmem
    · exact Or.inl ⟨hticker, hnew⟩
    · exact Or.inr ⟨fun h => hkilled h.2, hmem⟩
    · exact Or.inr ⟨fun h => hticker h.1, hmem⟩
  have hlower : decoder.liveOrders ⊆ insert (msg.stockLocate, msg.ref)
      (insert (msg.stockLocate, msg.newRef) result.decoder.liveOrders) := by
    rintro ⟨ticker, ref⟩ hmem
    rw [mem_liveOrders] at hmem
    simp only [Finset.mem_insert, Prod.mk.injEq, mem_liveOrders, hreplaces.live]
    split_ifs with hticker hkilled hnew
    · exact Or.inl ⟨hticker, hkilled⟩
    · exact Or.inr (Or.inl ⟨hticker, hnew⟩)
    · exact Or.inr (Or.inr hmem)
    · exact Or.inr (Or.inr hmem)
  have hle := (Finset.card_le_card hupper).trans (Finset.card_insert_le _ _)
  rw [Finset.card_erase_add_one hold] at hle
  have hge : decoder.liveOrders.card ≤ result.decoder.liveOrders.card + 2 :=
    calc decoder.liveOrders.card
        ≤ (insert (msg.stockLocate, msg.newRef) result.decoder.liveOrders).card + 1 :=
          (Finset.card_le_card hlower).trans (Finset.card_insert_le _ _)
      _ ≤ result.decoder.liveOrders.card + 2 := by
          exact Nat.succ_le_succ (Finset.card_insert_le _ _)
  exact .opened (by simp [Opens, hlive]) hreplaces.count (by omega) hge (iff_of_false (by omega) id)

theorem change_replace {result : Decoded}
    (hdecode : decoder.decodeMessage .orderReplace msg out = some result) :
    Change decoder msg .orderReplace result.decoder := by
  obtain ⟨hlive, -, hsame⟩ | ⟨state, hlive, -, -, hreplaces⟩ := decodeOrderReplace_cases hdecode
  · rw [hsame]
    exact .kept (by simp [Opens, hlive]) rfl rfl
  · exact change_killed hlive hreplaces

/-- **Every message** that is defined changes the count and the number of live orders in one of these
ways. -/
theorem change_decodeMessage {result : Decoded} (hvalid : ValidRefs msg type)
    (hdecode : decoder.decodeMessage type msg out = some result) :
    Change decoder msg type result.decoder := by
  by_cases hreplace : type = .orderReplace
  · subst hreplace
    exact change_replace hdecode
  · obtain ⟨result', hdecode', hchange⟩ : ∃ result', decoder.decodeMessage type msg out = some result'
        ∧ Change decoder msg type result'.decoder := by
      by_cases hadd : type = .addOrder ∨ type = .addOrderMpid
      · exact change_add decoder out hadd hvalid
      · exact change_close decoder out (not_or.mp hadd) hreplace
    obtain rfl := Option.some.inj (hdecode.symm.trans hdecode')
    exact hchange

/-- A message that opens no order, or brings one more, is defined. -/
theorem decodeMessage_defined (decoder : ItchDecoder) (out : MarketUpdate) (hvalid : ValidRefs msg type)
    (hgrows : decoder.Opens msg type → decoder.Grows msg type) :
    ∃ result, decoder.decodeMessage type msg out = some result := by
  by_cases hreplace : type = .orderReplace
  · subst hreplace
    have hdead : decoder.live? msg.stockLocate msg.ref = none := by
      by_contra hsome
      exact hgrows (Option.isSome_iff_ne_none.mpr hsome)
    exact ⟨_, decodeOrderReplace_of_dead decoder out hdead⟩
  · have hadd : type = .addOrder ∨ type = .addOrderMpid → msg.ref ≠ orderIdInvalid := by
      rintro (rfl | rfl) <;> exact hvalid
    obtain ⟨result, hdecode, -⟩ : ∃ result, decoder.decodeMessage type msg out = some result ∧ _ :=
      decodeMessage_touches hreplace hadd
    exact ⟨result, hdecode⟩

/-! ### Calls -/

/-- A call from outside. -/
inductive Call where
  | decode (wire : List UInt8) (out : MarketUpdate)
  | decodeSnapshot (wire : List UInt8) (out : MarketUpdate)
  | reset

def call (decoder : ItchDecoder) : Call → Option ItchDecoder
  | .decode wire out => (decoder.decode wire out).map Decoded.decoder
  | .decodeSnapshot wire out => (decoder.decodeSnapshot wire out).map Decoded.decoder
  | .reset => some decoder.reset

/-- The message behind a header, if all of it is there. -/
def framed? (header : Nat) (wire : List UInt8) : Option (MsgType × Payload) :=
  (MsgType.ofByte? (wire.getD header 0)).bind fun type =>
    if header + type.payloadSize ≤ wire.length then some (type, wire.drop header) else none

def Call.message? : Call → Option (MsgType × Payload)
  | .decode wire _ => framed? 8 wire
  | .decodeSnapshot wire _ => framed? 0 wire
  | .reset => none

def Call.ValidRefs (c : Call) : Prop :=
  ∀ message ∈ c.message?, ItchDecoder.ValidRefs message.2 message.1

instance (c : Call) : Decidable c.ValidRefs := inferInstanceAs (Decidable (∀ _ ∈ _, _))

theorem framed?_eq_some_iff {header : Nat} {wire : List UInt8} :
    framed? header wire = some (type, msg) ↔ MsgType.ofByte? (wire.getD header 0) = some type
      ∧ header + type.payloadSize ≤ wire.length ∧ msg = wire.drop header := by
  unfold framed?
  rw [Option.bind_eq_some_iff]
  constructor
  · rintro ⟨type', htype, hsome⟩
    split at hsome
    case isTrue hlength =>
        obtain ⟨rfl, rfl⟩ := Prod.mk.inj (Option.some.inj hsome)
        exact ⟨htype, hlength, rfl⟩
    case isFalse => cases hsome
  · rintro ⟨htype, hlength, rfl⟩
    exact ⟨type, htype, if_pos hlength⟩

theorem framed?_eq_none_iff {header : Nat} {wire : List UInt8} :
    framed? header wire = none ↔ ∀ type, MsgType.ofByte? (wire.getD header 0) = some type →
      wire.length < header + type.payloadSize := by
  unfold framed?
  rw [Option.bind_eq_none_iff]
  refine forall₂_congr fun type _ => ?_
  split <;> simp_all

/-- Only the table and the count matter. -/
theorem Change.congr (hchange : Change decoder msg type decoder') {other : ItchDecoder}
    (htable : decoder.orderRefMap = other.orderRefMap)
    (hcount : decoder.trackedOrderCount = other.trackedOrderCount) : Change other msg type decoder' := by
  obtain ⟨table, count, size, more⟩ := decoder
  obtain ⟨table', count', size', more'⟩ := other
  obtain rfl : table = table' := htable
  obtain rfl : count = count' := hcount
  cases hchange with
  | kept hopens hcount hlive => exact .kept hopens hcount hlive
  | died hopens hcount hlive => exact .died hopens hcount hlive
  | opened hopens hcount hupper hlower hgrows => exact .opened hopens hcount hupper hlower hgrows

theorem decode_unframed (decoder : ItchDecoder) {wire : List UInt8} (out : MarketUpdate)
    (hmessage : framed? 8 wire = none) :
    ∃ result, decoder.decode wire out = some result
      ∧ result.decoder.orderRefMap = decoder.orderRefMap
      ∧ result.decoder.trackedOrderCount = decoder.trackedOrderCount := by
  have hshort := framed?_eq_none_iff.mp hmessage
  unfold decode
  dsimp only
  split
  case isTrue => exact ⟨_, rfl, rfl, rfl⟩
  case isFalse =>
      split
      case h_1 => exact ⟨_, rfl, rfl, rfl⟩
      case h_2 type htype =>
          rw [if_pos (hshort type htype)]
          exact ⟨_, rfl, rfl, rfl⟩

theorem decodeSnapshot_unframed (decoder : ItchDecoder) {wire : List UInt8} (out : MarketUpdate)
    (hmessage : framed? 0 wire = none) :
    ∃ result, decoder.decodeSnapshot wire out = some result
      ∧ result.decoder.orderRefMap = decoder.orderRefMap
      ∧ result.decoder.trackedOrderCount = decoder.trackedOrderCount := by
  have hshort := framed?_eq_none_iff.mp hmessage
  unfold decodeSnapshot
  dsimp only
  split
  case isTrue => exact ⟨_, rfl, rfl, rfl⟩
  case isFalse =>
      split
      case h_1 => exact ⟨_, rfl, rfl, rfl⟩
      case h_2 type htype =>
          rw [if_pos (by simpa using hshort type htype)]
          exact ⟨_, rfl, rfl, rfl⟩

/-- **A call** with a message is that message, for a decoder with the same table and count; any other
call keeps or clears them. -/
theorem call_cases (decoder : ItchDecoder) (c : Call) :
    (∃ type msg out, ∃ base : ItchDecoder, c.message? = some (type, msg)
        ∧ base.orderRefMap = decoder.orderRefMap
        ∧ base.trackedOrderCount = decoder.trackedOrderCount
        ∧ decoder.call c = (base.decodeMessage type msg out).map Decoded.decoder)
      ∨ c.message? = none ∧ ∃ decoder', decoder.call c = some decoder' ∧ (decoder' = decoder.reset
        ∨ decoder'.orderRefMap = decoder.orderRefMap
          ∧ decoder'.trackedOrderCount = decoder.trackedOrderCount) := by
  cases c with
  | reset => exact Or.inr ⟨rfl, _, rfl, Or.inl rfl⟩
  | decode wire out =>
      cases hmessage : framed? 8 wire with
      | some message =>
          obtain ⟨type, msg⟩ := message
          obtain ⟨htype, hlength, rfl⟩ := framed?_eq_some_iff.mp hmessage
          refine Or.inl ⟨type, _, { out with seqNum := UInt64.ofNat (field wire 0 8) },
            { decoder with lastDecodedSize := type.payloadSize, needMoreData := false }, hmessage, rfl, rfl, ?_⟩
          rw [call, decode_eq_decodeMessage htype hlength]
      | none =>
          obtain ⟨result, hdecode, hkept⟩ := decode_unframed decoder out hmessage
          exact Or.inr ⟨hmessage, result.decoder, by rw [call, hdecode, Option.map_some], Or.inr hkept⟩
  | decodeSnapshot wire out =>
      cases hmessage : framed? 0 wire with
      | some message =>
          obtain ⟨type, msg⟩ := message
          obtain ⟨htype, hlength, rfl⟩ := framed?_eq_some_iff.mp hmessage
          rw [zero_add] at hlength
          refine Or.inl ⟨type, _, { out with seqNum := 0 },
            { decoder with lastDecodedSize := type.payloadSize }, hmessage, rfl, rfl, ?_⟩
          rw [call, decodeSnapshot_eq_decodeMessage htype hlength]
      | none =>
          obtain ⟨result, hdecode, hkept⟩ := decodeSnapshot_unframed decoder out hmessage
          exact Or.inr ⟨hmessage, result.decoder, by rw [call, hdecode, Option.map_some], Or.inr hkept⟩

theorem change_call {c : Call} (hvalid : c.ValidRefs) (hcall : decoder.call c = some decoder') :
    (∃ type msg, c.message? = some (type, msg) ∧ Change decoder msg type decoder')
      ∨ c.message? = none ∧ (decoder' = decoder.reset
        ∨ decoder'.orderRefMap = decoder.orderRefMap
          ∧ decoder'.trackedOrderCount = decoder.trackedOrderCount) := by
  rcases decoder.call_cases c with
    ⟨type, msg, out, base, hmessage, htable, hcount, heq⟩ | ⟨hmessage, decoder'', heq, hrest⟩
  · rw [heq] at hcall
    obtain ⟨result, hdecode, rfl⟩ := Option.map_eq_some_iff.mp hcall
    exact Or.inl ⟨type, msg, hmessage, (change_decodeMessage (hvalid _ hmessage) hdecode).congr htable hcount⟩
  · obtain rfl := Option.some.inj (hcall.symm.trans heq)
    exact Or.inr ⟨hmessage, hrest⟩

theorem call_defined {c : Call} (hvalid : c.ValidRefs)
    (hgrows : ∀ message ∈ c.message?, decoder.Opens message.2 message.1 →
      decoder.Grows message.2 message.1) : ∃ decoder', decoder.call c = some decoder' := by
  rcases decoder.call_cases c with
    ⟨type, msg, out, base, hmessage, htable, -, heq⟩ | ⟨-, decoder', heq, -⟩
  · have hlive : ∀ ref, base.live? msg.stockLocate ref = decoder.live? msg.stockLocate ref := by
      intro ref
      rw [live?, htable, live?]
    have hbase : base.Opens msg type → base.Grows msg type := by
      have hgrows := hgrows _ hmessage
      cases type <;> simpa only [Opens, Grows, hlive] using hgrows
    obtain ⟨result, hdecode⟩ := decodeMessage_defined base out (hvalid _ hmessage) hbase
    exact ⟨result.decoder, by rw [heq, hdecode, Option.map_some]⟩
  · exact ⟨decoder', heq⟩

/-! ### Runs of calls -/

/-- Every call that puts one on the count brings one more live order, and the count has room. -/
def Counts (decoder : ItchDecoder) (c : Call) : Prop :=
  ∀ message ∈ c.message?, decoder.Opens message.2 message.1 →
    decoder.Grows message.2 message.1 ∧ decoder.liveOrders.card + 1 < 2 ^ 64

instance (decoder : ItchDecoder) (c : Call) : Decidable (decoder.Counts c) :=
  inferInstanceAs (Decidable (∀ _ ∈ _, _))

/-- The count is the number of live orders. -/
def Tracks (decoder : ItchDecoder) : Prop :=
  decoder.trackedOrders.toNat = decoder.liveOrders.card

theorem toNat_add_one_eq (count : UInt64) :
    (count + 1).toNat = if count.toNat + 1 < 2 ^ 64 then count.toNat + 1 else 0 := by
  have hlt := count.toNat_lt
  rw [UInt64.toNat_add, UInt64.toNat_one]
  split_ifs <;> omega

theorem toNat_sub_one_eq {count : UInt64} (hpos : 0 < count.toNat) :
    (count - 1).toNat = count.toNat - 1 :=
  UInt64.toNat_sub_of_le count 1 (UInt64.le_iff_toNat_le.mpr hpos)

/-- **A message** keeps the count right exactly if it meets the condition. -/
theorem Change.tracks_iff (hchange : Change decoder msg type decoder') (htracks : decoder.Tracks) :
    decoder'.Tracks ↔ (decoder.Opens msg type →
      decoder.Grows msg type ∧ decoder.liveOrders.card + 1 < 2 ^ 64) := by
  unfold Tracks at htracks ⊢
  cases hchange with
  | kept hopens hcount hlive =>
      rw [hcount, hlive]
      exact iff_of_true htracks fun h => absurd h hopens
  | died hopens hcount hlive =>
      refine iff_of_true ?_ fun h => absurd h hopens
      rw [hcount, toNat_sub_one_eq (by omega)]
      omega
  | opened hopens hcount hupper hlower hgrows =>
      rw [hcount, toNat_add_one_eq, htracks, ← hgrows]
      simp only [hopens, forall_const]
      split_ifs with hroom
      · simp only [hroom, and_true]
        exact eq_comm
      · exact iff_of_false (by omega) fun h => hroom h.2

theorem reset_tracks (decoder : ItchDecoder) : decoder.reset.Tracks := rfl

/-- **A call** is defined and keeps the count right exactly if it meets the condition. -/
theorem call_tracks_iff (decoder : ItchDecoder) (c : Call) (hvalid : c.ValidRefs)
    (htracks : decoder.Tracks) :
    (∃ decoder', decoder.call c = some decoder' ∧ decoder'.Tracks) ↔ decoder.Counts c := by
  have htracks_iff : ∀ {decoder'}, decoder.call c = some decoder' →
      (decoder'.Tracks ↔ decoder.Counts c) := by
    intro decoder' hcall
    obtain ⟨type, msg, hmessage, hchange⟩ | ⟨hmessage, hrest⟩ := change_call hvalid hcall
    · rw [hchange.tracks_iff htracks, Counts, hmessage]
      simp
    · refine iff_of_true ?_ (by simp [Counts, hmessage])
      rcases hrest with rfl | ⟨htable, hcount⟩
      · exact reset_tracks decoder
      · rw [Tracks, liveOrders_congr htable, trackedOrders, hcount]
        exact htracks
  constructor
  · rintro ⟨decoder', hcall, htracks'⟩
    exact (htracks_iff hcall).mp htracks'
  · intro hcounts
    obtain ⟨decoder', hcall⟩ := call_defined hvalid fun message hmessage hopens =>
      (hcounts message hmessage hopens).1
    exact ⟨decoder', hcall, (htracks_iff hcall).mpr hcounts⟩

/-- The count is not too low, and it is as far from its limit as there are calls to come. -/
def Covers (calls : Nat) (decoder : ItchDecoder) : Prop :=
  decoder.liveOrders.card ≤ decoder.trackedOrders.toNat ∧ decoder.trackedOrders.toNat + calls < 2 ^ 64

theorem Change.covers {calls : Nat} (hchange : Change decoder msg type decoder')
    (hcovers : decoder.Covers (calls + 1)) : decoder'.Covers calls := by
  obtain ⟨hle, hlt⟩ := hcovers
  unfold Covers
  cases hchange with
  | kept hopens hcount hlive =>
      rw [hcount, hlive]
      omega
  | died hopens hcount hlive =>
      rw [hcount, toNat_sub_one_eq (by omega)]
      omega
  | opened hopens hcount hupper hlower hgrows =>
      rw [hcount, toNat_add_one_eq, if_pos (by omega)]
      omega

theorem call_covers {calls : Nat} {c : Call} (hvalid : c.ValidRefs)
    (hcovers : decoder.Covers (calls + 1)) (hcall : decoder.call c = some decoder') :
    decoder'.Covers calls := by
  obtain ⟨type, msg, hmessage, hchange⟩ | ⟨hmessage, hrest⟩ := change_call hvalid hcall
  · exact hchange.covers hcovers
  · obtain ⟨hle, hlt⟩ := hcovers
    rcases hrest with rfl | ⟨htable, hcount⟩
    · have hzero : decoder.reset.trackedOrders.toNat = 0 := rfl
      refine ⟨(reset_tracks decoder).ge, ?_⟩
      omega
    · rw [Covers, liveOrders_congr htable, trackedOrders, hcount]
      exact ⟨hle, by simp only [trackedOrders] at hlt; omega⟩

/-- A call that takes one off the count finds a live order to kill. -/
theorem trackedOrders_ne_zero {c : Call} (hvalid : c.ValidRefs)
    (hle : decoder.liveOrders.card ≤ decoder.trackedOrders.toNat) (hcall : decoder.call c = some decoder')
    (hdown : decoder'.trackedOrders = decoder.trackedOrders - 1) : decoder.trackedOrders ≠ 0 := by
  intro hzero
  have hnat : decoder.trackedOrders.toNat = 0 := congrArg UInt64.toNat hzero
  rw [hzero] at hdown
  rcases change_call hvalid hcall with
    ⟨type, msg, hmessage, hchange⟩ | ⟨hmessage, rfl | ⟨htable, hcount⟩⟩
  · cases hchange with
    | kept hopens hcount hlive =>
        rw [hcount, hzero] at hdown
        cases hdown
    | died hopens hcount hlive => omega
    | opened hopens hcount hupper hlower hgrows =>
        rw [hcount, hzero] at hdown
        cases hdown
  · cases hdown
  · have hkept : decoder'.trackedOrders = decoder.trackedOrders := hcount
    rw [hkept, hzero] at hdown
    cases hdown

/-- **The count of tracked orders** is the number of live orders in every state of a run that is defined
exactly if every add brings one more live order and no replace names a live one. It is never below that
number, so nothing is taken off at zero. -/
theorem trackedOrders_run_iff {calls : List Call} (hvalid : ∀ c ∈ calls, c.ValidRefs) :
    ((∀ calls', calls' <+: calls → ∃ decoder, calls'.foldlM call {} = some decoder
        ∧ decoder.trackedOrders.toNat = decoder.liveOrders.card) ↔ Run.Along call Counts {} calls)
      ∧ (calls.length < 2 ^ 64 → ∀ decoder, calls.foldlM call {} = some decoder →
        decoder.liveOrders.card ≤ decoder.trackedOrders.toNat
        ∧ ∀ c decoder', c.ValidRefs → decoder.call c = some decoder' →
          decoder'.trackedOrders = decoder.trackedOrders - 1 → decoder.trackedOrders ≠ 0) := by
  refine ⟨Run.invariant_iff call_tracks_iff hvalid (reset_tracks {}), fun hlength decoder hrun => ?_⟩
  have hstart : Covers calls.length {} := by
    refine ⟨(reset_tracks {}).ge, ?_⟩
    rw [show trackedOrders {} = 0 from rfl, UInt64.toNat_zero, zero_add]
    exact hlength
  have hrefs : Run.Along call (fun _ c => c.ValidRefs) {} calls :=
    Run.Along.of_forall_mem (fun c hmem _ => hvalid c hmem) _
  obtain ⟨hle, -⟩ := Run.invariant_within Covers
    (fun _ _ _ _ hcovers hvalid hcall => call_covers hvalid hcovers hcall) hstart hrefs hrun
  exact ⟨hle, fun c decoder' hvalid hcall => trackedOrders_ne_zero hvalid hle hcall⟩

/-- Orders 5 and 6 are added, and 6 is executed in full. -/
def countedCalls : List Call :=
  [ .decode ([0, 0, 0, 0, 0, 0, 0, 1, 65, 0, 7] ++ List.replicate 8 0 ++
      [0, 0, 0, 0, 0, 0, 0, 5, 66, 0, 0, 0, 10] ++ List.replicate 8 0 ++ [0, 0, 0, 100]) {},
    .decodeSnapshot ([65, 0, 7] ++ List.replicate 8 0 ++
      [0, 0, 0, 0, 0, 0, 0, 6, 66, 0, 0, 0, 10] ++ List.replicate 8 0 ++ [0, 0, 0, 100]) {},
    .decode ([0, 0, 0, 0, 0, 0, 0, 2, 69, 0, 7] ++ List.replicate 8 0 ++
      [0, 0, 0, 0, 0, 0, 0, 6, 0, 0, 0, 11] ++ List.replicate 8 0) {} ]

theorem trackedOrders_run_iff_countedCalls :
    ∃ decoder, countedCalls.foldlM call {} = some decoder
      ∧ decoder.trackedOrders.toNat = decoder.liveOrders.card := by
  have hvalid : ∀ c ∈ countedCalls, c.ValidRefs := by decide +kernel
  have hcounts : Run.Along call Counts {} countedCalls := by decide +kernel
  exact (trackedOrders_run_iff hvalid).1.mpr hcounts countedCalls List.prefix_rfl

/-- Order 5 is added and replaced by order 3. -/
def replacedCalls : List Call :=
  [ .decode ([0, 0, 0, 0, 0, 0, 0, 1, 65, 0, 7] ++ List.replicate 8 0 ++
      [0, 0, 0, 0, 0, 0, 0, 5, 66, 0, 0, 0, 10] ++ List.replicate 8 0 ++ [0, 0, 0, 100]) {},
    .decode ([0, 0, 0, 0, 0, 0, 0, 2, 85, 0, 7] ++ List.replicate 8 0 ++
      [0, 0, 0, 0, 0, 0, 0, 5, 0, 0, 0, 0, 0, 0, 0, 3, 0, 0, 0, 10, 0, 0, 0, 101]) {} ]

/-- **A replace is counted twice**: one order is live, and the count is two. -/
theorem replacedCalls_counts_twice :
    (∀ c ∈ replacedCalls, c.ValidRefs)
      ∧ (replacedCalls.foldlM call {}).any (fun decoder =>
        decoder.liveOrders = {(7, 3)} ∧ decoder.trackedOrders = 2) = true := by
  decide +kernel

end ItchDecoder

end AlphaTrader
