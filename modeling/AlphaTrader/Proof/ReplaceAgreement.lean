import AlphaTrader.Proof.DecoderAgreement
import AlphaTrader.Proof.TrackedOrders

/-!
# Replaces in the decoder and in the book

Decoder and book decide on their own whether a replace takes effect. The decoder moves every live
order, also onto its own reference or onto another live order; the book turns those replaces down. A
replace to no shares kills the order in the decoder and leaves an empty one in the book, and one that
makes the decoder's vector move writes to storage that is gone. In all other cases the two hold the same
orders again.
-/

namespace AlphaTrader

namespace MarketOrderBook

variable {π : Type} {book : MarketOrderBook π} {orders : List Resting} {order : Resting}
  {update : MarketUpdate}

theorem Shows.updateBBO (hshows : book.Shows orders) : book.updateBBO.Shows orders where
  index := hshows.index
  level := fun order hmem => by
    obtain ⟨level, hlevel, hprice⟩ := hshows.level order hmem
    refine ⟨level, ?_, hprice⟩
    rw [← hlevel]
    obtain ⟨side, price⟩ := order.ptr
    cases side <;> rfl
  stored := hshows.stored

variable [ObjectPool π]

/-- A move puts the order under its new reference on its new level, with whatever pointers. -/
theorem shows_replaceOrder (hrep : Represents book orders) (hmem : order ∈ orders)
    (href : order.ref = update.orderRef) (hnew : ∀ other ∈ orders, other.ref ≠ update.newRef) :
    ∃ book', book.replaceOrder update = some (true, book') ∧ book'.tickerId = book.tickerId
      ∧ book'.Shows (removeRef orders order.ref ++ [moved order update]) := by
  obtain ⟨before, after, rfl⟩ := List.append_of_mem hmem
  obtain ⟨detached, hdetached, hreplace⟩ := replaceOrder_detached hrep href hnew
  have hends : (summary (before ++ after) (moved order update).ptr).head = none ↔
      (summary (before ++ after) (moved order update).ptr).tail = none := by
    simp [summary]
  obtain ⟨linked, hlink, hrewired, -, hlevel⟩ :=
    linkOrder_spec hdetached.listed.level_of_spare hends order.addr
  rw [hlink] at hreplace
  have hremove := removeRef_append_cons hrep.refs
  refine ⟨_, hreplace, hrewired.tickerId.trans hdetached.tickerId, ?_, ?_, ?_⟩
  · rw [hrewired.orderIndex, hdetached.orderIndex, ← href]
    exact (hrep.index.erase order.ref).insert (moved order update)
      fun other hother => hnew other (mem_removeRef.mp hother).1
  · intro other hother
    rw [hremove, List.mem_append, List.mem_singleton] at hother
    have hlevelAt : ∀ ptr, MarketOrderBook.level? { linked with
        orderIndex := (linked.orderIndex.erase update.orderRef).insert update.newRef
          (moved order update).location } ptr = linked.level? ptr := by
      rintro ⟨side, price⟩
      cases side <;> rfl
    simp only [hlevelAt, hlevel]
    by_cases hptr : other.ptr = (moved order update).ptr
    · rw [if_pos hptr]
      exact ⟨_, rfl, (congrArg Prod.snd hptr).symm⟩
    · rw [if_neg hptr]
      have hrest : other ∈ before ++ after := hother.resolve_right fun h => hptr (h ▸ rfl)
      exact ⟨_, hdetached.listed.level_of_mem hrest, rfl⟩
  · intro other hother
    rw [hremove, List.mem_append, List.mem_singleton] at hother
    change (linked.memory other.addr).orderRef = _ ∧ (linked.memory other.addr).qty = _
    rw [hrewired.orderRef, hrewired.qty]
    rcases hother with hother | rfl
    · exact hdetached.listed.stored other hother
    · exact ⟨hdetached.ref, hdetached.qty⟩

/-- The book moves a tracked order unless it tracks the new reference already. -/
theorem applyUpdate_replace (fuel : Nat) (hrep : Represents book orders) (hmem : order ∈ orders)
    (href : order.ref = update.orderRef) (htype : update.type = .replace)
    (hticker : update.tickerId = book.tickerId) :
    ∃ book', book.applyUpdate fuel update = some book' ∧ book'.tickerId = book.tickerId
      ∧ (book' = book ∧ (∃ other ∈ orders, other.ref = update.newRef)
        ∨ book'.Shows (removeRef orders order.ref ++ [moved order update])
          ∧ ∀ other ∈ orders, other.ref ≠ update.newRef) := by
  have happly : book.applyUpdate fuel update = (book.replaceOrder update).map refresh := by
    simp [applyUpdate, htype, hticker, Option.map_eq_bind]
  rw [happly]
  by_cases hnew : ∃ other ∈ orders, other.ref = update.newRef
  · have hlocation : book.orderIndex[update.orderRef]? = some order.location :=
      (hrep.index _ _).mpr ⟨order, hmem, href, rfl⟩
    have hreplace : book.replaceOrder update = some (false, book) := by
      simp [replaceOrder, hlocation, hrep.index.contains_iff.mpr hnew]
    exact ⟨book, by rw [hreplace]; rfl, rfl, Or.inl ⟨rfl, hnew⟩⟩
  · have hfresh : ∀ other ∈ orders, other.ref ≠ update.newRef := fun other hother heq =>
      hnew ⟨other, hother, heq⟩
    obtain ⟨book', hreplace, hsame, hshows⟩ := shows_replaceOrder hrep hmem href hfresh
    exact ⟨book'.updateBBO, by rw [hreplace]; rfl, hsame, Or.inr ⟨hshows.updateBBO, hfresh⟩⟩

/-- The book applies the update of a frame that the decoder accepts. -/
def follow (fuel : Nat) (book : MarketOrderBook π) (result : Decoded) : Option (MarketOrderBook π) :=
  if result.accepted then book.applyUpdate fuel result.update else some book

end MarketOrderBook

namespace ItchDecoder

variable {decoder : ItchDecoder} {msg : Payload} {type : MsgType} {out : MarketUpdate}

/-! ### Entries know their ticker -/

/-- Every live entry names the ticker it is filed under. -/
def Stamped (decoder : ItchDecoder) : Prop :=
  ∀ ticker ref state, decoder.live? ticker ref = some state → state.tickerId = ticker

theorem tickerId_of_entry {state state' : OrderState} (hentry : OrderState.entry? state = some state') :
    state'.tickerId = state.tickerId := by
  unfold OrderState.entry? at hentry
  split at hentry
  case isTrue => cases hentry
  case isFalse => rw [Option.some.inj hentry]

theorem tickerId_of_touch {old : Option OrderState} {update : MarketUpdate} {state : OrderState}
    (hold : ∀ state, old = some state → state.tickerId = msg.stockLocate)
    (htouch : touch type msg out old = some (update, some state)) : state.tickerId = msg.stockLocate := by
  have hreduced : ∀ {old' : OrderState} {qty : Quantity}, old = some old' →
      reduced old' qty = some state → state.tickerId = msg.stockLocate := by
    intro old' qty hlive hstate
    unfold reduced at hstate
    split at hstate
    case isTrue => cases hstate
    case isFalse =>
        rw [← Option.some.inj hstate]
        exact hold old' hlive
  cases type with
  | systemEvent => cases htouch
  | orderReplace => cases htouch
  | addOrder => exact tickerId_of_entry (congrArg Prod.snd (Option.some.inj htouch))
  | addOrderMpid => exact tickerId_of_entry (congrArg Prod.snd (Option.some.inj htouch))
  | orderExecuted =>
      obtain ⟨old', hlive, heq⟩ := Option.map_eq_some_iff.mp htouch
      exact hreduced hlive (congrArg Prod.snd heq)
  | orderCancel =>
      obtain ⟨old', hlive, heq⟩ := Option.map_eq_some_iff.mp htouch
      exact hreduced hlive (congrArg Prod.snd heq)
  | orderDelete =>
      unfold touch at htouch
      dsimp only at htouch
      split at htouch
      case h_1 => exact hold state (congrArg Prod.snd (Option.some.inj htouch))
      case h_2 =>
          obtain ⟨old', -, heq⟩ := Option.map_eq_some_iff.mp htouch
          cases congrArg Prod.snd heq

theorem stamped_decodeMessage (hstamped : decoder.Stamped) (hvalid : ValidRefs msg type)
    {result : Decoded} (hdecode : decoder.decodeMessage type msg out = some result) :
    result.decoder.Stamped := by
  intro ticker ref state hstate
  by_cases hreplace : type = .orderReplace
  · subst hreplace
    obtain ⟨-, -, hsame⟩ | ⟨old, hlive, -, -, hreplaces⟩ := decodeOrderReplace_cases hdecode
    · rw [hsame] at hstate
      exact hstamped ticker ref state hstate
    · rw [hreplaces.live] at hstate
      split_ifs at hstate with hticker hkilled hnew
      · rw [tickerId_of_entry hstate, hticker]
        exact hstamped _ _ old hlive
      · exact hstamped ticker ref state hstate
      · exact hstamped ticker ref state hstate
  · have hadd : type = .addOrder ∨ type = .addOrderMpid → msg.ref ≠ orderIdInvalid := by
      rintro (rfl | rfl) <;> exact hvalid
    obtain ⟨result', hdecode', htouches⟩ : ∃ result, decoder.decodeMessage type msg out = some result
        ∧ Touches decoder msg result (touch type msg out (decoder.live? msg.stockLocate msg.ref)) :=
      decodeMessage_touches hreplace hadd
    obtain rfl : result = result' := Option.some.inj (hdecode.symm.trans hdecode')
    rw [htouches.live] at hstate
    split_ifs at hstate with hself
    · rw [hself.1]
      cases htouch : touch type msg out (decoder.live? msg.stockLocate msg.ref) with
      | none =>
          rw [htouch] at hstate
          exact hstamped _ _ state hstate
      | some pair =>
          obtain ⟨update, entry⟩ := pair
          rw [htouch] at hstate
          obtain rfl : entry = some state := hstate
          exact tickerId_of_touch (fun old hold => hstamped _ _ old hold) htouch
    · exact hstamped ticker ref state hstate

theorem Stamped.congr (hstamped : decoder.Stamped) {decoder' : ItchDecoder}
    (htable : decoder'.orderRefMap = decoder.orderRefMap) : decoder'.Stamped := by
  intro ticker ref state hstate
  rw [live?, htable] at hstate
  exact hstamped ticker ref state hstate

theorem stamped_call (hstamped : decoder.Stamped) {c : Call} (hvalid : c.ValidRefs)
    {decoder' : ItchDecoder} (hcall : decoder.call c = some decoder') : decoder'.Stamped := by
  rcases decoder.call_cases c with
    ⟨type, msg, out, base, hmessage, htable, -, hcall'⟩ | ⟨-, decoder'', hcall', hrest⟩
  · rw [hcall'] at hcall
    obtain ⟨result, hdecode, rfl⟩ := Option.map_eq_some_iff.mp hcall
    exact stamped_decodeMessage (hstamped.congr htable) (hvalid _ hmessage) hdecode
  · obtain rfl := Option.some.inj (hcall.symm.trans hcall')
    rcases hrest with rfl | ⟨htable, -⟩
    · intro ticker ref state hstate
      simp [reset, live?] at hstate
    · exact hstamped.congr htable

/-- **In every run** the entries name their tickers. -/
theorem stamped_run {calls : List Call} (hvalid : ∀ c ∈ calls, c.ValidRefs)
    (hrun : calls.foldlM call {} = some decoder) : decoder.Stamped := by
  have hrefs : Run.Along call (fun _ c => c.ValidRefs) {} calls :=
    Run.Along.of_forall_mem (fun c hmem _ => hvalid c hmem) _
  have hstart : Stamped {} := by
    intro ticker ref state hstate
    simp [live?] at hstate
  exact Run.invariant (fun _ _ _ hstamped hvalid hcall => stamped_call hstamped hvalid hcall) hstart hrefs hrun

/-! ### Agreement -/

/-- The live orders of the decoder for the ticker of the book are the orders the book holds. -/
def MatchesBook {π : Type} (decoder : ItchDecoder) (book : MarketOrderBook π) : Prop :=
  ∀ ref state, decoder.live? book.tickerId ref = some state ↔
    state.tickerId = book.tickerId ∧ book.Holds ref state.side state.price state.qty

/-- Nothing changed in either, or the old reference is dead in both and the new one live in both. -/
def SameDecision {π : Type} (decoder decoder' : ItchDecoder) (book book' : MarketOrderBook π)
    (msg : Payload) : Prop :=
  (decoder'.live? book.tickerId = decoder.live? book.tickerId ∧ book' = book)
    ∨ (decoder'.live? book.tickerId msg.ref = none
        ∧ ∀ side price qty, ¬ book'.Holds msg.ref side price qty)
      ∧ ∃ state, decoder'.live? book.tickerId msg.newRef = some state
        ∧ book'.Holds msg.newRef state.side state.price state.qty

/-- A replace of a live order leaves the vector where it is, and in the ticker of the book it gives a
quantity to a reference that is not live. -/
def Agreeable (decoder : ItchDecoder) (ticker : TickerId) (msg : Payload) : Prop :=
  decoder.live? msg.stockLocate msg.ref ≠ none → ¬ decoder.Reallocates msg
    ∧ (msg.stockLocate = ticker → decoder.live? ticker msg.newRef = none ∧ msg.newShares ≠ 0)

instance (decoder : ItchDecoder) (ticker : TickerId) (msg : Payload) :
    Decidable (decoder.Agreeable ticker msg) :=
  inferInstanceAs (Decidable (_ → _ ∧ _))

section Agreement

variable {π : Type} {book book' : MarketOrderBook π} {orders : List Resting} {flat : FlatBook}

theorem matchesBook_iff (hshows : book.Shows orders) (hticker : flat.tickerId = book.tickerId)
    (hentries : orders.map Resting.entry = flat.entries) :
    decoder.MatchesBook book ↔ Agrees (decoder.live? book.tickerId) flat := by
  unfold MatchesBook Agrees
  rw [hticker, ← hentries]
  simp only [hshows.holds_iff]
  rfl

/-- The decoder kills an order that the book still holds. -/
theorem not_matchesBook_of_dead {ref : OrderId} {state : OrderState} (hmatches : decoder.MatchesBook book)
    (hlive : decoder.live? book.tickerId ref = some state) {decoder' : ItchDecoder}
    (hdead : decoder'.live? book.tickerId ref = none) : ¬ decoder'.MatchesBook book := by
  intro hmatches'
  rw [(hmatches' ref state).mpr ((hmatches ref state).mp hlive)] at hdead
  cases hdead

theorem Replaces.live?_ref {state : OrderState} {result : Decoded}
    (hreplaces : Replaces decoder msg out state result) :
    result.decoder.live? msg.stockLocate msg.ref = none := by
  rw [hreplaces.live, if_pos rfl, if_pos rfl]

theorem Replaces.live?_newRef {state : OrderState} {result : Decoded}
    (hreplaces : Replaces decoder msg out state result)
    (hlive : decoder.live? msg.stockLocate msg.ref = some state)
    (hnone : decoder.live? msg.stockLocate msg.newRef = none) :
    result.decoder.live? msg.stockLocate msg.newRef = OrderState.entry? (replacement msg state) := by
  have hne : msg.newRef ≠ msg.ref := by
    intro heq
    rw [← heq, hnone] at hlive
    cases hlive
  rw [hreplaces.live, if_pos rfl, if_neg hne, if_pos rfl]

/-- The decoder after a replace onto a reference that is not live agrees with the moved orders exactly
if the replace has shares. -/
theorem agrees_replaced_iff {state : OrderState} {result : Decoded}
    (hagrees : Agrees (decoder.live? msg.stockLocate) flat)
    (hlive : decoder.live? msg.stockLocate msg.ref = some state)
    (hnone : decoder.live? msg.stockLocate msg.newRef = none)
    (hreplaces : Replaces decoder msg out state result) :
    Agrees (result.decoder.live? msg.stockLocate)
        ((flat.remove msg.ref).append ((replacement msg state).toFlat msg.newRef))
      ↔ msg.newShares ≠ 0 := by
  have hne : msg.ref ≠ msg.newRef := by
    intro heq
    rw [heq, hnone] at hlive
    cases hlive
  have hstate : state.tickerId = flat.tickerId := ((hagrees msg.ref state).mp hlive).1
  have hlive' : ∀ ref, result.decoder.live? msg.stockLocate ref =
      if ref = msg.ref then none
      else if ref = msg.newRef then OrderState.entry? (replacement msg state)
      else decoder.live? msg.stockLocate ref := fun ref => by
    rw [hreplaces.live, if_pos rfl]
  have hqty : (replacement msg state).qty = msg.newShares := rfl
  have hentry := hreplaces.live?_newRef hlive hnone
  constructor
  · intro hagrees' hzero
    have hmem : result.decoder.live? msg.stockLocate msg.newRef = some (replacement msg state) :=
      (hagrees' _ _).mpr ⟨hstate, FlatBook.mem_append.mpr (Or.inr rfl)⟩
    rw [hentry, OrderState.entry?, hqty, if_pos hzero] at hmem
    cases hmem
  · intro hshares
    have hupdate : result.decoder.live? msg.stockLocate =
        Function.update (Function.update (decoder.live? msg.stockLocate) msg.ref none) msg.newRef
          (some (replacement msg state)) := by
      funext ref
      by_cases hnew : ref = msg.newRef
      · rw [hnew, hentry, Function.update_self, OrderState.entry?, hqty, if_neg hshares]
      · rw [hlive', Function.update_of_ne hnew, if_neg hnew, Function.update_apply]
    rw [hupdate]
    refine agrees_append (agrees_remove hagrees) ?_ hstate
    rw [Function.update_of_ne (Ne.symm hne), hnone]

/-- The book that has moved the order matches exactly if the replace has shares. -/
theorem matchesBook_moved_iff {order : Resting} {state : OrderState} {result : Decoded}
    (hticker : msg.stockLocate = book.tickerId) (hsame : book'.tickerId = book.tickerId)
    (hagrees : Agrees (decoder.live? msg.stockLocate) ⟨book.tickerId, orders.map Resting.entry, false⟩)
    (hlive : decoder.live? msg.stockLocate msg.ref = some state)
    (hnone : decoder.live? msg.stockLocate msg.newRef = none) (href : order.ref = msg.ref)
    (hshows : book'.Shows (MarketOrderBook.removeRef orders order.ref
      ++ [MarketOrderBook.moved order (replaceUpdate msg state out)]))
    (hreplaces : Replaces decoder msg out state result) :
    result.decoder.MatchesBook book' ↔ msg.newShares ≠ 0 := by
  let flat : FlatBook := ⟨book.tickerId, orders.map Resting.entry, false⟩
  have hentries : (MarketOrderBook.removeRef orders order.ref
        ++ [MarketOrderBook.moved order (replaceUpdate msg state out)]).map Resting.entry
      = ((flat.remove msg.ref).append ((replacement msg state).toFlat msg.newRef)).entries := by
    have hremoved : (MarketOrderBook.removeRef orders order.ref).map Resting.entry =
        (flat.remove order.ref).entries := MarketOrderBook.map_entry_removeRef rfl
    rw [List.map_append, hremoved, href]
    rfl
  rw [matchesBook_iff hshows hsame.symm hentries, hsame, ← hticker]
  exact agrees_replaced_iff hagrees hlive hnone hreplaces

theorem sameDecision_of_moved {decoder' : ItchDecoder} {state : OrderState}
    (hmatches : decoder'.MatchesBook book') (hticker : book'.tickerId = book.tickerId)
    (hold : decoder'.live? book.tickerId msg.ref = none)
    (hnew : decoder'.live? book.tickerId msg.newRef = some state) :
    SameDecision decoder decoder' book book' msg := by
  rw [← hticker] at hold hnew
  refine Or.inr ⟨⟨hticker ▸ hold, fun side price qty hholds => ?_⟩, state, hticker ▸ hnew,
    ((hmatches _ _).mp hnew).2⟩
  rw [(hmatches msg.ref ⟨side, price, qty, book'.tickerId⟩).mpr ⟨rfl, hholds⟩] at hold
  cases hold

variable [ObjectPool π]

theorem Replaces.follow {state : OrderState} {result : Decoded}
    (hreplaces : Replaces decoder msg out state result) (fuel : Nat) :
    book.follow fuel result = book.applyUpdate fuel (replaceUpdate msg state out) := by
  rw [MarketOrderBook.follow, hreplaces.accepted, if_pos rfl, hreplaces.update]

/-- A replace for another ticker changes nothing that is compared. -/
theorem replaced_elsewhere (fuel : Nat) {state : OrderState} {result : Decoded}
    (hstamped : decoder.Stamped) (hmatches : decoder.MatchesBook book)
    (hlive : decoder.live? msg.stockLocate msg.ref = some state)
    (hreplaces : Replaces decoder msg out state result) (hticker : msg.stockLocate ≠ book.tickerId) :
    ∃ book', book.follow fuel result = some book' ∧ result.decoder.MatchesBook book'
      ∧ SameDecision decoder result.decoder book book' msg := by
  have hstate : state.tickerId = msg.stockLocate := hstamped _ _ _ hlive
  have happly : book.applyUpdate fuel (replaceUpdate msg state out) = some book :=
    MarketOrderBook.applyUpdate_of_ne (fun h => hticker (hstate.symm.trans h))
      (by simp [replaceUpdate]) (by simp [replaceUpdate])
  have hkept : result.decoder.live? book.tickerId = decoder.live? book.tickerId := by
    funext ref
    rw [hreplaces.live, if_neg (Ne.symm hticker)]
  have hmatches' : result.decoder.MatchesBook book := by
    unfold MatchesBook
    rw [hkept]
    exact hmatches
  exact ⟨book, (hreplaces.follow fuel).trans happly, hmatches', Or.inl ⟨hkept, rfl⟩⟩

/-- A replace in the ticker of the book agrees exactly if it goes, with a quantity, to a reference that is
not live. -/
theorem replaced_here_iff (fuel : Nat) {state : OrderState} {result : Decoded}
    (hrep : book.Represents orders) (hstamped : decoder.Stamped) (hmatches : decoder.MatchesBook book)
    (hlive : decoder.live? msg.stockLocate msg.ref = some state)
    (hreplaces : Replaces decoder msg out state result) (hticker : msg.stockLocate = book.tickerId) :
    (∃ book', book.follow fuel result = some book' ∧ result.decoder.MatchesBook book'
        ∧ SameDecision decoder result.decoder book book' msg)
      ↔ decoder.live? book.tickerId msg.newRef = none ∧ msg.newShares ≠ 0 := by
  have hstate : state.tickerId = msg.stockLocate := hstamped _ _ _ hlive
  have hagrees : Agrees (decoder.live? msg.stockLocate)
      ⟨book.tickerId, orders.map Resting.entry, false⟩ := by
    rw [hticker]
    exact (matchesBook_iff hrep.shows rfl rfl).mp hmatches
  have htracks : decoder.live? msg.stockLocate msg.newRef = none ↔
      ∀ other ∈ orders, other.ref ≠ msg.newRef := by
    rw [hagrees.eq_none_iff, Bool.eq_false_iff, Ne, MarketOrderBook.tracks_iff rfl]
    push Not
    rfl
  obtain ⟨order, horder, hentry⟩ := List.mem_map.mp ((hagrees _ _).mp hlive).2
  have href : order.ref = msg.ref := congrArg FlatEntry.ref hentry
  obtain ⟨book', happly, hsame, ⟨rfl, other, hother, hnew⟩ | ⟨hshows, hfresh⟩⟩ :
      ∃ book', book.applyUpdate fuel (replaceUpdate msg state out) = some book'
        ∧ book'.tickerId = book.tickerId
        ∧ (book' = book ∧ (∃ other ∈ orders, other.ref = msg.newRef)
          ∨ book'.Shows (MarketOrderBook.removeRef orders order.ref
              ++ [MarketOrderBook.moved order (replaceUpdate msg state out)])
            ∧ ∀ other ∈ orders, other.ref ≠ msg.newRef) :=
    MarketOrderBook.applyUpdate_replace fuel hrep horder href rfl (hstate.trans hticker)
  · -- The decoder kills the old order and the book does nothing.
    have hsome : decoder.live? msg.stockLocate msg.newRef ≠ none := fun hnone =>
      htracks.mp hnone other hother hnew
    have hdead := hreplaces.live?_ref
    rw [hticker] at hlive hdead hsome
    rw [hreplaces.follow, happly]
    refine iff_of_false ?_ fun hagreeable => hsome hagreeable.1
    rintro ⟨book'', hbook, hmatches', -⟩
    rw [← Option.some.inj hbook] at hmatches'
    exact not_matchesBook_of_dead hmatches hlive hdead hmatches'
  · have hnone := htracks.mpr hfresh
    have hiff := matchesBook_moved_iff hticker hsame hagrees hlive hnone href hshows hreplaces
    rw [hreplaces.follow, happly]
    constructor
    · rintro ⟨book'', hbook, hmatches', -⟩
      rw [← Option.some.inj hbook] at hmatches'
      exact ⟨hticker ▸ hnone, hiff.mp hmatches'⟩
    · rintro ⟨-, hshares⟩
      have hnew : result.decoder.live? book.tickerId msg.newRef = some (replacement msg state) := by
        rw [← hticker, hreplaces.live?_newRef hlive hnone, OrderState.entry?]
        exact if_neg hshares
      exact ⟨book', rfl, hiff.mpr hshares,
        sameDecision_of_moved (hiff.mpr hshares) hsame (hticker ▸ hreplaces.live?_ref) hnew⟩

theorem decodeOrderReplace_agrees_iff (fuel : Nat) (out : MarketUpdate) (hrep : book.Represents orders)
    (hstamped : decoder.Stamped) (hmatches : decoder.MatchesBook book)
    (hvalid : msg.newRef ≠ orderIdInvalid) :
    (∃ result, decoder.decodeOrderReplace msg out = some result
      ∧ ∃ book', book.follow fuel result = some book' ∧ result.decoder.MatchesBook book'
        ∧ SameDecision decoder result.decoder book book' msg)
      ↔ decoder.Agreeable book.tickerId msg := by
  cases hlive : decoder.live? msg.stockLocate msg.ref with
  | none =>
      rw [decodeOrderReplace_of_dead decoder out hlive]
      exact iff_of_true ⟨_, rfl, book, rfl, hmatches, Or.inl ⟨rfl, rfl⟩⟩ fun h => absurd hlive h
  | some state =>
      have hsome : decoder.live? msg.stockLocate msg.ref ≠ none := by simp [hlive]
      by_cases hmoved : decoder.Reallocates msg
      · rw [decodeOrderReplace_of_moved hlive out hmoved]
        refine iff_of_false ?_ fun hagreeable => (hagreeable hsome).1 hmoved
        rintro ⟨result, hdecode, -⟩
        cases hdecode
      · obtain ⟨result, hdecode, hreplaces⟩ := decodeOrderReplace_replaces hlive out hvalid hmoved
        rw [hdecode]
        simp only [Option.some.injEq, exists_eq_left', Agreeable, hsome, hmoved, ne_eq, not_false_eq_true,
          forall_const, true_and]
        by_cases hticker : msg.stockLocate = book.tickerId
        · rw [forall_prop_of_true hticker]
          exact replaced_here_iff fuel hrep hstamped hmatches hlive hreplaces hticker
        · exact iff_of_true (replaced_elsewhere fuel hstamped hmatches hlive hreplaces hticker)
            fun h => absurd h hticker

/-- **Replaces agree** in the decoder and in the book exactly if the vector stays where it is and, in the
ticker of the book, the replaced order goes, with a quantity, to a reference that is not live. -/
theorem replace_agrees_iff (fuel : Nat) (out : MarketUpdate) {wire : List UInt8}
    (hrep : book.Represents orders) (hstamped : decoder.Stamped) (hmatches : decoder.MatchesBook book)
    (hmessage : framed? 8 wire = some (.orderReplace, msg)) (hvalid : msg.newRef ≠ orderIdInvalid) :
    (∃ result, decoder.decode wire out = some result
      ∧ ∃ book', book.follow fuel result = some book' ∧ result.decoder.MatchesBook book'
        ∧ SameDecision decoder result.decoder book book' msg)
      ↔ decoder.Agreeable book.tickerId msg := by
  obtain ⟨htype, hlength, rfl⟩ := framed?_eq_some_iff.mp hmessage
  rw [decode_eq_decodeMessage htype hlength]
  -- The sizes that the frame leaves in the decoder are no part of its orders.
  exact decodeOrderReplace_agrees_iff fuel _ hrep hstamped hmatches hvalid

end Agreement

end ItchDecoder

namespace Feed

open ItchDecoder

variable {π : Type} [ObjectPool π] {s : Feed π} {flats : TickerId → FlatBook}

theorem InStep.stamped (hstep : InStep s flats) : s.decoder.Stamped := by
  intro ticker ref state hlive
  rw [((hstep.agrees ticker ref state).mp hlive).1, hstep.ticker]

theorem InStep.matchesBook (hstep : InStep s flats) (ticker : TickerId) :
    s.decoder.MatchesBook (s.books ticker) := by
  have hsim := hstep.simulates ticker
  obtain ⟨orders, hrep, hentries⟩ := hsim.orders
  have hticker : (s.books ticker).tickerId = ticker := hsim.tickerId.trans (hstep.ticker ticker)
  rw [matchesBook_iff hrep.shows hsim.tickerId.symm hentries, hticker]
  exact hstep.agrees ticker

/-- Order 5 of ticker 7 is added. -/
def addedFrames : List (List UInt8) :=
  [[0, 0, 0, 0, 0, 0, 0, 1, 65, 0, 7] ++ List.replicate 8 0 ++
    [0, 0, 0, 0, 0, 0, 0, 5, 66, 0, 0, 0, 10] ++ List.replicate 8 0 ++ [0, 0, 0, 100]]

/-- Order 5 of ticker 7 is replaced. -/
def replaceFrame (newRef : UInt8) : List UInt8 :=
  [0, 0, 0, 0, 0, 0, 0, 2, 85, 0, 7] ++ List.replicate 8 0 ++
    [0, 0, 0, 0, 0, 0, 0, 5, 0, 0, 0, 0, 0, 0, 0, newRef, 0, 0, 0, 10, 0, 0, 0, 101]

theorem inStep_addedFrames : ∃ s, addedFrames.foldlM (feed 0) (init FreeListPool) = some s
    ∧ ∃ flats, InStep s flats := by
  have hok : Run.Along (feed 0) FrameOk (init FreeListPool) addedFrames := by decide +kernel
  have hfeed : ∀ (s : Feed FreeListPool) wire, (∃ flats, InStep s flats) → FrameOk s wire →
      ∃ s', feed 0 s wire = some s' ∧ ∃ flats, InStep s' flats :=
    fun s wire ⟨_, hstep⟩ hok => inStep_feed 0 hstep hok
  exact Run.progress hfeed ⟨FlatBook.init, inStep_init⟩ hok

/-- Order 5 goes to reference 3. -/
theorem replace_agrees_iff_replaceFrame :
    ∃ s, addedFrames.foldlM (feed 0) (init FreeListPool) = some s
      ∧ ∃ result, s.decoder.decode (replaceFrame 3) {} = some result
        ∧ ∃ book, (s.books 7).follow 0 result = some book ∧ result.decoder.MatchesBook book
          ∧ SameDecision s.decoder result.decoder (s.books 7) book ((replaceFrame 3).drop 8) := by
  obtain ⟨s, hrun, flats, hstep⟩ := inStep_addedFrames
  obtain ⟨orders, hrep, -⟩ := (hstep.simulates 7).orders
  have hticker : (s.books 7).tickerId = 7 := (hstep.simulates 7).tickerId.trans (hstep.ticker 7)
  have hagreeable : s.decoder.Agreeable 7 ((replaceFrame 3).drop 8) := by
    have hall : (addedFrames.foldlM (feed 0) (init FreeListPool)).all (fun s =>
        s.decoder.Agreeable 7 ((replaceFrame 3).drop 8)) = true := by decide +kernel
    rw [hrun] at hall
    simpa using hall
  have hiff := replace_agrees_iff 0 {} hrep hstep.stamped (hstep.matchesBook 7)
    (show framed? 8 (replaceFrame 3) = some (.orderReplace, (replaceFrame 3).drop 8) by decide +kernel)
    (by decide +kernel)
  rw [hticker] at hiff
  exact ⟨s, hrun, hiff.mpr hagreeable⟩

/-- **A replace onto its own reference** kills the order in the decoder, and the book keeps it. -/
theorem selfReplace_disagrees :
    (addedFrames.foldlM (feed 0) (init FreeListPool)).any (fun s =>
        s.decoder.live? 7 5 = some ⟨.buy, 100, 10, 7⟩
          ∧ (s.books 7).orderIndex[(5 : OrderId)]?.any fun location =>
            location.level = (.buy, 100) ∧ ((s.books 7).memory location.order).qty = 10) = true
      ∧ ((addedFrames ++ [replaceFrame 5]).foldlM (feed 0) (init FreeListPool)).any (fun s =>
        s.decoder.live? 7 5 = none
          ∧ (s.books 7).orderIndex[(5 : OrderId)]?.any fun location =>
            location.level = (.buy, 100) ∧ ((s.books 7).memory location.order).qty = 10) = true := by
  decide +kernel

end Feed

end AlphaTrader
