import AlphaTrader.Proof.BookSimulation
import AlphaTrader.Proof.DecoderSpec

/-!
# The decoder and the books agree

The decoder and the books keep the live orders twice, each with its own rules for over-fills and
unknown references. Fed with the same frames, they hold the same orders after every frame. The proof
compares both with the flat book: what a message does to the decoder's entry, the flat book does to
its list.
-/

namespace AlphaTrader

open ItchDecoder

/-- The book tracks a reference, on a side, at a level of a price, with a remaining quantity. -/
def MarketOrderBook.Holds {π : Type} (book : MarketOrderBook π) (ref : OrderId) (side : Side)
    (price : Price) (qty : Quantity) : Prop :=
  ∃ location level, book.orderIndex[ref]? = some location ∧ location.side = side
    ∧ book.level? location.level = some level ∧ level.price = price
    ∧ (book.memory location.order).orderRef = ref ∧ (book.memory location.order).qty = qty

/-- The index locates the listed orders, on levels of their prices, with their quantities. -/
structure MarketOrderBook.Shows {π : Type} (book : MarketOrderBook π) (orders : List Resting) : Prop where
  index : Indexes book.orderIndex orders
  level : ∀ order ∈ orders, ∃ level, book.level? order.ptr = some level ∧ level.price = order.price
  stored : ∀ order ∈ orders, (book.memory order.addr).orderRef = order.ref
    ∧ (book.memory order.addr).qty = order.qty

theorem MarketOrderBook.Represents.shows {π : Type} [ObjectPool π] {book : MarketOrderBook π}
    {orders : List Resting} (hrep : book.Represents orders) : book.Shows orders where
  index := hrep.index
  level := fun _ hmem => ⟨_, hrep.level_of_mem hmem, rfl⟩
  stored := hrep.stored

theorem MarketOrderBook.Shows.holds_iff {π : Type} {book : MarketOrderBook π} {orders : List Resting}
    (hshows : book.Shows orders) {ref : OrderId} {side : Side} {price : Price} {qty : Quantity} :
    book.Holds ref side price qty ↔ ⟨ref, side, price, qty⟩ ∈ orders.map Resting.entry := by
  rw [List.mem_map]
  constructor
  · rintro ⟨location, level, hlocation, rfl, hlevel, rfl, href, rfl⟩
    obtain ⟨order, hmem, hrefOrder, rfl⟩ := (hshows.index ref location).mp hlocation
    obtain ⟨level', hlevel', hprice⟩ := hshows.level order hmem
    obtain rfl := Option.some.inj (hlevel.symm.trans hlevel')
    refine ⟨order, hmem, ?_⟩
    simp [Resting.entry, Resting.location, hrefOrder, hprice, (hshows.stored order hmem).2]
  · rintro ⟨order, hmem, hentry⟩
    obtain ⟨rfl, rfl, rfl, rfl⟩ : order.ref = ref ∧ order.side = side ∧ order.price = price
        ∧ order.qty = qty := by
      simpa [Resting.entry] using hentry
    obtain ⟨level, hlevel, hprice⟩ := hshows.level order hmem
    exact ⟨order.location, level, (hshows.index _ _).mpr ⟨order, hmem, rfl, rfl⟩, rfl, hlevel, hprice,
      (hshows.stored order hmem).1, (hshows.stored order hmem).2⟩

theorem MarketOrderBook.Simulates.holds_iff {π : Type} [ObjectPool π] {book : MarketOrderBook π}
    {flat : FlatBook} (hsim : book.Simulates flat) {ref : OrderId} {side : Side} {price : Price}
    {qty : Quantity} : book.Holds ref side price qty ↔ ⟨ref, side, price, qty⟩ ∈ flat.entries := by
  obtain ⟨orders, hrep, hentries⟩ := hsim.orders
  rw [← hentries]
  exact hrep.shows.holds_iff

/-! ### The entries of one ticker -/

def OrderState.toFlat (state : OrderState) (ref : OrderId) : FlatEntry :=
  ⟨ref, state.side, state.price, state.qty⟩

theorem OrderState.eq_of_toFlat_eq {state state' : OrderState} {ref ref' : OrderId}
    (hflat : state.toFlat ref = state'.toFlat ref') (hticker : state.tickerId = state'.tickerId) :
    state = state' := by
  cases state
  cases state'
  simp only [toFlat, FlatEntry.mk.injEq] at hflat hticker
  simp [hflat, hticker]

/-- The live entries of a ticker are the entries of its flat book. -/
def Agrees (live : OrderId → Option OrderState) (flat : FlatBook) : Prop :=
  ∀ ref state, live ref = some state ↔
    state.tickerId = flat.tickerId ∧ state.toFlat ref ∈ flat.entries

section Agrees

variable {live : OrderId → Option OrderState} {flat : FlatBook} {ref : OrderId} {state : OrderState}

theorem Agrees.eq_none_iff (hagrees : Agrees live flat) :
    live ref = none ↔ flat.tracks ref = false := by
  rw [Option.eq_none_iff_forall_ne_some, Bool.eq_false_iff, Ne, FlatBook.tracks, List.any_eq_true]
  constructor
  · rintro hnone ⟨entry, hmem, href⟩
    obtain rfl : entry.ref = ref := by simpa using href
    exact hnone ⟨entry.side, entry.price, entry.qty, flat.tickerId⟩ ((hagrees _ _).mpr ⟨rfl, hmem⟩)
  · intro hnone state hstate
    exact hnone ⟨_, ((hagrees ref state).mp hstate).2, by simp [OrderState.toFlat]⟩

theorem Agrees.eq_of_mem (hagrees : Agrees live flat) (hlive : live ref = some state)
    {entry : FlatEntry} (hmem : entry ∈ flat.entries) (href : entry.ref = ref) :
    entry = state.toFlat ref := by
  subst href
  have hentry : live entry.ref = some ⟨entry.side, entry.price, entry.qty, flat.tickerId⟩ :=
    (hagrees _ _).mpr ⟨rfl, hmem⟩
  obtain rfl := Option.some.inj (hlive.symm.trans hentry)
  rfl

theorem agrees_append (hagrees : Agrees live flat) (hnone : live ref = none)
    (hticker : state.tickerId = flat.tickerId) :
    Agrees (Function.update live ref (some state)) (flat.append (state.toFlat ref)) := by
  intro ref' state'
  rw [FlatBook.mem_append]
  by_cases heq : ref' = ref
  · subst heq
    rw [Function.update_self]
    constructor
    · intro hstate
      obtain rfl := Option.some.inj hstate
      exact ⟨hticker, Or.inr rfl⟩
    · rintro ⟨hticker', hmem | hnew⟩
      · rw [(hagrees ref' state').mpr ⟨hticker', hmem⟩] at hnone
        cases hnone
      · exact congrArg some (OrderState.eq_of_toFlat_eq hnew.symm (hticker.trans hticker'.symm))
  · have hne : state'.toFlat ref' ≠ state.toFlat ref := fun h => heq (congrArg FlatEntry.ref h)
    rw [Function.update_of_ne heq, hagrees]
    simp only [hne, or_false]
    rfl

theorem agrees_remove (hagrees : Agrees live flat) :
    Agrees (Function.update live ref none) (flat.remove ref) := by
  intro ref' state'
  rw [FlatBook.mem_remove]
  by_cases heq : ref' = ref
  · simp [heq, OrderState.toFlat]
  · rw [Function.update_of_ne heq, hagrees]
    simp [heq, OrderState.toFlat, FlatBook.remove]

theorem agrees_reduce (hagrees : Agrees live flat) (hlive : live ref = some state)
    (qty : Quantity) :
    Agrees (Function.update live ref (reduced state qty)) (flat.reduce ref qty) := by
  obtain ⟨hticker, hmem⟩ := (hagrees ref state).mp hlive
  intro ref' state'
  rw [FlatBook.mem_reduce]
  by_cases heq : ref' = ref
  · subst heq
    rw [Function.update_self, reduced]
    constructor
    · intro hstate
      split at hstate
      case isTrue => cases hstate
      case isFalse hlt =>
          obtain rfl := Option.some.inj hstate
          exact ⟨hticker, Or.inr ⟨state.toFlat ref', hmem, rfl, hlt, rfl⟩⟩
    · rintro ⟨hticker', ⟨-, hne⟩ | ⟨old, hold, href, hlt, hnew⟩⟩
      · exact absurd rfl hne
      · obtain rfl := hagrees.eq_of_mem hlive hold href
        have hflat : OrderState.toFlat { state with qty := state.qty - qty } ref' =
            state'.toFlat ref' := hnew.symm
        rw [if_neg (show ¬ state.qty ≤ qty from hlt)]
        exact congrArg some (OrderState.eq_of_toFlat_eq hflat (hticker.trans hticker'.symm))
  · rw [Function.update_of_ne heq, hagrees]
    refine and_congr_right fun _ => ⟨fun hmem' => Or.inl ⟨hmem', heq⟩, ?_⟩
    rintro (⟨hmem', -⟩ | ⟨old, -, href, -, hnew⟩)
    · exact hmem'
    · exact absurd ((congrArg FlatEntry.ref hnew).trans href) heq

theorem applyUpdate_addUpdate {msg : Payload} {out : MarketUpdate} {type : UpdateType}
    (hticker : flat.tickerId = msg.stockLocate) (htype : type = .add ∨ type = .addMpid)
    (hnew : flat.tracks msg.ref = false) :
    flat.applyUpdate (addUpdate type msg out) =
      flat.append ⟨msg.ref, msg.side, msg.price, msg.shares⟩ := by
  rcases htype with rfl | rfl <;> simp [FlatBook.applyUpdate, addUpdate, hticker, hnew]

theorem agrees_addUpdate {msg : Payload} {out : MarketUpdate} {type : UpdateType}
    (hticker : flat.tickerId = msg.stockLocate) (hagrees : Agrees live flat)
    (htype : type = .add ∨ type = .addMpid) (hnew : msg.shares ≠ 0 ∧ live msg.ref = none) :
    Agrees (Function.update live msg.ref
      (OrderState.entry? ⟨msg.side, msg.price, msg.shares, msg.stockLocate⟩))
      (flat.applyUpdate (addUpdate type msg out)) := by
  rw [applyUpdate_addUpdate hticker htype (hagrees.eq_none_iff.mp hnew.2), OrderState.entry?,
    if_neg hnew.1]
  have hentry : msg.stockLocate = flat.tickerId := hticker.symm
  exact agrees_append hagrees hnew.2 hentry

/-- The flat book follows an accepted message. -/
theorem agrees_touch {msg : Payload} {type : MsgType} {update out : MarketUpdate}
    {entry : Option OrderState} (hticker : flat.tickerId = msg.stockLocate)
    (hagrees : Agrees live flat) (hmarker : type = .orderDelete → marker? msg.locate = none)
    (hadd : type = .addOrder ∨ type = .addOrderMpid →
      msg.shares ≠ 0 ∧ live msg.ref = none)
    (htouch : touch type msg out (live msg.ref) = some (update, entry)) :
    update.tickerId = msg.stockLocate
      ∧ (update.type ≠ .replace ∧ update.type ≠ .snapshotStart ∧ update.type ≠ .snapshotClear)
      ∧ Agrees (Function.update live msg.ref entry)
        (flat.applyUpdate update) := by
  have hstate : ∀ state, live msg.ref = some state →
      state.tickerId = msg.stockLocate := fun state hlive =>
    ((hagrees _ _).mp hlive).1.trans hticker
  cases type with
  | systemEvent => cases htouch
  | orderReplace => cases htouch
  | addOrder =>
      obtain ⟨rfl, rfl⟩ := Prod.mk.injEq .. ▸ Option.some.inj htouch
      exact ⟨rfl, by simp [addUpdate], agrees_addUpdate hticker hagrees (Or.inl rfl) (hadd (Or.inl rfl))⟩
  | addOrderMpid =>
      obtain ⟨rfl, rfl⟩ := Prod.mk.injEq .. ▸ Option.some.inj htouch
      exact ⟨rfl, by simp [addUpdate], agrees_addUpdate hticker hagrees (Or.inr rfl) (hadd (Or.inr rfl))⟩
  | orderExecuted =>
      obtain ⟨state, hlive, heq⟩ := Option.map_eq_some_iff.mp htouch
      obtain ⟨rfl, rfl⟩ := Prod.mk.injEq .. ▸ heq
      refine ⟨hstate state hlive, by simp [entryUpdate], ?_⟩
      have happly : flat.applyUpdate (entryUpdate .execute msg.execShares msg.matchNumber msg state out)
          = flat.reduce msg.ref msg.execShares := by
        simp [FlatBook.applyUpdate, entryUpdate, hticker, hstate state hlive]
      rw [happly]
      exact agrees_reduce hagrees hlive _
  | orderCancel =>
      obtain ⟨state, hlive, heq⟩ := Option.map_eq_some_iff.mp htouch
      obtain ⟨rfl, rfl⟩ := Prod.mk.injEq .. ▸ heq
      refine ⟨hstate state hlive, by simp [entryUpdate], ?_⟩
      have happly : flat.applyUpdate (entryUpdate .cancel msg.canceled 0 msg state out)
          = flat.reduce msg.ref msg.canceled := by
        simp [FlatBook.applyUpdate, entryUpdate, hticker, hstate state hlive]
      rw [happly]
      exact agrees_reduce hagrees hlive _
  | orderDelete =>
      simp only [touch, hmarker rfl] at htouch
      obtain ⟨state, hlive, heq⟩ := Option.map_eq_some_iff.mp htouch
      obtain ⟨rfl, rfl⟩ := Prod.mk.injEq .. ▸ heq
      refine ⟨hstate state hlive, by simp [entryUpdate], ?_⟩
      have happly : flat.applyUpdate (entryUpdate .delete 0 0 msg state out) = flat.remove msg.ref := by
        simp [FlatBook.applyUpdate, entryUpdate, hticker, hstate state hlive]
      rw [happly]
      exact agrees_remove hagrees

end Agrees

/-- The decoder with the book of every ticker. -/
structure Feed (π : Type) where
  decoder : ItchDecoder
  books : TickerId → MarketOrderBook π

namespace Feed

variable {π : Type}

/-- A complete frame that adds, executes, cancels or deletes, for an ordinary ticker. An add has a
quantity and a valid reference that is not live. -/
def FrameOk (s : Feed π) (wire : List UInt8) : Prop :=
  match MsgType.ofByte? (wire.getD 8 0) with
  | none | some .systemEvent | some .orderReplace => False
  | some type =>
      let msg : Payload := wire.drop 8
      8 + type.payloadSize ≤ wire.length ∧ marker? msg.locate = none
        ∧ (type = .addOrder ∨ type = .addOrderMpid → msg.shares ≠ 0 ∧ msg.ref ≠ orderIdInvalid
          ∧ s.decoder.live? msg.stockLocate msg.ref = none)

instance (s : Feed π) (wire : List UInt8) : Decidable (s.FrameOk wire) := by
  unfold FrameOk
  split <;> infer_instance

theorem FrameOk.exists_type {s : Feed π} {wire : List UInt8} (hok : s.FrameOk wire) :
    ∃ type, MsgType.ofByte? (wire.getD 8 0) = some type ∧ type ≠ .orderReplace
      ∧ 8 + type.payloadSize ≤ wire.length ∧ marker? (Payload.locate (wire.drop 8)) = none
      ∧ (type = .addOrder ∨ type = .addOrderMpid → Payload.shares (wire.drop 8) ≠ 0
        ∧ Payload.ref (wire.drop 8) ≠ orderIdInvalid
        ∧ s.decoder.live? (Payload.stockLocate (wire.drop 8)) (Payload.ref (wire.drop 8)) = none) := by
  unfold FrameOk at hok
  split at hok
  · exact hok.elim
  · exact hok.elim
  · exact hok.elim
  · rename_i type _ hreplace htype
    exact ⟨type, htype, hreplace, hok⟩

def init (π : Type) [ObjectPool π] : Feed π := ⟨{}, MarketOrderBook.init π⟩

variable [ObjectPool π]

/-- A frame is decoded and, if accepted, applied to the book of its ticker. -/
def feed (fuel : Nat) (s : Feed π) (wire : List UInt8) : Option (Feed π) := do
  let result ← s.decoder.decode wire {}
  if result.accepted then
    let book ← (s.books result.update.tickerId).applyUpdate fuel result.update
    return ⟨result.decoder, Function.update s.books result.update.tickerId book⟩
  else return { s with decoder := result.decoder }

/-- The orders of a ticker in the decoder, in its book and in a flat book are the same. -/
structure InStep (s : Feed π) (flats : TickerId → FlatBook) : Prop where
  ticker : ∀ ticker, (flats ticker).tickerId = ticker
  agrees : ∀ ticker, Agrees (s.decoder.live? ticker) (flats ticker)
  simulates : ∀ ticker, (s.books ticker).Simulates (flats ticker)

theorem inStep_init : InStep (init π) FlatBook.init where
  ticker _ := rfl
  agrees ticker ref state := by simp [init, live?, FlatBook.init]
  simulates := MarketOrderBook.simulates_init

section Step

variable {s : Feed π} {flats : TickerId → FlatBook} {msg : Payload}
  {effect : Option (MarketUpdate × Option OrderState)} {result : Decoded}

theorem inStep_rejected (hstep : InStep s flats) (htouches : Touches s.decoder msg result none) :
    InStep { s with decoder := result.decoder } flats := by
  refine ⟨hstep.ticker, fun ticker => ?_, hstep.simulates⟩
  have hlive : result.decoder.live? ticker = s.decoder.live? ticker := by
    funext ref
    rw [htouches.live]
    split
    case isTrue heq => rw [heq.1, heq.2]; rfl
    case isFalse => rfl
  change Agrees (result.decoder.live? ticker) (flats ticker)
  rw [hlive]
  exact hstep.agrees ticker

/-- An accepted message changes the ticker of its update in all three. -/
theorem inStep_accepted (fuel : Nat) (hstep : InStep s flats) {update : MarketUpdate}
    {entry : Option OrderState} (htouches : Touches s.decoder msg result (some (update, entry)))
    (hticker : update.tickerId = msg.stockLocate)
    (htype : update.type ≠ .replace ∧ update.type ≠ .snapshotStart ∧ update.type ≠ .snapshotClear)
    (hagrees : Agrees (Function.update (s.decoder.live? msg.stockLocate) msg.ref entry)
      ((flats msg.stockLocate).applyUpdate update)) :
    ∃ book, (s.books update.tickerId).applyUpdate fuel update = some book
      ∧ InStep ⟨result.decoder, Function.update s.books update.tickerId book⟩
        (Function.update flats msg.stockLocate ((flats msg.stockLocate).applyUpdate update)) := by
  obtain ⟨book, happly, hsim⟩ : ∃ book, (s.books msg.stockLocate).applyUpdate fuel update = some book
      ∧ book.Simulates ((flats msg.stockLocate).applyUpdate update) :=
    MarketOrderBook.simulates_applyUpdate (hstep.simulates msg.stockLocate) (by simp [htype])
      (MarketOrderBook.relinksCleanly_of_ne_replace htype.1)
  rw [hticker]
  refine ⟨book, happly, fun ticker => ?_, fun ticker => ?_, fun ticker => ?_⟩
  · by_cases heq : ticker = msg.stockLocate
    · subst heq
      rw [Function.update_self, FlatBook.tickerId_applyUpdate, hstep.ticker]
    · rw [Function.update_of_ne heq, hstep.ticker]
  · have hlive : ∀ ref, result.decoder.live? ticker ref =
        if ticker = msg.stockLocate ∧ ref = msg.ref then entry else s.decoder.live? ticker ref :=
      htouches.live ticker
    by_cases heq : ticker = msg.stockLocate
    · subst heq
      rw [Function.update_self]
      convert hagrees using 1
      funext ref
      simp [hlive, Function.update_apply]
    · rw [Function.update_of_ne heq]
      convert hstep.agrees ticker using 1
      funext ref
      simp [hlive, heq]
  · by_cases heq : ticker = msg.stockLocate
    · subst heq
      simpa using hsim
    · simpa [Function.update_of_ne heq] using hstep.simulates ticker

/-- A complete message other than a replace, rejected or followed by the flat book of its ticker. -/
theorem inStep_message (fuel : Nat) {wire : List UInt8} {type : MsgType} (hstep : InStep s flats)
    (htype : MsgType.ofByte? (wire.getD 8 0) = some type) (hreplace : type ≠ .orderReplace)
    (hlength : 8 + type.payloadSize ≤ wire.length) (hmsg : msg = wire.drop 8)
    (hmarker : type = .orderDelete → marker? msg.locate = none)
    (hadd : type = .addOrder ∨ type = .addOrderMpid → msg.shares ≠ 0 ∧ msg.ref ≠ orderIdInvalid
      ∧ s.decoder.live? msg.stockLocate msg.ref = none) :
    ∃ s', s.feed fuel wire = some s' ∧ ∃ out, match touch type msg out
        (s.decoder.live? msg.stockLocate msg.ref) with
      | none => InStep s' flats
      | some (update, _) => InStep s' (Function.update flats msg.stockLocate
          ((flats msg.stockLocate).applyUpdate update)) := by
  subst hmsg
  let msg : Payload := wire.drop 8
  let decoder : ItchDecoder :=
    { s.decoder with lastDecodedSize := type.payloadSize, needMoreData := false }
  have hstep' : InStep { s with decoder := decoder } flats := ⟨hstep.ticker, hstep.agrees, hstep.simulates⟩
  let out : MarketUpdate := { seqNum := UInt64.ofNat (field wire 0 8) }
  obtain ⟨result, hdecode, htouches⟩ : ∃ result, decoder.decodeMessage type msg out = some result
      ∧ Touches decoder msg result (touch type msg out (decoder.live? msg.stockLocate msg.ref)) :=
    decodeMessage_touches hreplace fun h => (hadd h).2.1
  have hdecode' : s.decoder.decode wire {} = some result :=
    (decode_eq_decodeMessage htype hlength).trans hdecode
  simp only [feed, hdecode', Option.bind_eq_bind, Option.bind_some]
  have hlive : decoder.live? msg.stockLocate msg.ref = s.decoder.live? msg.stockLocate msg.ref := rfl
  rw [hlive] at htouches
  cases heffect : touch type msg out (s.decoder.live? msg.stockLocate msg.ref) with
  | none =>
      rw [heffect] at htouches
      have hrejected := inStep_rejected hstep' htouches
      refine ⟨_, by rw [if_neg (by simp [htouches.accepted])]; rfl, out, ?_⟩
      rw [heffect]
      exact hrejected
  | some pair =>
      obtain ⟨update, entry⟩ := pair
      rw [heffect] at htouches
      obtain ⟨hticker, hupdate, hagrees⟩ := agrees_touch (hstep.ticker msg.stockLocate)
        (hstep.agrees msg.stockLocate) hmarker (fun h => ⟨(hadd h).1, (hadd h).2.2⟩) heffect
      obtain ⟨book, happly, hstep''⟩ :=
        inStep_accepted fuel hstep' htouches hticker hupdate hagrees
      have hresult : result.update = update := htouches.update update entry rfl
      simp only at happly
      refine ⟨_, by rw [if_pos (by simp [htouches.accepted]), hresult, happly]; rfl, out, ?_⟩
      rw [heffect]
      exact hstep''

/-- **One frame** keeps decoder and books in step. -/
theorem inStep_feed (fuel : Nat) {wire : List UInt8} (hstep : InStep s flats) (hok : s.FrameOk wire) :
    ∃ s', s.feed fuel wire = some s' ∧ ∃ flats', InStep s' flats' := by
  obtain ⟨type, htype, hreplace, hlength, hmarker, hadd⟩ := hok.exists_type
  obtain ⟨s', hfeed, out, hstep'⟩ :=
    inStep_message fuel hstep htype hreplace hlength rfl (fun _ => hmarker) hadd
  refine ⟨s', hfeed, ?_⟩
  split at hstep'
  · exact ⟨_, hstep'⟩
  · exact ⟨_, hstep'⟩

end Step

/-- **Every run** leaves the same live orders in the decoder and in the books. -/
theorem decoder_live_iff_book_holds (fuel : Nat) (frames : List (List UInt8))
    (hframes : Run.Along (feed fuel) FrameOk (init π) frames) :
    ∃ s, frames.foldlM (feed fuel) (init π) = some s ∧ ∀ ticker ref side price qty,
      (∃ state, s.decoder.live? ticker ref = some state ∧ state.side = side ∧ state.price = price
        ∧ state.qty = qty) ↔ (s.books ticker).Holds ref side price qty := by
  have hfeed : ∀ (s : Feed π) wire, (∃ flats, InStep s flats) → FrameOk s wire →
      ∃ s', feed fuel s wire = some s' ∧ ∃ flats, InStep s' flats := by
    rintro s wire ⟨flats, hstep⟩ hok
    exact inStep_feed fuel hstep hok
  have hinit : ∃ flats, InStep (init π) flats := ⟨FlatBook.init, inStep_init⟩
  obtain ⟨s, hrun, flats, hstep⟩ := Run.progress hfeed hinit hframes
  refine ⟨s, hrun, fun ticker ref side price qty => ?_⟩
  rw [(hstep.simulates ticker).holds_iff]
  constructor
  · rintro ⟨state, hlive, rfl, rfl, rfl⟩
    exact ((hstep.agrees ticker ref state).mp hlive).2
  · intro hmem
    exact ⟨⟨side, price, qty, (flats ticker).tickerId⟩,
      (hstep.agrees ticker ref _).mpr ⟨rfl, hmem⟩, rfl, rfl, rfl⟩

/-- An order is added, over-filled and deleted once more. -/
theorem decoder_live_iff_book_holds_overfill :
    ∃ s, List.foldlM (feed 0) (init FreeListPool)
        [[0, 0, 0, 0, 0, 0, 0, 1, 65, 0, 7] ++ List.replicate 8 0 ++
            [0, 0, 0, 0, 0, 0, 0, 5, 66, 0, 0, 0, 10] ++ List.replicate 8 0 ++ [0, 0, 0, 100],
          [0, 0, 0, 0, 0, 0, 0, 2, 69, 0, 7] ++ List.replicate 8 0 ++
            [0, 0, 0, 0, 0, 0, 0, 5, 0, 0, 0, 11] ++ List.replicate 8 0,
          [0, 0, 0, 0, 0, 0, 0, 3, 68, 0, 7] ++ List.replicate 8 0 ++ [0, 0, 0, 0, 0, 0, 0, 5]] = some s
      ∧ ∀ ticker ref side price qty,
        (∃ state, s.decoder.live? ticker ref = some state ∧ state.side = side ∧ state.price = price
          ∧ state.qty = qty) ↔ (s.books ticker).Holds ref side price qty :=
  decoder_live_iff_book_holds 0 _ (by decide +kernel)

end Feed

end AlphaTrader
