import AlphaTrader.Trading.OrderManager
import AlphaTrader.Proof.RiskSpec

/-!
# What an operation does to a slot

One lemma per operation says everything that the operation can do to the recorded orders, the
reservations, the positions and the outgoing queue. Later invariants follow the cases of these lemmas
and never look into the operations again.
-/

namespace AlphaTrader

namespace RiskManager

variable {cap : Capacity} {risk : RiskManager cap} {request : OrderRequest} {position : Position}

/-- What an accepted request has been checked for. -/
structure Passed (risk : RiskManager cap) (request : OrderRequest) (position : Position)
    (limits : RiskLimits) : Prop where
  enabled : risk.tradingEnabled = true
  type : request.type = .new
  id : request.clientOrderId ≠ 0
  ticker : risk.findTicker request.tickerId = some limits
  price : 0 ≤ request.price
  qty : request.qty ≠ 0
  fresh : risk.findPending request.clientOrderId = none
  room : risk.pending.length ≠ cap.maxPendingOrders
  maxQty : request.qty ≤ limits.maxOrderQty
  notional : request.price.toInt * request.qty.toNat ≤ limits.maxOrderNotional
  lower : -limits.maxAbsPosition ≤ position.netQty + risk.pendingExposure request.tickerId
    + request.side.signed request.qty
  upper : position.netQty + risk.pendingExposure request.tickerId
    + request.side.signed request.qty ≤ limits.maxAbsPosition

theorem passed_of_canSubmit (haccepted : risk.canSubmit request position = .accepted) :
    ∃ limits, Passed risk request position limits := by
  unfold canSubmit at haccepted
  split at haccepted
  case isTrue => cases haccepted
  case isFalse henabled =>
      split at haccepted
      case isTrue => cases haccepted
      case isFalse hvalid =>
          simp only [not_or, not_not] at hvalid
          obtain ⟨htype, hid, hticker, hprice, hsign, hqty⟩ := hvalid
          split at haccepted
          case h_1 => cases haccepted
          case h_2 limits hlimits =>
              refine ⟨limits, ?_⟩
              split at haccepted
              case isTrue => cases haccepted
              case isFalse hfresh =>
                  split at haccepted
                  case isTrue => cases haccepted
                  case isFalse hroom =>
                      split at haccepted
                      case isTrue => cases haccepted
                      case isFalse hmax =>
                          split at haccepted
                          case isTrue => cases haccepted
                          case isFalse hnotional =>
                              simp only at haccepted
                              split at haccepted
                              case isTrue => cases haccepted
                              case isFalse hposition =>
                                  obtain ⟨hlower, hupper⟩ := not_or.mp hposition
                                  exact
                                    { enabled := by simpa using henabled
                                      type := htype
                                      id := hid
                                      ticker := hlimits
                                      price := Int32.not_lt.mp hsign
                                      qty := hqty
                                      fresh := by simpa using hfresh
                                      room := hroom
                                      maxQty := UInt32.not_lt.mp hmax
                                      notional := Int.not_lt.mp hnotional
                                      lower := Int.not_lt.mp hlower
                                      upper := Int.not_lt.mp hupper }

/-- A reservation can be re-keyed if there is one, and the new id is neither zero nor taken. -/
def Rekeys (risk : RiskManager cap) (oldId newId : OrderId) : Prop :=
  newId ≠ 0 ∧ (∀ pending ∈ risk.pending, pending.clientOrderId ≠ newId)
    ∧ ∃ pending ∈ risk.pending, pending.clientOrderId = oldId

instance (oldId newId : OrderId) : Decidable (risk.Rekeys oldId newId) :=
  inferInstanceAs (Decidable (_ ∧ _ ∧ _))

theorem onReplaced_isSome_iff {oldId newId : OrderId} :
    (risk.onReplaced oldId newId).isSome ↔ risk.Rekeys oldId newId := by
  have hfree : risk.findPending newId = none
      ↔ ∀ pending ∈ risk.pending, pending.clientOrderId ≠ newId := Table.find_eq_none_iff
  have hmissing : risk.findPending oldId = none
      ↔ ∀ pending ∈ risk.pending, pending.clientOrderId ≠ oldId := Table.find_eq_none_iff
  unfold onReplaced Rekeys
  split
  case isTrue htaken =>
      refine ⟨nofun, fun hrekeys => ?_⟩
      rcases htaken with hzero | hsome
      · exact absurd hzero hrekeys.1
      · simp [hfree.mpr hrekeys.2.1] at hsome
  case isFalse hvalid =>
      obtain ⟨hzero, hnone⟩ := not_or.mp hvalid
      cases hfind : risk.findPending oldId with
      | none => simpa using fun _ _ => hmissing.mp hfind
      | some found =>
          have hexists : ∃ pending ∈ risk.pending, pending.clientOrderId = oldId := by
            by_contra hnot
            push Not at hnot
            simp [hmissing.mpr hnot] at hfind
          simpa [hzero, hexists] using hfree.mp (by simpa using hnone)

theorem of_onReplaced_eq_some {risk' : RiskManager cap} {oldId newId : OrderId}
    (hsome : risk.onReplaced oldId newId = some risk') :
    ∃ before pending after, risk.SplitAt oldId before pending after
      ∧ risk' = { risk with pending := before ++ { pending with clientOrderId := newId } :: after } := by
  unfold onReplaced at hsome
  split at hsome
  case isTrue => cases hsome
  case isFalse =>
      obtain ⟨⟨index, pending⟩, hfind, hrest⟩ := Option.bind_eq_some_iff.mp hsome
      obtain ⟨before, after, hsplit, rfl, hid, hskipped⟩ := Table.exists_split_of_find hfind
      refine ⟨before, pending, after, ⟨hsplit, hid, hskipped⟩, ?_⟩
      obtain rfl := Option.some.inj hrest
      simp [hsplit]

end RiskManager

/-- A response that books no shares. -/
def OrderResponse.Silent (response : OrderResponse) : Prop :=
  response.status = .accepted ∨ response.status = .cancelRejected
    ∨ response.status = .canceled ∧ response.canceledQty = 0

namespace Slot

variable {cap : Capacity} {s s' : Slot cap} {id : OrderId}

/-- The recorded orders split at the order that a search for the id finds. -/
structure OrderAt (s : Slot cap) (id : OrderId) (before : List OMOrder) (order : OMOrder)
    (after : List OMOrder) : Prop where
  split : s.orders = before ++ order :: after
  found : order.id = id
  skipped : ∀ other ∈ before, other.id ≠ id

theorem OrderAt.mem {before after : List OMOrder} {order : OMOrder}
    (hat : s.OrderAt id before order after) : order ∈ s.orders := by
  simp [hat.split]

theorem OrderAt.split_middle {before after : List OMOrder} {order : OMOrder}
    (hat : s.OrderAt id before order after) : s.orders = before ++ [order] ++ after := by
  simp [hat.split]

theorem OrderAt.find_eq {before after : List OMOrder} {order : OMOrder}
    (hat : s.OrderAt id before order after) : s.find id = some (before.length, order) := by
  rw [find, hat.split]
  exact Table.find_split before after hat.skipped hat.found

theorem orderAt_of_find {index : Nat} {order : OMOrder} (hfind : s.find id = some (index, order)) :
    ∃ before after, s.OrderAt id before order after ∧ before.length = index := by
  obtain ⟨before, after, hsplit, hindex, hfound, hskipped⟩ := Table.exists_split_of_find hfind
  exact ⟨before, after, ⟨hsplit, hfound, hskipped⟩, hindex⟩

theorem OrderAt.set_orders {before after : List OMOrder} {order : OMOrder}
    (hat : s.OrderAt id before order after) (order' : OMOrder) :
    s.orders.set before.length order' = before ++ order' :: after := by
  rw [hat.split, Table.set_split]

/-- Nothing changes but the counters, the kill switch and the parts of a position other than the net
quantity. -/
structure Same (s s' : Slot cap) : Prop where
  slot : s'.slot = s.slot
  orders : s'.orders = s.orders
  counter : s'.allocator.counter = s.allocator.counter
    ∨ s'.allocator.counter = s.allocator.counter + 1
  tickers : s'.risk.tickers = s.risk.tickers
  pending : s'.risk.pending = s.risk.pending
  netQty : ∀ ticker, s'.pnl.netQty ticker = s.pnl.netQty ticker
  outgoing : s'.outgoing = s.outgoing

theorem Same.rfl : Same s s :=
  ⟨Eq.refl _, Eq.refl _, Or.inl (Eq.refl _), Eq.refl _, Eq.refl _, fun _ => Eq.refl _, Eq.refl _⟩

/-- Nothing changes but the next id and the count of refused requests. -/
structure Untouched (s s' : Slot cap) : Prop where
  rest : s' = { s with allocator := s'.allocator, rejected := s'.rejected }
  counter : s'.allocator.counter = s.allocator.counter
    ∨ s'.allocator.counter = s.allocator.counter + 1

theorem Untouched.same (huntouched : Untouched s s') : Same s s' := by
  obtain ⟨hrest, hcounter⟩ := huntouched
  rw [hrest]
  exact ⟨rfl, rfl, hcounter, rfl, rfl, fun _ => rfl, rfl⟩

/-- The next id of the slot. -/
def nextId (s : Slot cap) : OrderId := (s.allocator.next s.slot).1

/-- A new request under the id it is sent with. -/
def submission (s : Slot cap) (request : OrderRequest) : OrderRequest :=
  { request with clientOrderId := s.nextId, newClientOrderId := 0 }

/-- The reservation that a submitted request makes. -/
def reservation (request : OrderRequest) : PendingOrder :=
  ⟨request.clientOrderId, request.tickerId, request.side, request.qty⟩

/-- The request that cancels an order. -/
def cancelRequest (order : OMOrder) (qty : Quantity) : OrderRequest :=
  ⟨.cancel, order.id, 0, order.request.tickerId, order.request.side, order.request.price, qty,
    order.request.ioc⟩

/-- The request that replaces an order, under the next id of the slot. -/
def replaceRequest (s : Slot cap) (order : OMOrder) (price : Price) (qty : Quantity) : OrderRequest :=
  ⟨.replace, order.id, s.nextId, order.request.tickerId, order.request.side, price, qty,
    order.request.ioc⟩

/-- A replaced order: the new id, price and quantity, with the state and the fills of the old one. -/
def replacedOrder (s : Slot cap) (order : OMOrder) (price : Price) (qty : Quantity) : OMOrder :=
  { order with request :=
      { s.replaceRequest order price qty with clientOrderId := s.nextId, newClientOrderId := 0 } }

/-- A request has room only where the order may still be worked on. -/
def Open (order : OMOrder) : Prop := ¬ order.state.Finished ∧ order.isCancelRequested = false

instance (order : OMOrder) : Decidable (Open order) := inferInstanceAs (Decidable (_ ∧ _))

/-- What an operation can do to a slot. -/
inductive Effect (s : Slot cap) : Op → Slot cap → Prop
  | idle {op : Op} {s' : Slot cap} (hsame : Same s s') : Effect s op s'
  | submitted {request : OrderRequest} {position : Position} {room : Bool} {limits : RiskLimits}
      {before evicted after : List OMOrder}
      (hpassed : s.risk.Passed (s.submission request) position limits)
      (hsplit : s.orders = before ++ evicted ++ after)
      (hevicted : ∀ order ∈ evicted, order.state.Finished) :
      Effect s (.sendNewOrder request position room)
        { s with
          orders := before ++ { request := s.submission request, state := .notActive } :: after
          newOrders := s.newOrders + 1
          allocator := (s.allocator.next s.slot).2
          risk := { s.risk with
            pending := s.risk.pending ++ [reservation (s.submission request)] }
          outgoing := s.outgoing ++ [s.submission request] }
  | cancelSent {id : OrderId} {qty : Quantity} {room : Bool} {before after : List OMOrder}
      {order : OMOrder} (hat : s.OrderAt id before order after) (hopen : Open order) :
      Effect s (.sendCancel id qty room)
        { s with
          orders := before ++ { order with isCancelRequested := true } :: after
          cancels := s.cancels + 1
          outgoing := s.outgoing ++ [cancelRequest order qty] }
  | unreserved {id : OrderId} {price : Price} {qty : Quantity} {room : Bool}
      {before after : List OMOrder} {order : OMOrder} (hat : s.OrderAt id before order after)
      (hopen : Open order)
      (hpending : s.nextId = 0 ∨ (∃ pending ∈ s.risk.pending, pending.clientOrderId = s.nextId)
        ∨ ∀ pending ∈ s.risk.pending, pending.clientOrderId ≠ id) :
      Effect s (.sendReplace id price qty room)
        { s with
          allocator := (s.allocator.next s.slot).2
          outgoing := s.outgoing ++ [s.replaceRequest order price qty] }
  | replaced {id : OrderId} {price : Price} {qty : Quantity} {room : Bool}
      {before after : List OMOrder} {order : OMOrder} {pendingBefore pendingAfter : List PendingOrder}
      {pending : PendingOrder} (hat : s.OrderAt id before order after) (hopen : Open order)
      (hpending : s.risk.SplitAt id pendingBefore pending pendingAfter) :
      Effect s (.sendReplace id price qty room)
        { s with
          orders := before ++ s.replacedOrder order price qty :: after
          replaces := s.replaces + 1
          allocator := (s.allocator.next s.slot).2
          risk := { s.risk with
            pending := pendingBefore ++ { pending with clientOrderId := s.nextId } :: pendingAfter }
          outgoing := s.outgoing ++ [s.replaceRequest order price qty] }
  | noted {response : OrderResponse} {before after : List OMOrder} {order order' : OMOrder}
      (hat : s.OrderAt response.clientOrderId before order after)
      (hstatus : response.status = .accepted ∨ response.status = .cancelRejected)
      (hrequest : order'.request = order.request) (hfilled : order'.filledQty = order.filledQty)
      (hlive : order'.state.Live ↔ order.state.Live)
      (hfinished : order'.state.Finished ↔ order.state.Finished)
      (hprice : order'.avgFillPrice = order.avgFillPrice)
      (hstate : order'.state = order.state ∨ order.state = .notActive ∧ order'.state = .active) :
      Effect s (.onOrderResponse response) { s with orders := before ++ order' :: after }
  | filled {response : OrderResponse} {before after : List OMOrder} {order : OMOrder}
      {risk : RiskManager cap} {pnl : PnLTracker cap}
      (hat : s.OrderAt response.clientOrderId before order after)
      (hstatus : response.status = .executed) (hopen : ¬ order.state.Finished)
      (hqty : order.filledQty.toNat + response.executedQty.toNat ≤ order.request.qty.toNat)
      (hrisk : s.risk.onOrderResponse response s.pnl = some (risk, pnl)) :
      Effect s (.onOrderResponse response)
        { s with
          orders := before ++
            { order with
              filledQty := order.filledQty + response.executedQty
              avgFillPrice :=
                averagePrice order (order.filledQty + response.executedQty) response
              state := if order.filledQty + response.executedQty = order.request.qty
                then .completed else .partiallyFilled } :: after
          fills := s.fills + 1
          filledQty := s.filledQty + response.executedQty.toUInt64
          risk := risk
          pnl := pnl }
  | failed {response : OrderResponse} {before after : List OMOrder} {order : OMOrder}
      (hat : s.OrderAt response.clientOrderId before order after)
      (hstatus : response.status = .executed) (hpositive : response.executedQty ≠ 0)
      (hopen : ¬ order.state.Finished)
      (hqty : order.filledQty.toNat + response.executedQty.toNat ≤ order.request.qty.toNat)
      (hrisk : s.risk.onOrderResponse response s.pnl = none) :
      Effect s (.onOrderResponse response)
        { s with orders := before ++ { order with state := .dead } :: after }
  | canceled {response : OrderResponse} {before after : List OMOrder} {order : OMOrder}
      {risk : RiskManager cap} {pnl : PnLTracker cap}
      (hat : s.OrderAt response.clientOrderId before order after)
      (hstatus : response.status = .canceled)
      (hopen : order.state ≠ .completed ∧ order.state ≠ .dead)
      (hrisk : if response.canceledQty = 0 then risk = s.risk ∧ pnl = s.pnl
        else s.risk.onOrderResponse response s.pnl = some (risk, pnl)) :
      Effect s (.onOrderResponse response)
        { s with
          orders := before ++
            { order with
              isCancelRequested := false
              state := if order.filledQty = order.request.qty then .completed else .cancelled }
            :: after
          risk := risk
          pnl := pnl }
  | rejected {response : OrderResponse} {before after : List OMOrder} {order : OMOrder}
      {risk : RiskManager cap} {pnl : PnLTracker cap}
      (hat : s.OrderAt response.clientOrderId before order after)
      (hstatus : response.status = .rejected)
      (hrisk : s.risk.onOrderResponse response s.pnl = some (risk, pnl)) :
      Effect s (.onOrderResponse response)
        { s with
          orders := before ++ { order with state := .dead } :: after
          risk := risk
          pnl := pnl
          rejected := s.rejected + 1 }

/-! ### Requests -/

/-- A new order takes the place of a finished one, or goes to the end. -/
theorem placeOrder_split (order : OMOrder) :
    ∃ before evicted after, s.orders = before ++ evicted ++ after
      ∧ s.placeOrder s.allocSlot order = before ++ order :: after
      ∧ ∀ other ∈ evicted, other.state.Finished := by
  by_cases hend : s.allocSlot = s.orders.length
  · exact ⟨s.orders, [], [], by simp, by simp [placeOrder, hend], by simp⟩
  · have hlt : s.allocSlot < s.orders.length :=
      lt_of_le_of_ne List.findIdx_le_length hend
    refine ⟨s.orders.take s.allocSlot, [s.orders[s.allocSlot]], s.orders.drop (s.allocSlot + 1),
      ?_, ?_, ?_⟩
    · simp
    · rw [placeOrder, if_neg hend, List.set_eq_take_append_cons_drop, if_pos hlt]
    · intro other hother
      obtain rfl := List.mem_singleton.mp hother
      exact of_decide_eq_true (List.findIdx_getElem (w := hlt))

/-- The slot after a new order that takes the place of what stood between two parts of the recorded
orders. -/
def placed (s : Slot cap) (request : OrderRequest) (before after : List OMOrder) : Slot cap :=
  { s with
    orders := before ++ { request := s.submission request, state := .notActive } :: after
    newOrders := s.newOrders + 1
    allocator := (s.allocator.next s.slot).2
    risk := { s.risk with pending := s.risk.pending ++ [reservation (s.submission request)] }
    outgoing := s.outgoing ++ [s.submission request] }

theorem onSubmitted_of_passed {request : OrderRequest} {position : Position} {limits : RiskLimits}
    (hpassed : s.risk.Passed request position limits) :
    s.risk.onSubmitted request =
      some { s.risk with pending := s.risk.pending ++ [reservation request] } := by
  rw [RiskManager.onSubmitted, if_neg]
  · rfl
  · rw [not_or]
    exact ⟨Option.not_isSome_iff_eq_none.mpr hpassed.fresh, hpassed.room⟩

/-- A new order is refused and nothing is sent, or it is sent, recorded and reserved for. -/
theorem sendNewOrder_cases (request : OrderRequest) (position : Position) (room : Bool) :
    ((s.sendNewOrder request position room).1 = false
        ∧ Untouched s (s.sendNewOrder request position room).2)
      ∨ ∃ limits before evicted after, s.risk.Passed (s.submission request) position limits
        ∧ s.orders = before ++ evicted ++ after ∧ (∀ order ∈ evicted, order.state.Finished)
        ∧ s.sendNewOrder request position room = (true, s.placed request before after) := by
  unfold sendNewOrder
  dsimp only
  split
  case isTrue => exact Or.inl ⟨rfl, rfl, Or.inl rfl⟩
  case isFalse =>
      split
      case isTrue => exact Or.inl ⟨rfl, rfl, Or.inr rfl⟩
      case isFalse haccepted =>
          obtain ⟨limits, hpassed⟩ := RiskManager.passed_of_canSubmit (not_not.mp haccepted)
          split
          case isTrue => exact Or.inl ⟨rfl, rfl, Or.inr rfl⟩
          case isFalse =>
              obtain ⟨before, evicted, after, hsplit, hplaced, hevicted⟩ :=
                placeOrder_split (s := s) { request := s.submission request, state := .notActive }
              refine Or.inr ⟨limits, before, evicted, after, hpassed, hsplit, hevicted, ?_⟩
              simp only [onSubmitted_of_passed hpassed, placed, ← hplaced]
              rfl

theorem effect_sendNewOrder (request : OrderRequest) (position : Position) (room : Bool) :
    Effect s (.sendNewOrder request position room) (s.sendNewOrder request position room).2 := by
  rcases sendNewOrder_cases (s := s) request position room with
    ⟨-, huntouched⟩ | ⟨limits, before, evicted, after, hpassed, hsplit, hevicted, hsent⟩
  · exact .idle huntouched.same
  · rw [hsent]
    exact .submitted hpassed hsplit hevicted

theorem effect_sendCancel (id : OrderId) (qty : Quantity) (room : Bool) :
    Effect s (.sendCancel id qty room) (s.sendCancel id qty room).2 := by
  unfold sendCancel
  split
  case h_1 index order hfind =>
      obtain ⟨before, after, hat, rfl⟩ := orderAt_of_find hfind
      split
      case isTrue => exact .idle .rfl
      case isFalse hopen =>
          obtain ⟨hfinished, hrequested⟩ := not_or.mp hopen
          split
          case isTrue => exact .idle .rfl
          case isFalse =>
              have heffect : Effect s (.sendCancel id qty room) _ :=
                .cancelSent hat ⟨hfinished, by simpa using hrequested⟩
              simpa [setOrder, hat.set_orders, cancelRequest, hat.found] using heffect
  case h_2 => exact .idle .rfl

/-- A replace is refused and nothing is sent, or it is sent, and then recorded only if the reservation
can be re-keyed. -/
theorem sendReplace_cases (id : OrderId) (price : Price) (qty : Quantity) (room : Bool) :
    ((s.sendReplace id price qty room).1 = false ∧ Untouched s (s.sendReplace id price qty room).2
        ∧ ∀ index order, s.find id = some (index, order) → Open order → room = false)
      ∨ ∃ before order after, s.OrderAt id before order after ∧ Open order ∧ room = true
        ∧ (¬ s.risk.Rekeys id s.nextId ∧ s.sendReplace id price qty room =
            (false, { s with
              allocator := (s.allocator.next s.slot).2
              outgoing := s.outgoing ++ [s.replaceRequest order price qty] })
          ∨ s.risk.Rekeys id s.nextId ∧ ∃ pendingBefore pending pendingAfter,
            s.risk.SplitAt id pendingBefore pending pendingAfter ∧ s.sendReplace id price qty room =
            (true, { s with
              orders := before ++ s.replacedOrder order price qty :: after
              replaces := s.replaces + 1
              allocator := (s.allocator.next s.slot).2
              risk := { s.risk with
                pending := pendingBefore ++ { pending with clientOrderId := s.nextId } :: pendingAfter }
              outgoing := s.outgoing ++ [s.replaceRequest order price qty] })) := by
  unfold sendReplace
  split
  case h_2 hfind => exact Or.inl ⟨rfl, ⟨rfl, Or.inl rfl⟩, fun _ _ hsome => by simp [hfind] at hsome⟩
  case h_1 index order hfind =>
      obtain ⟨before, after, hat, rfl⟩ := orderAt_of_find hfind
      by_cases hclosed : order.state.Finished ∨ order.isCancelRequested = true
      · rw [if_pos hclosed]
        refine Or.inl ⟨rfl, ⟨rfl, Or.inl rfl⟩, fun index' order' hsome hopen => ?_⟩
        obtain ⟨-, rfl⟩ := Prod.mk.inj (Option.some.inj (hfind.symm.trans hsome))
        rcases hclosed with hfinished | hrequested
        · exact absurd hfinished hopen.1
        · simp [hopen.2] at hrequested
      · obtain ⟨hfinished, hrequested⟩ := not_or.mp hclosed
        have hopen : Open order := ⟨hfinished, by simpa using hrequested⟩
        have hrequest : (⟨.replace, id, s.nextId, order.request.tickerId, order.request.side, price,
            qty, order.request.ioc⟩ : OrderRequest) = s.replaceRequest order price qty := by
          rw [replaceRequest, hat.found]
        rw [if_neg hclosed]
        dsimp only
        cases room with
        | false =>
            rw [if_pos (by simp)]
            exact Or.inl ⟨rfl, ⟨rfl, Or.inr rfl⟩, fun _ _ _ _ => rfl⟩
        | true =>
            refine Or.inr ⟨before, order, after, hat, hopen, rfl, ?_⟩
            have hiff : (s.risk.onReplaced id s.nextId).isSome ↔ s.risk.Rekeys id s.nextId :=
              RiskManager.onReplaced_isSome_iff
            rw [if_neg (by simp)]
            cases hreplaced : s.risk.onReplaced id s.nextId with
            | none =>
                refine Or.inl ⟨fun hrekeys => by simpa [hreplaced] using hiff.mpr hrekeys, ?_⟩
                rw [nextId] at hreplaced
                simp only [hreplaced, ← hrequest, nextId]
            | some risk =>
                obtain ⟨pendingBefore, pending, pendingAfter, hsplit, rfl⟩ :=
                  RiskManager.of_onReplaced_eq_some hreplaced
                refine Or.inr ⟨hiff.mp (by simp [hreplaced]), pendingBefore, pending, pendingAfter,
                  hsplit, ?_⟩
                rw [nextId] at hreplaced
                simp only [hreplaced, setOrder, hat.set_orders, replacedOrder, ← hrequest, nextId]

theorem effect_sendReplace (id : OrderId) (price : Price) (qty : Quantity) (room : Bool) :
    Effect s (.sendReplace id price qty room) (s.sendReplace id price qty room).2 := by
  rcases sendReplace_cases (s := s) id price qty room with ⟨-, huntouched, -⟩
    | ⟨before, order, after, hat, hopen, -, ⟨hrekeys, hsent⟩
      | ⟨-, pendingBefore, pending, pendingAfter, hsplit, hsent⟩⟩
  · exact .idle huntouched.same
  · rw [hsent]
    refine .unreserved hat hopen ?_
    rw [RiskManager.Rekeys, not_and_or, not_and_or] at hrekeys
    push Not at hrekeys
    exact hrekeys
  · rw [hsent]
    exact .replaced hat hopen hsplit

/-! ### Responses -/

variable {before after : List OMOrder} {order : OMOrder} {response : OrderResponse}

theorem effect_onExecuted (hat : s.OrderAt response.clientOrderId before order after)
    (hstatus : response.status = .executed) :
    Effect s (.onOrderResponse response) (s.onExecuted before.length order response).2 := by
  unfold onExecuted
  split
  case isTrue => exact .idle .rfl
  case isFalse hvalid =>
      obtain ⟨hpositive, hopen⟩ := not_or.mp hvalid
      split
      case isTrue => exact .idle .rfl
      case isFalse hqty =>
          split
          case h_1 hrisk =>
              simp only [setOrder, hat.set_orders]
              exact .failed hat hstatus hpositive hopen (Nat.not_lt.mp hqty) hrisk
          case h_2 hrisk =>
              simp only [setOrder, hat.set_orders]
              exact .filled hat hstatus hopen (Nat.not_lt.mp hqty) hrisk

theorem effect_onCanceled (hat : s.OrderAt response.clientOrderId before order after)
    (hstatus : response.status = .canceled) :
    Effect s (.onOrderResponse response) (s.onCanceled before.length order response).2 := by
  unfold onCanceled
  split
  case isTrue => exact .idle .rfl
  case isFalse hvalid =>
      dsimp only
      split
      case h_1 => exact .idle .rfl
      case h_2 risk pnl hrisk =>
          simp only [setOrder, hat.set_orders]
          refine .canceled hat hstatus (not_or.mp hvalid) ?_
          split at hrisk
          case isTrue hzero =>
              obtain ⟨rfl, rfl⟩ := Prod.mk.injEq .. ▸ Option.some.inj hrisk
              rw [if_pos hzero]
              exact ⟨rfl, rfl⟩
          case isFalse hpositive =>
              rw [if_neg hpositive]
              exact hrisk

theorem effect_onOrderResponse (response : OrderResponse) :
    Effect s (.onOrderResponse response) (s.onOrderResponse response).2 := by
  unfold onOrderResponse
  split
  case h_1 index order hfind =>
      obtain ⟨before, after, hat, rfl⟩ := orderAt_of_find hfind
      cases hstatus : response.status with
      | accepted =>
          dsimp only
          split
          case isTrue hnotActive =>
              simp only [setOrder, hat.set_orders]
              exact .noted hat (Or.inl hstatus) rfl rfl (by simp [hnotActive, OMOrderState.Live])
                (by simp [hnotActive, OMOrderState.Finished]) rfl (Or.inr ⟨hnotActive, rfl⟩)
          case isFalse =>
              split
              · exact .idle .rfl
              · exact .idle .rfl
      | executed => exact effect_onExecuted hat hstatus
      | canceled => exact effect_onCanceled hat hstatus
      | cancelRejected =>
          dsimp only
          split
          case isTrue => exact .idle .rfl
          case isFalse =>
              simp only [setOrder, hat.set_orders]
              exact .noted hat (Or.inr hstatus) rfl rfl Iff.rfl Iff.rfl rfl (Or.inl rfl)
      | rejected =>
          dsimp only
          split
          case h_1 => exact .idle .rfl
          case h_2 hrisk =>
              simp only [setOrder, hat.set_orders]
              exact .rejected hat hstatus hrisk
  case h_2 => exact .idle .rfl

/-- **Every operation** has one of the listed effects. -/
theorem effect_step (s : Slot cap) (op : Op) : Effect s op (s.step op) := by
  cases op with
  | sendNewOrder request position room => exact effect_sendNewOrder request position room
  | sendCancel id qty room => exact effect_sendCancel id qty room
  | sendReplace id price qty room => exact effect_sendReplace id price qty room
  | onOrderResponse response => exact effect_onOrderResponse response
  | onMark ticker price =>
      simp only [step, apply]
      split
      case h_1 => exact .idle .rfl
      case h_2 hmark =>
          exact .idle ⟨rfl, rfl, Or.inl rfl, rfl, rfl, PnLTracker.netQty_onMark hmark, rfl⟩
  | disableTrading => exact .idle ⟨rfl, rfl, Or.inl rfl, rfl, rfl, fun _ => rfl, rfl⟩
  | enableTrading => exact .idle ⟨rfl, rfl, Or.inl rfl, rfl, rfl, fun _ => rfl, rfl⟩
  | otherSlot slot => exact .idle ⟨rfl, rfl, Or.inr rfl, rfl, rfl, fun _ => rfl, rfl⟩

theorem Effect.tickers {op : Op} (heffect : Effect s op s') : s'.risk.tickers = s.risk.tickers := by
  have hresponse : ∀ {response : OrderResponse} {risk : RiskManager cap} {pnl : PnLTracker cap},
      s.risk.onOrderResponse response s.pnl = some (risk, pnl) → risk.tickers = s.risk.tickers := by
    intro response risk pnl hrisk
    obtain ⟨-, -, -, -, htickers, -⟩ := RiskManager.onOrderResponse_spec hrisk
    exact htickers
  cases heffect with
  | idle hsame => exact hsame.tickers
  | filled hat hstatus hopen hqty hrisk => exact hresponse hrisk
  | @canceled response before after order risk pnl hat hstatus hopen hrisk =>
      split at hrisk
      · rw [hrisk.1]
      · exact hresponse hrisk
  | rejected hat hstatus hrisk => exact hresponse hrisk
  | _ => rfl

theorem onOrderResponse_shared (s : Slot cap) (response : OrderResponse) :
    (s.onOrderResponse response).2.allocator = s.allocator
      ∧ (s.onOrderResponse response).2.outgoing = s.outgoing := by
  unfold onOrderResponse onExecuted onCanceled
  dsimp only
  repeat' split
  all_goals exact ⟨rfl, rfl⟩

/-- A response either leaves the books alone, and is then refused or silent, or is booked by the risk
manager. -/
theorem onOrderResponse_books (response : OrderResponse) :
    ((s.onOrderResponse response).2.risk = s.risk ∧ (s.onOrderResponse response).2.pnl = s.pnl
        ∧ (s.onOrderResponse response).2.filledQty = s.filledQty
        ∧ ((s.onOrderResponse response).1 = true → response.Silent))
      ∨ ((s.onOrderResponse response).1 = true
        ∧ s.risk.onOrderResponse response s.pnl =
          some ((s.onOrderResponse response).2.risk, (s.onOrderResponse response).2.pnl)
        ∧ (s.onOrderResponse response).2.filledQty = s.filledQty
          + if response.status = .executed then response.executedQty.toUInt64 else 0) := by
  have hrefused : false = true → response.Silent := nofun
  unfold onOrderResponse
  split
  case h_2 => exact Or.inl ⟨rfl, rfl, rfl, hrefused⟩
  case h_1 index order hfind =>
      cases hstatus : response.status with
      | accepted =>
          refine Or.inl ?_
          dsimp only
          split
          · exact ⟨rfl, rfl, rfl, fun _ => Or.inl hstatus⟩
          · split <;> exact ⟨rfl, rfl, rfl, fun _ => Or.inl hstatus⟩
      | cancelRejected =>
          refine Or.inl ?_
          dsimp only
          split <;> exact ⟨rfl, rfl, rfl, fun _ => Or.inr (Or.inl hstatus)⟩
      | executed =>
          dsimp only [onExecuted]
          split
          case isTrue => exact Or.inl ⟨rfl, rfl, rfl, hrefused⟩
          case isFalse =>
              split
              case isTrue => exact Or.inl ⟨rfl, rfl, rfl, hrefused⟩
              case isFalse =>
                  split
                  case h_1 => exact Or.inl ⟨rfl, rfl, rfl, hrefused⟩
                  case h_2 hrisk => exact Or.inr ⟨rfl, hrisk, rfl⟩
      | canceled =>
          dsimp only [onCanceled]
          split
          case isTrue => exact Or.inl ⟨rfl, rfl, rfl, hrefused⟩
          case isFalse =>
              split
              case h_1 => exact Or.inl ⟨rfl, rfl, rfl, hrefused⟩
              case h_2 risk pnl hreleased =>
                  split at hreleased
                  case isTrue hzero =>
                      obtain ⟨rfl, rfl⟩ := Prod.mk.injEq .. ▸ Option.some.inj hreleased
                      exact Or.inl ⟨rfl, rfl, rfl, fun _ => Or.inr (Or.inr ⟨hstatus, hzero⟩)⟩
                  case isFalse => exact Or.inr ⟨rfl, hreleased, by simp [setOrder]⟩
      | rejected =>
          dsimp only
          split
          case h_1 => exact Or.inl ⟨rfl, rfl, rfl, hrefused⟩
          case h_2 hrisk => exact Or.inr ⟨rfl, hrisk, by simp [setOrder]⟩

/-! ### What an operation leaves alone -/

/-- The order that an operation is about. -/
def Op.target : Op → Option OrderId
  | .sendCancel id _ _ => some id
  | .sendReplace id _ _ _ => some id
  | .onOrderResponse response => some response.clientOrderId
  | _ => none

theorem mem_split_of_ne {before after : List OMOrder} {order other : OMOrder}
    (hat : s.OrderAt id before order after) (hmem : other ∈ s.orders) (hne : other.id ≠ id)
    (order' : OMOrder) : other ∈ before ++ order' :: after := by
  rw [hat.split] at hmem
  simp only [List.mem_append, List.mem_cons] at hmem ⊢
  rcases hmem with hbefore | rfl | hafter
  · exact Or.inl hbefore
  · exact absurd hat.found hne
  · exact Or.inr (Or.inr hafter)

theorem OrderAt.mem_of_ne {before after : List OMOrder} {order order' other : OMOrder}
    (hat : s.OrderAt id before order after) (hmem : other ∈ before ++ order' :: after)
    (hne : other ≠ order') : other ∈ s.orders := by
  rw [hat.split]
  simp only [List.mem_append, List.mem_cons] at hmem ⊢
  rcases hmem with hbefore | heq | hafter
  · exact Or.inl hbefore
  · exact absurd heq hne
  · exact Or.inr (Or.inr hafter)

theorem Effect.mem_orders {op : Op} {order : OMOrder} (heffect : Effect s op s')
    (hmem : order ∈ s.orders) (hlive : order.state.Live) (hne : op.target ≠ some order.id) :
    order ∈ s'.orders := by
  have hother : ∀ {id : OrderId}, op.target = some id → order.id ≠ id := fun htarget hid =>
    hne (htarget.trans (congrArg some hid.symm))
  cases heffect with
  | idle hsame =>
      rw [hsame.orders]
      exact hmem
  | submitted hpassed hsplit hevicted =>
      rw [hsplit, List.append_assoc] at hmem
      simp only [List.mem_append, List.mem_cons] at hmem ⊢
      rcases hmem with hbefore | hold | hafter
      · exact Or.inl hbefore
      · exact absurd hlive (hevicted order hold).not_live
      · exact Or.inr (Or.inr hafter)
  | cancelSent hat => exact mem_split_of_ne hat hmem (hother rfl) _
  | unreserved => exact hmem
  | replaced hat => exact mem_split_of_ne hat hmem (hother rfl) _
  | noted hat => exact mem_split_of_ne hat hmem (hother rfl) _
  | filled hat => exact mem_split_of_ne hat hmem (hother rfl) _
  | failed hat => exact mem_split_of_ne hat hmem (hother rfl) _
  | canceled hat => exact mem_split_of_ne hat hmem (hother rfl) _
  | rejected hat => exact mem_split_of_ne hat hmem (hother rfl) _

theorem Effect.mem_pending {op : Op} {pending : PendingOrder} (heffect : Effect s op s')
    (hmem : pending ∈ s.risk.pending) (hne : op.target ≠ some pending.clientOrderId) :
    pending ∈ s'.risk.pending := by
  have hother : ∀ {id : OrderId}, op.target = some id → pending.clientOrderId ≠ id :=
    fun htarget hid => hne (htarget.trans (congrArg some hid.symm))
  cases heffect with
  | idle hsame =>
      rw [hsame.pending]
      exact hmem
  | submitted => exact List.mem_append_left _ hmem
  | cancelSent => exact hmem
  | unreserved => exact hmem
  | replaced hat hopen hsplit =>
      rw [hsplit.split] at hmem
      simp only [List.mem_append, List.mem_cons] at hmem ⊢
      rcases hmem with hbefore | rfl | hafter
      · exact Or.inl hbefore
      · exact absurd hsplit.found (hother rfl)
      · exact Or.inr (Or.inr hafter)
  | noted => exact hmem
  | filled hat hstatus hopen hqty hrisk =>
      exact RiskManager.mem_pending_of_onOrderResponse hrisk hmem (hother rfl)
  | failed => exact hmem
  | canceled hat hstatus hopen hrisk =>
      split at hrisk
      · rw [hrisk.1]
        exact hmem
      · exact RiskManager.mem_pending_of_onOrderResponse hrisk hmem (hother rfl)
  | rejected hat hstatus hrisk =>
      exact RiskManager.mem_pending_of_onOrderResponse hrisk hmem (hother rfl)

theorem Effect.pending_origin_of_response {pending' : PendingOrder}
    (heffect : Effect s (.onOrderResponse response) s') (hmem : pending' ∈ s'.risk.pending) :
    ∃ pending ∈ s.risk.pending, pending.clientOrderId = pending'.clientOrderId
      ∧ pending.tickerId = pending'.tickerId ∧ pending.side = pending'.side := by
  cases heffect with
  | idle hsame =>
      rw [hsame.pending] at hmem
      exact ⟨pending', hmem, rfl, rfl, rfl⟩
  | noted => exact ⟨pending', hmem, rfl, rfl, rfl⟩
  | filled hat hstatus hopen hqty hrisk =>
      exact RiskManager.exists_pending_of_onOrderResponse hrisk hmem
  | failed => exact ⟨pending', hmem, rfl, rfl, rfl⟩
  | canceled hat hstatus hopen hrisk =>
      split at hrisk
      · rw [hrisk.1] at hmem
        exact ⟨pending', hmem, rfl, rfl, rfl⟩
      · exact RiskManager.exists_pending_of_onOrderResponse hrisk hmem
  | rejected hat hstatus hrisk => exact RiskManager.exists_pending_of_onOrderResponse hrisk hmem

/-- Every reservation is an old one, or under the next id, which has then been drawn. -/
theorem Effect.pending_origin {op : Op} {pending' : PendingOrder} (heffect : Effect s op s')
    (hmem : pending' ∈ s'.risk.pending) :
    (pending'.clientOrderId = s.nextId ∧ s'.allocator.counter = s.allocator.counter + 1)
      ∨ ∃ pending ∈ s.risk.pending, pending.clientOrderId = pending'.clientOrderId
        ∧ pending.tickerId = pending'.tickerId ∧ pending.side = pending'.side := by
  have hcases := heffect
  cases hcases with
  | idle hsame =>
      rw [hsame.pending] at hmem
      exact Or.inr ⟨pending', hmem, rfl, rfl, rfl⟩
  | submitted =>
      rcases List.mem_append.mp hmem with hold | hnew
      · exact Or.inr ⟨pending', hold, rfl, rfl, rfl⟩
      · obtain rfl := List.mem_singleton.mp hnew
        exact Or.inl ⟨rfl, rfl⟩
  | cancelSent => exact Or.inr ⟨pending', hmem, rfl, rfl, rfl⟩
  | unreserved => exact Or.inr ⟨pending', hmem, rfl, rfl, rfl⟩
  | replaced hat hopen hsplit =>
      simp only [List.mem_append, List.mem_cons] at hmem
      rcases hmem with hbefore | rfl | hafter
      · exact Or.inr ⟨pending', by simp [hsplit.split, hbefore], rfl, rfl, rfl⟩
      · exact Or.inl ⟨rfl, rfl⟩
      · exact Or.inr ⟨pending', by simp [hsplit.split, hafter], rfl, rfl, rfl⟩
  | _ => exact Or.inr (heffect.pending_origin_of_response hmem)

theorem Effect.outgoing_of_response (heffect : Effect s (.onOrderResponse response) s') :
    s'.outgoing = s.outgoing := by
  cases heffect with
  | idle hsame => exact hsame.outgoing
  | _ => rfl

theorem Effect.netQty_eq {op : Op} (heffect : Effect s op s')
    (hstatus : ∀ response, op = .onOrderResponse response → response.status ≠ .executed)
    (ticker : TickerId) : s'.pnl.netQty ticker = s.pnl.netQty ticker := by
  cases heffect with
  | idle hsame => exact hsame.netQty ticker
  | filled hat hexecuted => exact absurd hexecuted (hstatus _ rfl)
  | canceled hat hcanceled hopen hrisk =>
      split at hrisk
      · rw [hrisk.2]
      · rw [RiskManager.pnl_onOrderResponse hrisk (hstatus _ rfl)]
  | rejected hat hrejected hrisk => rw [RiskManager.pnl_onOrderResponse hrisk (hstatus _ rfl)]
  | _ => rfl

/-! ### Fills -/

/-- An execution that the order, the reservation and the positions take is booked. -/
theorem step_executed {risk : RiskManager cap} {pnl : PnLTracker cap}
    (hat : s.OrderAt response.clientOrderId before order after)
    (hstatus : response.status = .executed) (hpositive : response.executedQty ≠ 0)
    (hopen : ¬ order.state.Finished)
    (hqty : order.filledQty.toNat + response.executedQty.toNat ≤ order.request.qty.toNat)
    (hrisk : s.risk.onOrderResponse response s.pnl = some (risk, pnl)) :
    ∃ order', (s.step (.onOrderResponse response)).orders = before ++ order' :: after
      ∧ order'.request = order.request
      ∧ order'.filledQty = order.filledQty + response.executedQty
      ∧ order'.state = (if order.filledQty + response.executedQty = order.request.qty
        then .completed else .partiallyFilled)
      ∧ (s.step (.onOrderResponse response)).risk = risk
      ∧ (s.step (.onOrderResponse response)).pnl = pnl := by
  have hvalid : ¬ (response.executedQty = 0 ∨ order.state.Finished) := not_or.mpr ⟨hpositive, hopen⟩
  simp only [step, apply, onOrderResponse, hat.find_eq, hstatus, onExecuted, if_neg hvalid,
    if_neg (Nat.not_lt.mpr hqty), hrisk, setOrder, hat.set_orders, and_self, and_true]
  exact ⟨_, rfl, rfl, rfl, rfl⟩

theorem toNat_filledQty_add {order : OMOrder} {qty : Quantity}
    (hqty : order.filledQty.toNat + qty.toNat ≤ order.request.qty.toNat) :
    (order.filledQty + qty).toNat = order.filledQty.toNat + qty.toNat := by
  rw [UInt32.toNat_add, Nat.mod_eq_of_lt (lt_of_le_of_lt hqty order.request.qty.toNat_lt)]

theorem filledQty_add_lt {order : OMOrder} {qty : Quantity}
    (hqty : order.filledQty.toNat + qty.toNat ≤ order.request.qty.toNat)
    (hne : order.filledQty + qty ≠ order.request.qty) :
    order.filledQty.toNat + qty.toNat < order.request.qty.toNat := by
  refine lt_of_le_of_ne hqty ?_
  rw [← toNat_filledQty_add hqty]
  exact fun heq => hne (UInt32.toNat_inj.mp heq)

/-! ### Fresh slots -/

theorem Fresh.netQty (hfresh : s.Fresh) (ticker : TickerId) : s.pnl.netQty ticker = 0 := by
  cases hfind : s.pnl.find ticker with
  | none => simp [PnLTracker.netQty, PnLTracker.get, hfind]
  | some found =>
      obtain ⟨before, after, hsplit, -⟩ := Table.exists_split_of_find hfind
      have hflat : found.2.position = {} := hfresh.flat found.2 (by simp [hsplit])
      simp [PnLTracker.netQty, PnLTracker.get, hfind, hflat]

theorem Fresh.maxAbsPosition_nonneg {ticker : TickerId} {limits : RiskLimits} (hfresh : s.Fresh)
    (hlimits : s.risk.findTicker ticker = some limits) : 0 ≤ limits.maxAbsPosition := by
  obtain ⟨found, hfind, rfl⟩ := Option.map_eq_some_iff.mp hlimits
  obtain ⟨before, after, hsplit, -⟩ := Table.exists_split_of_find hfind
  exact (hfresh.limits found.2 (by simp [hsplit])).1

/-- A slot with one ticker and a position limit of 100. -/
def limitedSlot : Slot ⟨1, 4, 4⟩ where
  risk := { tickers := [⟨7, ⟨100, 1000, 1000000⟩⟩] }
  pnl := { entries := [{ tickerId := 7 }] }

theorem limitedSlot_fresh : limitedSlot.Fresh where
  limits := by decide
  orders := rfl
  pending := rfl
  flat := by decide
  counter := rfl
  outgoing := rfl

/-- A report that an order has executed. -/
def execution (id : OrderId) (qty : Quantity) (price : Price) : OrderResponse :=
  { clientOrderId := id, executedQty := qty, executionPrice := price, status := .executed }

end Slot

end AlphaTrader
