import AlphaTrader.Library.Run
import AlphaTrader.Proof.OrderIds

/-!
# Every order passes the risk check

A new order is sent only after the risk check. A replace is sent without any: it can raise the price
and the quantity, and it is sent while trading is disabled. What the check has established for the
order carries over to a replace that asks for no more than the order did, while trading is enabled and
the position limit has room for the order in full and without it.
-/

namespace AlphaTrader

namespace Slot

variable {cap : Capacity} {s s' : Slot cap} {op : Op} {id : OrderId} {before after : List OMOrder}
  {order order' : OMOrder} {pending : PendingOrder} {request : OrderRequest} {limits : RiskLimits}

/-- The requests that an operation adds to the outgoing queue. -/
def pushed (s : Slot cap) (op : Op) : List OrderRequest :=
  (s.step op).outgoing.drop s.outgoing.length

/-- The limits on one order, whatever else is open. -/
def WithinOrderLimits (limits : RiskLimits) (request : OrderRequest) : Prop :=
  0 ≤ request.price ∧ request.qty ≠ 0 ∧ request.qty ≤ limits.maxOrderQty
    ∧ request.price.toInt * request.qty.toNat ≤ limits.maxOrderNotional

instance : Decidable (WithinOrderLimits limits request) := inferInstanceAs (Decidable (_ ∧ _))

/-- The exposure that is reserved under an id. -/
def reservedExposure (s : Slot cap) (ticker : TickerId) (id : OrderId) : Int :=
  ((s.risk.pending.filter fun pending => pending.clientOrderId = id).map
    (RiskManager.exposureOf ticker)).sum

/-- What has been filled of the order recorded under an id. -/
def filledUnder (s : Slot cap) (id : OrderId) : Nat :=
  (s.find id).elim 0 fun found => found.2.filledQty.toNat

/-- A number of shares signed by a side. -/
def signedShares (side : Side) (shares : Nat) : Int :=
  match side with
  | .buy => shares
  | .sell => -shares

/-- The exposure with a request in place: what is reserved under the id of the order that it creates
or replaces gives way to what the request leaves open. -/
def exposureWith (s : Slot cap) (request : OrderRequest) : Int :=
  s.risk.pendingExposure request.tickerId
    - s.reservedExposure request.tickerId request.clientOrderId
    + signedShares request.side (request.qty.toNat - s.filledUnder request.clientOrderId)

/-- The position limit holds with an exposure. -/
def WithinPositionLimit (s : Slot cap) (limits : RiskLimits) (ticker : TickerId) (exposure : Int) :
    Prop :=
  -limits.maxAbsPosition ≤ s.pnl.netQty ticker + exposure
    ∧ s.pnl.netQty ticker + exposure ≤ limits.maxAbsPosition

instance (ticker : TickerId) (exposure : Int) :
    Decidable (s.WithinPositionLimit limits ticker exposure) := inferInstanceAs (Decidable (_ ∧ _))

/-- All that the risk check stands for. -/
def PassesRisk (s : Slot cap) (request : OrderRequest) : Prop :=
  s.risk.tradingEnabled = true ∧ ∃ limits ∈ s.risk.findTicker request.tickerId,
    WithinOrderLimits limits request
      ∧ s.WithinPositionLimit limits request.tickerId (s.exposureWith request)

instance : Decidable (s.PassesRisk request) := inferInstanceAs (Decidable (_ ∧ _))

/-- Every order that an operation sends passes the risk check in the state in which it is sent. -/
def Gated (s : Slot cap) (op : Op) : Prop :=
  ∀ request ∈ s.pushed op, request.type ≠ .cancel → s.PassesRisk request

instance : Decidable (s.Gated op) := inferInstanceAs (Decidable (∀ _ ∈ _, _))

/-- The exposure in a ticker without what is reserved under an id. -/
def exposureWithout (s : Slot cap) (ticker : TickerId) (id : OrderId) : Int :=
  s.risk.pendingExposure ticker - s.reservedExposure ticker id

/-- A replace of an open order asks for no more than the order did, while trading is enabled and the
position limit has room for the order in full and without it. -/
def Shrinks (s : Slot cap) (order : OMOrder) (price : Price) (qty : Quantity) : Prop :=
  s.risk.tradingEnabled = true ∧ 0 ≤ price ∧ price ≤ order.request.price ∧ qty ≠ 0
    ∧ qty ≤ order.request.qty
    ∧ ∀ limits ∈ s.risk.findTicker order.request.tickerId,
      s.WithinPositionLimit limits order.request.tickerId
          (s.risk.pendingExposure order.request.tickerId)
        ∧ s.WithinPositionLimit limits order.request.tickerId
          (s.exposureWithout order.request.tickerId order.id)

instance (price : Price) (qty : Quantity) : Decidable (s.Shrinks order price qty) :=
  inferInstanceAs (Decidable (_ ∧ _))

/-- New orders are checked with the current position, replaces shrink, and ids are numbered. -/
def Prudent (s : Slot cap) (op : Op) : Prop :=
  s.Numbered op ∧
    match op with
    | .sendNewOrder request position _ => position.netQty = s.pnl.netQty request.tickerId
    | .sendReplace id price qty _ => ∀ found ∈ s.find id, Open found.2 → s.Shrinks found.2 price qty
    | _ => True

instance (s : Slot cap) : (op : Op) → Decidable (s.Prudent op)
  | .sendNewOrder .. => inferInstanceAs (Decidable (_ ∧ _))
  | .sendReplace .. => inferInstanceAs (Decidable (_ ∧ _))
  | .onOrderResponse .. => inferInstanceAs (Decidable (_ ∧ True))
  | .sendCancel .. => inferInstanceAs (Decidable (_ ∧ True))
  | .onMark .. => inferInstanceAs (Decidable (_ ∧ True))
  | .disableTrading => inferInstanceAs (Decidable (_ ∧ True))
  | .enableTrading => inferInstanceAs (Decidable (_ ∧ True))
  | .otherSlot .. => inferInstanceAs (Decidable (_ ∧ True))

theorem WithinOrderLimits.shrink {request' : OrderRequest} (hlimits : WithinOrderLimits limits request)
    (hprice : 0 ≤ request'.price) (hpriceLe : request'.price ≤ request.price)
    (hqty : request'.qty ≠ 0) (hqtyLe : request'.qty ≤ request.qty) :
    WithinOrderLimits limits request' := by
  obtain ⟨-, -, hmax, hnotional⟩ := hlimits
  refine ⟨hprice, hqty, UInt32.le_trans hqtyLe hmax, le_trans ?_ hnotional⟩
  have hprice₀ : 0 ≤ request'.price.toInt := Int32.le_iff_toInt_le.mp hprice
  have hpriceLe' : request'.price.toInt ≤ request.price.toInt := Int32.le_iff_toInt_le.mp hpriceLe
  have hqtyLe' : (request'.qty.toNat : Int) ≤ request.qty.toNat :=
    Int.ofNat_le.mpr (UInt32.le_iff_toNat_le.mp hqtyLe)
  exact mul_le_mul hpriceLe' hqtyLe' (Int.natCast_nonneg _) (le_trans hprice₀ hpriceLe')

/-! ### What holds of live orders -/

/-- The reservation covers what is open of the order. -/
def Covers (pending : PendingOrder) (order : OMOrder) : Prop :=
  pending.clientOrderId = order.id ∧ pending.tickerId = order.request.tickerId
    ∧ pending.side = order.request.side
    ∧ order.request.qty.toNat ≤ order.filledQty.toNat + pending.reservedQty.toNat

/-- Every live order is within the limits on one order and covered by its reservation. -/
structure Vetted (s : Slot cap) : Prop extends s.Keyed where
  limited : ∀ order ∈ s.orders, order.state.Live →
    ∃ limits, s.risk.findTicker order.request.tickerId = some limits
      ∧ WithinOrderLimits limits order.request
  covered : ∀ order ∈ s.orders, order.state.Live → ∃ pending ∈ s.risk.pending, Covers pending order

theorem Fresh.vetted (hfresh : s.Fresh) : s.Vetted where
  toKeyed := hfresh.keyed
  limited := by simp [hfresh.orders]
  covered := by simp [hfresh.orders]

theorem Keyed.id_ne_of_mem_rest (hkeyed : s.Keyed) (hat : s.OrderAt id before order after)
    {other : OMOrder} (hmem : other ∈ before ++ after) : other.id ≠ id := by
  have hnodup := hkeyed.distinct
  rw [hat.split, List.map_append, List.map_cons, List.nodup_middle, List.nodup_cons,
    ← List.map_append, hat.found] at hnodup
  exact fun hid => hnodup.1 (hid ▸ List.mem_map_of_mem hmem)

theorem Vetted.of_write (hvetted : s.Vetted) (hkeyed : s'.Keyed)
    (hat : s.OrderAt id before order after) (horders : s'.orders = before ++ order' :: after)
    (htickers : s'.risk.tickers = s.risk.tickers)
    (hkept : ∀ pending ∈ s.risk.pending, pending.clientOrderId ≠ id → pending ∈ s'.risk.pending)
    (hlimited : order'.state.Live → ∃ limits, s'.risk.findTicker order'.request.tickerId = some limits
      ∧ WithinOrderLimits limits order'.request)
    (hcovered : order'.state.Live → ∃ pending ∈ s'.risk.pending, Covers pending order') :
    s'.Vetted := by
  have hfindTicker : ∀ ticker, s'.risk.findTicker ticker = s.risk.findTicker ticker := by
    intro ticker
    rw [RiskManager.findTicker, htickers, RiskManager.findTicker]
  have hcases : ∀ other ∈ s'.orders, other = order' ∨ other ∈ s.orders ∧ other ∈ before ++ after := by
    intro other hmem
    rw [horders] at hmem
    rw [hat.split]
    simp only [List.mem_append, List.mem_cons] at hmem ⊢
    tauto
  refine ⟨hkeyed, ?_, ?_⟩
  · intro other hmem hlive
    rcases hcases other hmem with rfl | ⟨hold, -⟩
    · exact hlimited hlive
    · rw [hfindTicker]
      exact hvetted.limited other hold hlive
  · intro other hmem hlive
    rcases hcases other hmem with rfl | ⟨hold, hrest⟩
    · exact hcovered hlive
    · obtain ⟨pending, hpending, hcovers⟩ := hvetted.covered other hold hlive
      refine ⟨pending, hkept pending hpending ?_, hcovers⟩
      rw [hcovers.1]
      exact hvetted.id_ne_of_mem_rest hat hrest

theorem Vetted.of_relabel (hvetted : s.Vetted) (hkeyed : s'.Keyed)
    (hat : s.OrderAt id before order after) (horders : s'.orders = before ++ order' :: after)
    (htickers : s'.risk.tickers = s.risk.tickers) (hpending : s'.risk.pending = s.risk.pending)
    (hrequest : order'.request = order.request) (hfilled : order'.filledQty = order.filledQty)
    (hlive : order'.state.Live → order.state.Live) : s'.Vetted := by
  refine hvetted.of_write hkeyed hat horders htickers ?_ ?_ ?_
  · intro pending hmem _
    rw [hpending]
    exact hmem
  · intro hlive'
    rw [RiskManager.findTicker, htickers, hrequest]
    exact hvetted.limited order hat.mem (hlive hlive')
  · intro hlive'
    rw [hpending]
    simp only [Covers, OMOrder.id, hrequest, hfilled]
    exact hvetted.covered order hat.mem (hlive hlive')

theorem Vetted.of_response (hvetted : s.Vetted) (hkeyed : s'.Keyed) {response : OrderResponse}
    {pnl : PnLTracker cap} (hat : s.OrderAt response.clientOrderId before order after)
    (horders : s'.orders = before ++ order' :: after) (htickers : s'.risk.tickers = s.risk.tickers)
    (hrisk : s.risk.onOrderResponse response s.pnl = some (s'.risk, pnl))
    (hfinished : order'.state.Finished) : s'.Vetted :=
  hvetted.of_write hkeyed hat horders htickers
    (fun _ hmem hid => RiskManager.mem_pending_of_onOrderResponse hrisk hmem hid)
    (fun hlive => absurd hlive hfinished.not_live) (fun hlive => absurd hlive hfinished.not_live)

theorem vetted_filled (hvetted : s.Vetted) (hkeyed : s'.Keyed) {response : OrderResponse}
    {pnl : PnLTracker cap} (hat : s.OrderAt response.clientOrderId before order after)
    (hstatus : response.status = .executed) (hopen : ¬ order.state.Finished)
    (hqty : order.filledQty.toNat + response.executedQty.toNat ≤ order.request.qty.toNat)
    (hrisk : s.risk.onOrderResponse response s.pnl = some (s'.risk, pnl))
    (htickers : s'.risk.tickers = s.risk.tickers)
    (horders : s'.orders = before ++ order' :: after) (hrequest : order'.request = order.request)
    (hfilled : order'.filledQty = order.filledQty + response.executedQty)
    (hstate : order'.state = if order.filledQty + response.executedQty = order.request.qty
      then .completed else .partiallyFilled) : s'.Vetted := by
  have hlive := (hvetted.settled order hat.mem).resolve_right hopen
  refine hvetted.of_write hkeyed hat horders htickers
    (fun _ hmem hid => RiskManager.mem_pending_of_onOrderResponse hrisk hmem hid) ?_ ?_
  · intro _
    rw [RiskManager.findTicker, htickers, hrequest]
    exact hvetted.limited order hat.mem hlive
  · intro hlive'
    obtain ⟨covering, hmem, hid, hticker, hside, hle⟩ := hvetted.covered order hat.mem hlive
    obtain ⟨pendingBefore, found, pendingAfter, hsplit, -, -, hmatch⟩ :=
      RiskManager.onOrderResponse_spec hrisk
    obtain rfl : covering = found := by
      apply hvetted.eq_of_clientOrderId_eq hmem (by simp [hsplit.split])
      rw [hid, hsplit.found, hat.found]
    simp only [hstatus] at hmatch
    obtain ⟨-, hreserved, -, hperm⟩ := hmatch
    have hleft : (covering.reservedQty - response.executedQty).toNat =
        covering.reservedQty.toNat - response.executedQty.toNat :=
      UInt32.toNat_sub_of_le _ _ hreserved
    have hne : order.filledQty + response.executedQty ≠ order.request.qty := by
      intro heq
      rw [hstate, if_pos heq] at hlive'
      exact OMOrderState.finished_completed.not_live hlive'
    have hlt := filledQty_add_lt hqty hne
    let left : PendingOrder :=
      { covering with reservedQty := covering.reservedQty - response.executedQty }
    have hremains : RiskManager.remainder covering response.executedQty = [left] := by
      rw [RiskManager.remainder, if_neg]
      intro hzero
      rw [hzero, UInt32.toNat_zero] at hleft
      omega
    refine ⟨left, hperm.symm.subset (by simp [hremains]), ?_, ?_, ?_, ?_⟩
    · rw [OMOrder.id, hrequest]
      exact hid
    · rw [hrequest]
      exact hticker
    · rw [hrequest]
      exact hside
    · rw [hrequest, hfilled, toNat_filledQty_add hqty, hleft]
      omega

/-- **A prudent step** keeps the live orders vetted. -/
theorem vetted_step (hvetted : s.Vetted) (hprudent : s.Prudent op) : (s.step op).Vetted := by
  have heffect := effect_step s op
  have hkeyed := keyed_step hvetted.toKeyed hprudent.1 heffect
  have htickers := heffect.tickers
  have hfindTicker : ∀ ticker, (s.step op).risk.findTicker ticker = s.risk.findTicker ticker := by
    intro ticker
    rw [RiskManager.findTicker, htickers, RiskManager.findTicker]
  generalize s.step op = s' at heffect hkeyed htickers hfindTicker
  cases heffect with
  | idle hsame =>
      refine ⟨hkeyed, ?_, ?_⟩
      · simp only [hsame.orders, hfindTicker]
        exact hvetted.limited
      · rw [hsame.orders, hsame.pending]
        exact hvetted.covered
  | @submitted request position room limits before evicted after hpassed hsplit hevicted =>
      refine ⟨hkeyed, ?_, ?_⟩
      · refine Table.forall_mem_split hsplit hvetted.limited ?_
        intro _
        exact ⟨limits, hpassed.ticker, hpassed.price, hpassed.qty, hpassed.maxQty, hpassed.notional⟩
      · refine Table.forall_mem_split hsplit ?_ ?_
        · intro order hmem hlive
          obtain ⟨pending, hpending, hcovers⟩ := hvetted.covered order hmem hlive
          exact ⟨pending, List.mem_append_left _ hpending, hcovers⟩
        · intro _
          refine ⟨reservation (s.submission request), by simp, rfl, rfl, rfl, ?_⟩
          simp [reservation]
  | cancelSent hat hopen => exact hvetted.of_relabel hkeyed hat rfl htickers rfl rfl rfl id
  | unreserved hat hopen hpending => exact ⟨hkeyed, hvetted.limited, hvetted.covered⟩
  | @replaced id price qty room before after order _ _ found hat hopen hsplit =>
      obtain ⟨henabled, hprice, hpriceLe, hqty, hqtyLe, -⟩ := hprudent.2 _ hat.find_eq hopen
      have hlive := (hvetted.settled order hat.mem).resolve_right hopen.1
      refine hvetted.of_write hkeyed hat rfl htickers ?_ ?_ ?_
      · intro pending hmem hid
        rw [hsplit.split] at hmem
        simp only [List.mem_append, List.mem_cons] at hmem ⊢
        rcases hmem with hbefore | rfl | hafter
        · exact Or.inl hbefore
        · exact absurd hsplit.found hid
        · exact Or.inr (Or.inr hafter)
      · intro _
        obtain ⟨limits, hticker, hlimits⟩ := hvetted.limited order hat.mem hlive
        exact ⟨limits, hticker, hlimits.shrink hprice hpriceLe hqty hqtyLe⟩
      · intro _
        obtain ⟨covering, hmem, hid, hticker, hside, hle⟩ := hvetted.covered order hat.mem hlive
        obtain rfl : covering = found := by
          apply hvetted.eq_of_clientOrderId_eq hmem (by simp [hsplit.split])
          rw [hid, hsplit.found, hat.found]
        refine ⟨{ covering with clientOrderId := s.nextId }, by simp, rfl, hticker, hside, ?_⟩
        exact (UInt32.le_iff_toNat_le.mp hqtyLe).trans hle
  | noted hat hstatus hrequest hfilled hlive hfinished =>
      exact hvetted.of_relabel hkeyed hat rfl htickers rfl hrequest hfilled hlive.mp
  | filled hat hstatus hopen hqty hrisk =>
      exact vetted_filled hvetted hkeyed hat hstatus hopen hqty hrisk htickers rfl rfl rfl rfl
  | failed hat hstatus hpositive hopen hqty hrisk =>
      exact hvetted.of_relabel hkeyed hat rfl htickers rfl rfl rfl
        fun hlive => absurd hlive OMOrderState.finished_dead.not_live
  | @canceled response before after order risk pnl hat hstatus hopen hrisk =>
      have hfinished : (if order.filledQty = order.request.qty then OMOrderState.completed
          else .cancelled).Finished := by
        split
        · exact OMOrderState.finished_completed
        · exact OMOrderState.finished_cancelled
      split at hrisk
      case isTrue =>
          exact hvetted.of_relabel hkeyed hat rfl htickers (by rw [hrisk.1]) rfl rfl
            fun hlive => absurd hlive hfinished.not_live
      case isFalse => exact hvetted.of_response hkeyed hat rfl htickers hrisk hfinished
  | rejected hat hstatus hrisk =>
      exact hvetted.of_response hkeyed hat rfl htickers hrisk OMOrderState.finished_dead

/-! ### What is sent -/

theorem reservedExposure_of_mem (hkeyed : s.Keyed) (hmem : pending ∈ s.risk.pending)
    (ticker : TickerId) :
    s.reservedExposure ticker pending.clientOrderId = RiskManager.exposureOf ticker pending := by
  obtain ⟨pendingBefore, pendingAfter, hsplit⟩ := List.append_of_mem hmem
  have hnodup := hkeyed.pendingDistinct
  rw [hsplit, List.map_append, List.map_cons, List.nodup_middle, List.nodup_cons,
    ← List.map_append] at hnodup
  have hothers : ∀ other ∈ pendingBefore ++ pendingAfter,
      ¬ other.clientOrderId = pending.clientOrderId := fun other hother hid =>
    hnodup.1 (hid ▸ List.mem_map_of_mem hother)
  have hbefore : pendingBefore.filter (fun other => other.clientOrderId = pending.clientOrderId) = [] := by
    rw [List.filter_eq_nil_iff]
    intro other hother
    simpa using hothers other (by simp [hother])
  have hafter : pendingAfter.filter (fun other => other.clientOrderId = pending.clientOrderId) = [] := by
    rw [List.filter_eq_nil_iff]
    intro other hother
    simpa using hothers other (by simp [hother])
  simp [reservedExposure, hsplit, hbefore, hafter]

theorem signedShares_toNat (side : Side) (qty : Quantity) :
    signedShares side qty.toNat = side.signed qty := by
  cases side <;> rfl

/-- The exposure with a new order is what the risk check computes. -/
theorem exposureWith_submission (hkeyed : s.Keyed) (hfits : s.CounterFits) (request : OrderRequest) :
    s.exposureWith (s.submission request) =
      s.risk.pendingExposure request.tickerId + request.side.signed request.qty := by
  have hreserved : s.reservedExposure request.tickerId s.nextId = 0 := by
    have hnone : s.risk.pending.filter (fun pending => pending.clientOrderId = s.nextId) = [] := by
      rw [List.filter_eq_nil_iff]
      intro pending hmem
      simpa using (hkeyed.nextId_free hfits).2 pending hmem
    simp [reservedExposure, hnone]
  have hfilled : s.filledUnder s.nextId = 0 := by
    have hnone : s.find s.nextId = none := by
      rw [find, Table.find_eq_none_iff]
      intro order hmem hid
      exact nextId_not_issued hfits (hid ▸ hkeyed.issued order hmem)
    simp [filledUnder, hnone]
  simp [exposureWith, submission, hreserved, hfilled, signedShares_toNat]

/-- The exposure with a shrinking replace lies between those with the order in full and without it. -/
theorem withinPositionLimit_replace (hvetted : s.Vetted) (hat : s.OrderAt id before order after)
    (hlive : order.state.Live) {price : Price} {qty : Quantity} (hqty : qty ≤ order.request.qty)
    (hfull : s.WithinPositionLimit limits order.request.tickerId
      (s.risk.pendingExposure order.request.tickerId))
    (hwithout : s.WithinPositionLimit limits order.request.tickerId
      (s.exposureWithout order.request.tickerId order.id)) :
    s.WithinPositionLimit limits order.request.tickerId
      (s.exposureWith (s.replaceRequest order price qty)) := by
  obtain ⟨covering, hmem, hid, hticker, hside, hle⟩ := hvetted.covered order hat.mem hlive
  have hreserved : s.reservedExposure order.request.tickerId order.id =
      order.request.side.signed covering.reservedQty := by
    rw [← hid, reservedExposure_of_mem hvetted.toKeyed hmem, RiskManager.exposureOf, if_pos hticker,
      hside]
  have hfilled : s.filledUnder order.id = order.filledQty.toNat := by
    simp [filledUnder, hat.found, hat.find_eq]
  have hopen : qty.toNat - order.filledQty.toNat ≤ covering.reservedQty.toNat := by
    have := UInt32.le_iff_toNat_le.mp hqty
    omega
  simp only [WithinPositionLimit, exposureWithout, exposureWith, replaceRequest, hreserved, hfilled]
    at hfull hwithout ⊢
  cases hs : order.request.side <;> simp only [hs, Side.signed, signedShares] at hfull hwithout ⊢ <;>
    omega

/-- **A prudent step** sends only what passes the risk check. -/
theorem gated_of_prudent (hvetted : s.Vetted) (hprudent : s.Prudent op) : s.Gated op := by
  have heffect := effect_step s op
  have hfits : s.CounterFits ∨ (s.step op).allocator.counter = s.allocator.counter := hprudent.1
  unfold Gated pushed
  generalize s.step op = s' at heffect hfits
  cases heffect with
  | idle hsame => simp [hsame.outgoing]
  | @submitted request position room limits before evicted after hpassed hsplit hevicted =>
      have hposition : position.netQty = s.pnl.netQty request.tickerId := hprudent.2
      have hlower := hpassed.lower
      have hupper := hpassed.upper
      rw [hposition] at hlower hupper
      simp only [List.drop_left', List.mem_singleton, forall_eq]
      intro _
      refine ⟨hpassed.enabled, limits, hpassed.ticker,
        ⟨hpassed.price, hpassed.qty, hpassed.maxQty, hpassed.notional⟩, ?_⟩
      rw [WithinPositionLimit, exposureWith_submission hvetted.toKeyed (counterFits_of_drawn hfits rfl),
        ← add_assoc]
      exact ⟨hlower, hupper⟩
  | cancelSent hat hopen => simp [cancelRequest]
  | unreserved hat hopen hpending =>
      exfalso
      have hlive := (hvetted.settled _ hat.mem).resolve_right hopen.1
      obtain ⟨covering, hmem, hid, -⟩ := hvetted.covered _ hat.mem hlive
      have hfree := hvetted.nextId_free (counterFits_of_drawn hfits rfl)
      rcases hpending with hzero | ⟨taken, htaken, hid'⟩ | hnone
      · exact hfree.1 hzero
      · exact hfree.2 taken htaken hid'
      · exact hnone covering hmem (hid.trans hat.found)
  | @replaced id price qty room before after order _ _ found hat hopen hsplit =>
      obtain ⟨henabled, hprice, hpriceLe, hqty, hqtyLe, hposition⟩ := hprudent.2 _ hat.find_eq hopen
      have hlive := (hvetted.settled order hat.mem).resolve_right hopen.1
      obtain ⟨limits, hticker, hlimits⟩ := hvetted.limited order hat.mem hlive
      obtain ⟨hfull, hwithout⟩ := hposition limits hticker
      simp only [List.drop_left', List.mem_singleton, forall_eq]
      intro _
      exact ⟨henabled, limits, hticker, hlimits.shrink hprice hpriceLe hqty hqtyLe,
        withinPositionLimit_replace hvetted hat hlive hqtyLe hfull hwithout⟩
  | noted hat hstatus hrequest hfilled hlive hfinished => simp
  | filled hat hstatus hopen hqty hrisk => simp
  | failed hat hstatus hpositive hopen hqty hrisk => simp
  | canceled hat hstatus hopen hrisk => simp
  | rejected hat hstatus hrisk => simp

/-- **Every order passes the risk check** when it is sent, in every run of prudent steps. -/
theorem gated_along_of_prudent {ops : List Op} (hfresh : s.Fresh)
    (halong : Run.Along (Run.total step) Prudent s ops) : Run.Along (Run.total step) Gated s ops := by
  refine Run.Along.of_invariant Vetted ?_ (fun s op => gated_of_prudent) hfresh.vetted halong
  intro s op s' hvetted hprudent heq
  obtain rfl := Option.some.inj heq
  exact vetted_step hvetted hprudent

/-- An order is filled in part and replaced by a smaller one. -/
def shrinkingRun : List Op :=
  [ .sendNewOrder { tickerId := 7, side := .buy, price := 10, qty := 100 } {} true,
    .onOrderResponse (execution 1 30 10),
    .sendReplace 1 9 80 true ]

theorem gated_along_of_prudent_shrinkingRun :
    (shrinkingRun.foldl step limitedSlot).outgoing.map (fun request => (request.type, request.qty))
        = [(.new, 100), (.replace, 80)]
      ∧ Run.Along (Run.total step) Gated limitedSlot shrinkingRun :=
  ⟨by decide, gated_along_of_prudent limitedSlot_fresh (by decide)⟩

/-- An order within the limits, and then the kill switch. -/
def disabledRun : List Op :=
  [ .sendNewOrder { tickerId := 7, side := .buy, price := 10, qty := 100 } {} true, .disableTrading ]

/-- **A replace passes no check.** It is sent while trading is disabled, at a negative price and for
more than the limits on the quantity and on the position. -/
theorem sendReplace_ungated :
    let s := disabledRun.foldl step limitedSlot
    limitedSlot.Fresh ∧ s.risk.tradingEnabled = false
      ∧ s.risk.findTicker 7 = some ⟨100, 1000, 1000000⟩
      ∧ s.pushed (.sendReplace 1 (-5) 5000 true) = [⟨.replace, 1, 2, 7, .buy, -5, 5000, false⟩]
      ∧ ¬ s.Gated (.sendReplace 1 (-5) 5000 true) :=
  ⟨limitedSlot_fresh, by decide⟩

end Slot

end AlphaTrader
