import AlphaTrader.Library.Run
import AlphaTrader.Proof.SlotSpec

/-!
# The position limit

The risk check adds up the signed exposure of all reservations, so reserved sells make room for more
buys and the other way round. If only one side then fills, the position passes the limit. What has to
stay within the limit is the position after all reservations of one side have filled: executions and
cancels only bring it closer to the position, and a new order moves it by the order's quantity.
-/

namespace AlphaTrader

variable {cap : Capacity}

/-! ### The exposure of one side -/

namespace RiskManager

variable {side : Side} {ticker : TickerId}

/-- What one reservation adds to the exposure of a side. -/
def sideExposureOf (side : Side) (ticker : TickerId) (pending : PendingOrder) : Int :=
  if pending.side = side then exposureOf ticker pending else 0

/-- The exposure in a ticker if all its reservations of one side fill, and none of the other. -/
def sideExposure (side : Side) (ticker : TickerId) (pending : List PendingOrder) : Int :=
  (pending.map (sideExposureOf side ticker)).sum

@[simp]
theorem sideExposure_nil : sideExposure side ticker [] = 0 := rfl

@[simp]
theorem sideExposure_cons (pending : PendingOrder) (l : List PendingOrder) :
    sideExposure side ticker (pending :: l) =
      sideExposureOf side ticker pending + sideExposure side ticker l := by
  simp [sideExposure]

@[simp]
theorem sideExposure_append (l l' : List PendingOrder) :
    sideExposure side ticker (l ++ l') = sideExposure side ticker l + sideExposure side ticker l' := by
  simp [sideExposure]

theorem sideExposure_perm {l l' : List PendingOrder} (hperm : l.Perm l') :
    sideExposure side ticker l = sideExposure side ticker l' :=
  (hperm.map _).sum_eq

theorem sideExposureOf_sign (pending : PendingOrder) :
    0 ≤ sideExposureOf .buy ticker pending ∧ sideExposureOf .sell ticker pending ≤ 0 := by
  unfold sideExposureOf exposureOf Side.signed
  cases pending.side <;> by_cases hticker : pending.tickerId = ticker <;> simp [hticker]

theorem sideExposure_sign (l : List PendingOrder) :
    0 ≤ sideExposure .buy ticker l ∧ sideExposure .sell ticker l ≤ 0 := by
  induction l with
  | nil => simp
  | cons pending l ih =>
      have hone := @sideExposureOf_sign ticker pending
      simp only [sideExposure_cons]
      omega

/-- The signed sum of the risk check nets the two sides. -/
theorem pendingExposure_eq (risk : RiskManager cap) (ticker : TickerId) :
    risk.pendingExposure ticker =
      sideExposure .buy ticker risk.pending + sideExposure .sell ticker risk.pending := by
  unfold pendingExposure
  induction risk.pending with
  | nil => rfl
  | cons pending l ih =>
      rw [List.map_cons, List.sum_cons, ih, sideExposure_cons, sideExposure_cons]
      have hone : exposureOf ticker pending =
          sideExposureOf .buy ticker pending + sideExposureOf .sell ticker pending := by
        cases hside : pending.side <;> simp [sideExposureOf, hside]
      omega

theorem sideExposure_remainder {pending : PendingOrder} {qty : Quantity}
    (hqty : qty ≤ pending.reservedQty) :
    sideExposure side ticker (remainder pending qty) =
      sideExposureOf side ticker pending - sideExposureOf side ticker { pending with reservedQty := qty } := by
  have hsub : (pending.reservedQty - qty).toNat = pending.reservedQty.toNat - qty.toNat :=
    UInt32.toNat_sub_of_le _ _ hqty
  have hle : qty.toNat ≤ pending.reservedQty.toNat := UInt32.le_iff_toNat_le.mp hqty
  unfold remainder
  split
  case isTrue hzero =>
      have heq : pending.reservedQty.toNat = qty.toNat := by
        have := congrArg UInt32.toNat hzero
        simp only [hsub, UInt32.toNat_zero] at this
        omega
      simp [sideExposureOf, exposureOf, Side.signed, heq]
  case isFalse =>
      simp only [sideExposure_cons, sideExposure_nil, sideExposureOf, exposureOf]
      cases pending.side <;> cases side <;> simp [Side.signed, hsub] <;> split <;> omega

end RiskManager

/-! ### Steps -/

namespace Slot

variable {s s' : Slot cap} {op : Op}

/-- The position in a ticker if all its reservations of one side fill, and none of the other. -/
def worst (s : Slot cap) (side : Side) (ticker : TickerId) : Int :=
  s.pnl.netQty ticker + RiskManager.sideExposure side ticker s.risk.pending

theorem netQty_mem_Icc_worst (s : Slot cap) (ticker : TickerId) :
    s.worst .sell ticker ≤ s.pnl.netQty ticker ∧ s.pnl.netQty ticker ≤ s.worst .buy ticker := by
  have hsign := @RiskManager.sideExposure_sign ticker s.risk.pending
  unfold worst
  omega

/-- The limits hold whichever side fills. -/
def WithinLimits (s : Slot cap) : Prop :=
  ∀ ticker limits, s.risk.findTicker ticker = some limits →
    -limits.maxAbsPosition ≤ s.worst .sell ticker ∧ s.worst .buy ticker ≤ limits.maxAbsPosition

/-- A new order is checked with the current position, and either nothing is reserved on the other
side of its ticker, or it leaves the limit intact if all of its own side fills. -/
def HeadroomLeft (s : Slot cap) : Op → Prop
  | .sendNewOrder request position _ =>
      s.pnl.get request.tickerId = some position
        ∧ ∀ limits ∈ s.risk.findTicker request.tickerId,
          (∀ pending ∈ s.risk.pending, pending.tickerId = request.tickerId →
              pending.side = request.side)
            ∨ -limits.maxAbsPosition ≤ s.worst request.side request.tickerId
                  + request.side.signed request.qty
              ∧ s.worst request.side request.tickerId + request.side.signed request.qty
                ≤ limits.maxAbsPosition
  | _ => True

instance : ∀ (s : Slot cap) (op : Op), Decidable (s.HeadroomLeft op)
  | _, .sendNewOrder .. => inferInstanceAs (Decidable (_ ∧ _))
  | _, .sendCancel .. => isTrue trivial
  | _, .sendReplace .. => isTrue trivial
  | _, .onOrderResponse .. => isTrue trivial
  | _, .onMark .. => isTrue trivial
  | _, .disableTrading => isTrue trivial
  | _, .enableTrading => isTrue trivial
  | _, .otherSlot .. => isTrue trivial

/-- **Responses** bring the worst position on either side closer. -/
theorem worst_of_onOrderResponse {response : OrderResponse} {risk : RiskManager cap}
    {pnl : PnLTracker cap} (hrisk : s.risk.onOrderResponse response s.pnl = some (risk, pnl))
    (hs' : s'.risk = risk ∧ s'.pnl = pnl) (ticker : TickerId) :
    s.worst .sell ticker ≤ s'.worst .sell ticker ∧ s'.worst .buy ticker ≤ s.worst .buy ticker := by
  obtain ⟨rfl, rfl⟩ := hs'
  obtain ⟨before, pending, after, hsplit, -, -, hmatch⟩ := RiskManager.onOrderResponse_spec hrisk
  have hsign := @RiskManager.sideExposureOf_sign ticker pending
  have htaken := fun qty => @RiskManager.sideExposureOf_sign ticker { pending with reservedQty := qty }
  cases hstatus : response.status with
  | accepted =>
      simp only [hstatus] at hmatch
      simp only [worst, hmatch, le_refl, and_self]
  | cancelRejected =>
      simp only [hstatus] at hmatch
      simp only [worst, hmatch, le_refl, and_self]
  | executed =>
      simp only [hstatus] at hmatch
      obtain ⟨-, hle, hexec, hperm⟩ := hmatch
      -- The execution moves from the reservation to the position.
      have hmoved : (if ticker = pending.tickerId then pending.side.signed response.executedQty else 0)
          = RiskManager.sideExposureOf .buy ticker
              { pending with reservedQty := response.executedQty }
            + RiskManager.sideExposureOf .sell ticker
              { pending with reservedQty := response.executedQty } := by
        simp only [RiskManager.sideExposureOf, RiskManager.exposureOf, eq_comm (a := ticker)]
        cases pending.side <;> simp
      have hsign' := htaken response.executedQty
      simp only [worst, RiskManager.sideExposure_perm hperm, hsplit.split,
        RiskManager.sideExposure_append, RiskManager.sideExposure_cons,
        RiskManager.sideExposure_remainder hle, PnLTracker.netQty_onExecution hexec, hmoved]
      omega
  | canceled =>
      simp only [hstatus] at hmatch
      obtain ⟨-, hle, hpnl, hperm⟩ := hmatch
      have hsign' := htaken response.canceledQty
      simp only [worst, RiskManager.sideExposure_perm hperm, hsplit.split, hpnl,
        RiskManager.sideExposure_append, RiskManager.sideExposure_cons,
        RiskManager.sideExposure_remainder hle]
      omega
  | rejected =>
      simp only [hstatus] at hmatch
      obtain ⟨hpnl, hperm⟩ := hmatch
      simp only [worst, RiskManager.sideExposure_perm hperm, hsplit.split, hpnl,
        RiskManager.sideExposure_append, RiskManager.sideExposure_cons]
      omega

theorem worst_submitted {request : OrderRequest}
    (hpending : s'.risk.pending = s.risk.pending ++ [reservation request]) (hpnl : s'.pnl = s.pnl)
    (side : Side) (ticker : TickerId) :
    s'.worst side ticker = s.worst side ticker
      + if ticker = request.tickerId ∧ side = request.side then side.signed request.qty else 0 := by
  simp only [worst, hpending, hpnl, RiskManager.sideExposure_append, RiskManager.sideExposure_cons,
    RiskManager.sideExposure_nil, RiskManager.sideExposureOf, RiskManager.exposureOf, reservation]
  by_cases hside : request.side = side
  · by_cases hticker : request.tickerId = ticker
    · simp [hside, hticker, add_assoc]
    · simp [hside, hticker, Ne.symm hticker]
  · simp [hside, Ne.symm hside]

/-- With nothing reserved on the other side, the risk check covers the worst case. -/
theorem pendingExposure_eq_of_oneSided {side : Side} {ticker : TickerId}
    (honeSided : ∀ pending ∈ s.risk.pending, pending.tickerId = ticker → pending.side = side) :
    s.risk.pendingExposure ticker = RiskManager.sideExposure side ticker s.risk.pending := by
  unfold RiskManager.pendingExposure RiskManager.sideExposure
  congr 1
  apply List.map_congr_left
  intro pending hmem
  simp only [RiskManager.sideExposureOf, RiskManager.exposureOf]
  by_cases hticker : pending.tickerId = ticker
  · rw [if_pos (honeSided pending hmem hticker)]
  · simp [hticker]

theorem worst_le_of_headroomLeft {request : OrderRequest} {position : Position} {room : Bool}
    {limits limits' : RiskLimits} (hheadroom : s.HeadroomLeft (.sendNewOrder request position room))
    (hpassed : s.risk.Passed (s.submission request) position limits')
    (hlimits : s.risk.findTicker request.tickerId = some limits) :
    -limits.maxAbsPosition ≤ s.worst request.side request.tickerId + request.side.signed request.qty
      ∧ s.worst request.side request.tickerId + request.side.signed request.qty
        ≤ limits.maxAbsPosition := by
  obtain ⟨hposition, hroom⟩ := hheadroom
  rcases hroom limits hlimits with honeSided | hworst
  · obtain rfl : limits = limits' := Option.some.inj (hlimits.symm.trans hpassed.ticker)
    have hnet : s.pnl.netQty request.tickerId = position.netQty := by
      simp [PnLTracker.netQty, hposition]
    have hlower := hpassed.lower
    have hupper := hpassed.upper
    simp only [submission, pendingExposure_eq_of_oneSided honeSided] at hlower hupper
    simp only [worst, hnet]
    exact ⟨hlower, hupper⟩
  · exact hworst

theorem withinLimits_submitted {request : OrderRequest} {position : Position} {room : Bool}
    {limits : RiskLimits} (hwithin : s.WithinLimits)
    (hheadroom : s.HeadroomLeft (.sendNewOrder request position room))
    (hpassed : s.risk.Passed (s.submission request) position limits)
    (hpending : s'.risk.pending = s.risk.pending ++ [reservation (s.submission request)])
    (hpnl : s'.pnl = s.pnl) (htickers : s'.risk.tickers = s.risk.tickers) : s'.WithinLimits := by
  intro ticker limits hlimits
  rw [RiskManager.findTicker, htickers] at hlimits
  have hold := hwithin ticker limits hlimits
  have hmoved := fun side => worst_submitted hpending hpnl side ticker
  simp only [submission] at hmoved
  by_cases hticker : ticker = request.tickerId
  · subst hticker
    have hworst := worst_le_of_headroomLeft hheadroom hpassed hlimits
    cases hside : request.side with
    | buy =>
        simp only [hside, true_and] at hmoved hworst
        rw [hmoved, hmoved]
        simp only [reduceCtorEq, if_true, if_false]
        omega
    | sell =>
        simp only [hside, true_and] at hmoved hworst
        rw [hmoved, hmoved]
        simp only [reduceCtorEq, if_true, if_false]
        omega
  · simp only [hticker, false_and, if_false, add_zero] at hmoved
    rw [hmoved, hmoved]
    exact hold

theorem WithinLimits.of_worst (hwithin : s.WithinLimits) (htickers : s'.risk.tickers = s.risk.tickers)
    (hworst : ∀ ticker, s.worst .sell ticker ≤ s'.worst .sell ticker
      ∧ s'.worst .buy ticker ≤ s.worst .buy ticker) : s'.WithinLimits := by
  intro ticker limits hlimits
  rw [RiskManager.findTicker, htickers] at hlimits
  have hold := hwithin ticker limits hlimits
  have hnew := hworst ticker
  omega

/-- **A step** whose new orders leave headroom keeps the limits. -/
theorem withinLimits_step (hwithin : s.WithinLimits) (hheadroom : s.HeadroomLeft op) :
    (s.step op).WithinLimits := by
  have heffect := effect_step s op
  have htickers := heffect.tickers
  generalize s.step op = s' at heffect htickers
  cases heffect with
  | idle hsame =>
      refine hwithin.of_worst htickers fun ticker => ?_
      simp only [worst, hsame.pending, hsame.netQty, le_refl, and_self]
  | submitted hpassed hsplit hevicted =>
      exact withinLimits_submitted hwithin hheadroom hpassed rfl rfl htickers
  | cancelSent hat hopen => exact hwithin
  | unreserved hat hopen hpending => exact hwithin
  | replaced hat hopen hpending =>
      refine hwithin.of_worst htickers fun ticker => ?_
      simp only [worst, hpending.split, RiskManager.sideExposure_append,
        RiskManager.sideExposure_cons, RiskManager.sideExposureOf, RiskManager.exposureOf, le_refl,
        and_self]
  | noted hat hstatus hrequest hfilled hlive hfinished => exact hwithin
  | filled hat hstatus hopen hqty hrisk =>
      exact hwithin.of_worst htickers (worst_of_onOrderResponse hrisk ⟨rfl, rfl⟩)
  | failed hat hstatus hpositive hopen hqty hrisk => exact hwithin
  | @canceled response before after order risk pnl hat hstatus hopen hrisk =>
      by_cases hzero : response.canceledQty = 0
      · rw [if_pos hzero] at hrisk
        refine hwithin.of_worst htickers fun ticker => ?_
        simp only [worst, hrisk, le_refl, and_self]
      · rw [if_neg hzero] at hrisk
        exact hwithin.of_worst htickers (worst_of_onOrderResponse hrisk ⟨rfl, rfl⟩)
  | rejected hat hstatus hrisk =>
      exact hwithin.of_worst htickers (worst_of_onOrderResponse hrisk ⟨rfl, rfl⟩)

/-! ### Runs -/

theorem Fresh.withinLimits (hfresh : s.Fresh) : s.WithinLimits := by
  intro ticker limits hlimits
  have hflat : s.pnl.netQty ticker = 0 := hfresh.netQty ticker
  have hmax := hfresh.maxAbsPosition_nonneg hlimits
  simp only [worst, hfresh.pending, hflat, RiskManager.sideExposure_nil]
  omega

/-- **The position limit.** In every run whose new orders leave headroom, whatever the responses are
and in whatever order they come, every position stays within its limit. -/
theorem netQty_within_limit {ops : List Op} {ticker : TickerId} {limits : RiskLimits}
    (hfresh : s.Fresh) (halong : Run.Along (Run.total step) HeadroomLeft s ops)
    (hlimits : s.risk.findTicker ticker = some limits) :
    -limits.maxAbsPosition ≤ (ops.foldl step s).pnl.netQty ticker
      ∧ (ops.foldl step s).pnl.netQty ticker ≤ limits.maxAbsPosition := by
  have hrun : (ops.foldl step s).risk.tickers = s.risk.tickers ∧ (ops.foldl step s).WithinLimits := by
    refine Run.invariant_total (fun s' => s'.risk.tickers = s.risk.tickers ∧ s'.WithinLimits) ?_
      ⟨rfl, hfresh.withinLimits⟩ halong
    intro s' op hinv hheadroom
    exact ⟨(effect_step s' op).tickers.trans hinv.1, withinLimits_step hinv.2 hheadroom⟩
  have hbounds := hrun.2 ticker limits (by rw [RiskManager.findTicker, hrun.1]; exact hlimits)
  have hworst := netQty_mem_Icc_worst (ops.foldl step s) ticker
  omega

/-! ### Orders that cross -/

/-- An order for 100 is bought and partly filled, and the rest of the room is sold. -/
def headroomRun : List Op :=
  [ .sendNewOrder { tickerId := 7, side := .buy, price := 10, qty := 100 } {} true,
    .onOrderResponse (execution 1 60 10),
    .sendNewOrder { tickerId := 7, side := .sell, price := 12, qty := 160 }
      { netQty := 60, avgEntryPrice := 10 } true,
    .onOrderResponse (execution 2 160 12) ]

theorem netQty_within_limit_headroomRun :
    (headroomRun.foldl step limitedSlot).pnl.netQty 7 = -100
      ∧ (-100 ≤ (headroomRun.foldl step limitedSlot).pnl.netQty 7
        ∧ (headroomRun.foldl step limitedSlot).pnl.netQty 7 ≤ 100) :=
  ⟨by decide, netQty_within_limit limitedSlot_fresh (by decide)
    (show limitedSlot.risk.findTicker 7 = some ⟨100, 1000, 1000000⟩ by decide)⟩

/-- A resting buy makes room for a sell of twice the limit. -/
def crossingRun : List Op :=
  [ .sendNewOrder { tickerId := 7, side := .buy, price := 10, qty := 100 } {} true,
    .sendNewOrder { tickerId := 7, side := .sell, price := 12, qty := 200 } {} true ]

/-- **Crossing orders break the limit.** Both orders are sent with the current position, and the
second one then fills. -/
theorem crossingRun_breaks_limit :
    let before := crossingRun.foldl step limitedSlot
    let after := before.step (.onOrderResponse (execution 2 200 12))
    limitedSlot.Fresh ∧ limitedSlot.risk.findTicker 7 = some ⟨100, 1000, 1000000⟩
      ∧ limitedSlot.pnl.get 7 = some {} ∧ before.pnl.get 7 = some {}
      ∧ before.outgoing.map (fun request => (request.side, request.qty)) = [(.buy, 100), (.sell, 200)]
      ∧ after.pnl.netQty 7 = -200 :=
  ⟨limitedSlot_fresh, by decide⟩

end Slot

end AlphaTrader
