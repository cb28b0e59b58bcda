import AlphaTrader.Proof.EngineSlots
import AlphaTrader.Proof.PositionLimit

/-!
# How far a position can go

The risk check nets reservations of the two sides, so a position can pass its limit. It cannot pass it by
more than what can be reserved on the other side when an order is checked: one order of the largest
quantity for each place in the pending table but the one of the order itself. And once the kill switch is
used, no position leaves the window that the reservations of that moment leave open.
-/

namespace AlphaTrader

variable {cap : Capacity}

namespace RiskManager

theorem sideExposure_le {ticker : TickerId} {qty : Nat} {l : List PendingOrder}
    (hqty : ∀ pending ∈ l, pending.tickerId = ticker → pending.reservedQty.toNat ≤ qty) :
    sideExposure .buy ticker l ≤ (l.length * qty : Nat) ∧ -(l.length * qty : Nat) ≤ sideExposure .sell ticker l := by
  induction l with
  | nil => simp
  | cons pending l ih =>
      obtain ⟨hbuy, hsell⟩ := ih fun other hmem => hqty other (List.mem_cons_of_mem _ hmem)
      have hone : sideExposureOf .buy ticker pending ≤ qty ∧ -(qty : Int) ≤ sideExposureOf .sell ticker pending := by
        have hpending := hqty pending List.mem_cons_self
        unfold sideExposureOf exposureOf Side.signed
        cases pending.side <;> by_cases hticker : pending.tickerId = ticker <;> simp [hticker] at hpending ⊢ <;>
          omega
      rw [sideExposure_cons, sideExposure_cons, List.length_cons, Nat.succ_mul]
      push_cast at hbuy hsell ⊢
      omega

end RiskManager

namespace Slot

variable {s s' : Slot cap} {op : Op}

/-! ### What is not a new order narrows -/

/-- Every position keeps to a narrower window, and every reservation is what is left of an earlier one. -/
structure Narrows (s s' : Slot cap) : Prop where
  tickers : s'.risk.tickers = s.risk.tickers
  worst : ∀ ticker, s.worst .sell ticker ≤ s'.worst .sell ticker ∧ s'.worst .buy ticker ≤ s.worst .buy ticker
  reserved : ∀ pending' ∈ s'.risk.pending, ∃ pending ∈ s.risk.pending,
    pending'.tickerId = pending.tickerId ∧ pending'.reservedQty ≤ pending.reservedQty
  count : s'.risk.pending.length ≤ s.risk.pending.length

theorem narrows_of_pending (htickers : s'.risk.tickers = s.risk.tickers)
    (hpending : s'.risk.pending = s.risk.pending) (hnet : ∀ ticker, s'.pnl.netQty ticker = s.pnl.netQty ticker) :
    s.Narrows s' where
  tickers := htickers
  worst ticker := by simp only [worst, hpending, hnet, le_refl, and_self]
  reserved pending hmem := ⟨pending, hpending ▸ hmem, rfl, UInt32.le_refl _⟩
  count := by rw [hpending]

theorem remainder_le {pending pending' : PendingOrder} {qty : Quantity} (hqty : qty ≤ pending.reservedQty)
    (hmem : pending' ∈ RiskManager.remainder pending qty) :
    pending'.tickerId = pending.tickerId ∧ pending'.reservedQty ≤ pending.reservedQty := by
  unfold RiskManager.remainder at hmem
  split at hmem
  · cases hmem
  · rw [List.mem_singleton.mp hmem]
    exact ⟨rfl, UInt32.sub_le hqty⟩

theorem narrows_of_onOrderResponse {response : OrderResponse} {risk : RiskManager cap}
    {pnl : PnLTracker cap} (hrisk : s.risk.onOrderResponse response s.pnl = some (risk, pnl))
    (hs' : s'.risk = risk ∧ s'.pnl = pnl) : s.Narrows s' := by
  have hworst := worst_of_onOrderResponse hrisk hs'
  obtain ⟨rfl, rfl⟩ := hs'
  obtain ⟨before, pending, after, hsplit, htickers, -, hmatch⟩ := RiskManager.onOrderResponse_spec hrisk
  -- What is left of the table is, in some order, the rest of it and what is left of the reservation.
  have hleft : ∀ left : List PendingOrder, left.length ≤ 1 →
      (∀ pending' ∈ left, pending'.tickerId = pending.tickerId ∧ pending'.reservedQty ≤ pending.reservedQty) →
      s'.risk.pending.Perm (before ++ left ++ after) → s.Narrows s' := by
    intro left hlength hleft hperm
    refine ⟨htickers, hworst, fun pending' hmem => ?_, ?_⟩
    · rw [hsplit.split]
      rcases List.mem_append.mp (hperm.mem_iff.mp hmem) with hmem | hmem
      · rcases List.mem_append.mp hmem with hmem | hmem
        · exact ⟨pending', by simp [hmem], rfl, UInt32.le_refl _⟩
        · exact ⟨pending, by simp, hleft pending' hmem⟩
      · exact ⟨pending', by simp [hmem], rfl, UInt32.le_refl _⟩
    · rw [hperm.length_eq, hsplit.split]
      simp only [List.length_append, List.length_cons]
      omega
  have hremainder : ∀ qty, (RiskManager.remainder pending qty).length ≤ 1 := by
    intro qty
    unfold RiskManager.remainder
    split <;> simp
  cases hstatus : response.status with
  | accepted =>
      simp only [hstatus] at hmatch
      exact narrows_of_pending htickers (by rw [hmatch.1]) (fun ticker => by rw [hmatch.2])
  | cancelRejected =>
      simp only [hstatus] at hmatch
      exact narrows_of_pending htickers (by rw [hmatch.1]) (fun ticker => by rw [hmatch.2])
  | executed =>
      simp only [hstatus] at hmatch
      obtain ⟨-, hle, -, hperm⟩ := hmatch
      exact hleft _ (hremainder _) (fun _ => remainder_le hle) hperm
  | canceled =>
      simp only [hstatus] at hmatch
      obtain ⟨-, hle, -, hperm⟩ := hmatch
      exact hleft _ (hremainder _) (fun _ => remainder_le hle) hperm
  | rejected =>
      simp only [hstatus] at hmatch
      obtain ⟨-, hperm⟩ := hmatch
      exact hleft [] (by simp) (by simp) (by simpa using hperm)

/-- **A step** narrows, or it sends a new order that has passed the risk check. -/
theorem Effect.narrows_or_submitted (heffect : Effect s op s') :
    s.Narrows s' ∨ ∃ request position room limits, op = .sendNewOrder request position room
      ∧ s.risk.Passed (s.submission request) position limits
      ∧ s'.risk.pending = s.risk.pending ++ [reservation (s.submission request)] ∧ s'.pnl = s.pnl := by
  have htickers := heffect.tickers
  cases heffect with
  | idle hsame => exact Or.inl (narrows_of_pending htickers hsame.pending hsame.netQty)
  | submitted hpassed hsplit hevicted => exact Or.inr ⟨_, _, _, _, rfl, hpassed, rfl, rfl⟩
  | cancelSent hat hopen => exact Or.inl (narrows_of_pending rfl rfl fun _ => rfl)
  | unreserved hat hopen hpending => exact Or.inl (narrows_of_pending rfl rfl fun _ => rfl)
  | @replaced _ _ _ _ _ _ _ pendingBefore pendingAfter pending hat hopen hpending =>
      refine Or.inl ⟨rfl, fun ticker => ?_, fun pending' hmem => ?_, ?_⟩
      · simp only [worst, hpending.split, RiskManager.sideExposure_append, RiskManager.sideExposure_cons,
          RiskManager.sideExposureOf, RiskManager.exposureOf, le_refl, and_self]
      · rw [hpending.split]
        rcases List.mem_append.mp hmem with hmem | hmem
        · exact ⟨pending', by simp [hmem], rfl, UInt32.le_refl _⟩
        · rcases List.mem_cons.mp hmem with rfl | hmem
          · exact ⟨pending, by simp, rfl, UInt32.le_refl _⟩
          · exact ⟨pending', by simp [hmem], rfl, UInt32.le_refl _⟩
      · rw [hpending.split]
        simp
  | noted hat hstatus hrequest hfilled hlive hfinished => exact Or.inl (narrows_of_pending rfl rfl fun _ => rfl)
  | filled hat hstatus hopen hqty hrisk => exact Or.inl (narrows_of_onOrderResponse hrisk ⟨rfl, rfl⟩)
  | failed hat hstatus hpositive hopen hqty hrisk =>
      exact Or.inl (narrows_of_pending rfl rfl fun _ => rfl)
  | @canceled response before after order risk pnl hat hstatus hopen hrisk =>
      by_cases hzero : response.canceledQty = 0
      · rw [if_pos hzero] at hrisk
        exact Or.inl (narrows_of_pending htickers (by rw [hrisk.1]) (fun _ => by rw [hrisk.2]))
      · rw [if_neg hzero] at hrisk
        exact Or.inl (narrows_of_onOrderResponse hrisk ⟨rfl, rfl⟩)
  | rejected hat hstatus hrisk => exact Or.inl (narrows_of_onOrderResponse hrisk ⟨rfl, rfl⟩)

/-! ### The reach of a position -/

/-- How far from zero a position can get: past its limit by one order of the largest quantity for every
place in the pending table but one. -/
def reach (cap : Capacity) (limits : RiskLimits) : Int :=
  limits.maxAbsPosition + ((cap.maxPendingOrders - 1) * limits.maxOrderQty.toNat : Nat)

structure Confined (s : Slot cap) : Prop where
  count : s.risk.pending.length ≤ cap.maxPendingOrders
  sized : ∀ pending ∈ s.risk.pending, ∀ limits, s.risk.findTicker pending.tickerId = some limits →
    pending.reservedQty ≤ limits.maxOrderQty
  worst : ∀ ticker limits, s.risk.findTicker ticker = some limits →
    -reach cap limits ≤ s.worst .sell ticker ∧ s.worst .buy ticker ≤ reach cap limits

theorem Confined.narrows (hconfined : s.Confined) (hnarrows : s.Narrows s') : s'.Confined := by
  have hlimits : ∀ ticker, s'.risk.findTicker ticker = s.risk.findTicker ticker := fun ticker => by
    rw [RiskManager.findTicker, hnarrows.tickers, RiskManager.findTicker]
  refine ⟨hnarrows.count.trans hconfined.count, fun pending' hmem limits hfind => ?_,
    fun ticker limits hfind => ?_⟩
  · obtain ⟨pending, hold, hticker, hle⟩ := hnarrows.reserved pending' hmem
    rw [hlimits, hticker] at hfind
    exact UInt32.le_trans hle (hconfined.sized pending hold limits hfind)
  · rw [hlimits] at hfind
    have hold := hconfined.worst ticker limits hfind
    have hnew := hnarrows.worst ticker
    omega

/-- An order that passes the check stays within reach of what is reserved on the other side, and that
leaves the order a place in the table. -/
theorem Confined.worst_add_signed (hconfined : s.Confined) {request : OrderRequest} {position : Position}
    {limits : RiskLimits} (hpassed : s.risk.Passed (s.submission request) position limits)
    (hcurrent : s.pnl.get request.tickerId = some position) :
    -reach cap limits ≤ s.worst request.side request.tickerId + request.side.signed request.qty
      ∧ s.worst request.side request.tickerId + request.side.signed request.qty ≤ reach cap limits := by
  have hticker : s.risk.findTicker request.tickerId = some limits := hpassed.ticker
  have hroom : s.risk.pending.length ≤ cap.maxPendingOrders - 1 := by
    have hcount := hconfined.count
    have hroom := hpassed.room
    omega
  have hreserved : s.risk.pending.length * limits.maxOrderQty.toNat ≤
      (cap.maxPendingOrders - 1) * limits.maxOrderQty.toNat := Nat.mul_le_mul_right _ hroom
  have hsized : ∀ pending ∈ s.risk.pending, pending.tickerId = request.tickerId →
      pending.reservedQty.toNat ≤ limits.maxOrderQty.toNat := fun pending hmem hpending =>
    UInt32.le_iff_toNat_le.mp (hconfined.sized pending hmem limits (hpending ▸ hticker))
  obtain ⟨hbuys, hsells⟩ := RiskManager.sideExposure_le hsized
  have hworst : ∀ side, s.worst side request.tickerId =
      position.netQty + RiskManager.sideExposure side request.tickerId s.risk.pending := fun side => by
    rw [Slot.worst, PnLTracker.netQty, hcurrent]
    rfl
  have hold := hconfined.worst request.tickerId limits hticker
  have hsign := @RiskManager.sideExposure_sign request.tickerId s.risk.pending
  have hlower : -limits.maxAbsPosition ≤ position.netQty + s.risk.pendingExposure request.tickerId
      + request.side.signed request.qty := hpassed.lower
  have hupper : position.netQty + s.risk.pendingExposure request.tickerId
      + request.side.signed request.qty ≤ limits.maxAbsPosition := hpassed.upper
  rw [RiskManager.pendingExposure_eq] at hlower hupper
  rw [hworst, hworst] at hold
  rw [hworst]
  unfold reach at hold ⊢
  cases hside : request.side <;> simp only [hside, Side.signed] at hlower hupper ⊢ <;> omega

theorem Confined.submitted (hconfined : s.Confined) {request : OrderRequest} {position : Position}
    {limits : RiskLimits} (hpassed : s.risk.Passed (s.submission request) position limits)
    (hcurrent : s.pnl.get request.tickerId = some position) (htickers : s'.risk.tickers = s.risk.tickers)
    (hpending : s'.risk.pending = s.risk.pending ++ [reservation (s.submission request)])
    (hpnl : s'.pnl = s.pnl) : s'.Confined := by
  have hlimits : ∀ ticker, s'.risk.findTicker ticker = s.risk.findTicker ticker := fun ticker => by
    rw [RiskManager.findTicker, htickers, RiskManager.findTicker]
  have hticker : s.risk.findTicker request.tickerId = some limits := hpassed.ticker
  refine ⟨?_, fun pending hmem limits' hfind => ?_, fun ticker limits' hfind => ?_⟩
  · rw [hpending, List.length_append, List.length_singleton]
    have hcount := hconfined.count
    have hroom := hpassed.room
    omega
  · rw [hlimits] at hfind
    rw [hpending] at hmem
    rcases List.mem_append.mp hmem with hold | hadded
    · exact hconfined.sized pending hold limits' hfind
    · rw [List.mem_singleton.mp hadded] at hfind ⊢
      obtain rfl := Option.some.inj (hticker.symm.trans hfind)
      exact hpassed.maxQty
  · rw [hlimits] at hfind
    have hold := hconfined.worst ticker limits' hfind
    have hmoved : ∀ side, s'.worst side ticker = s.worst side ticker
        + if ticker = request.tickerId ∧ side = request.side then side.signed request.qty else 0 :=
      fun side => worst_submitted hpending hpnl side ticker
    rw [hmoved, hmoved]
    by_cases heq : ticker = request.tickerId
    · subst heq
      obtain rfl := Option.some.inj (hticker.symm.trans hfind)
      have hadded := hconfined.worst_add_signed hpassed hcurrent
      cases hside : request.side <;> simp only [hside] at hadded ⊢ <;>
        simp only [and_true, if_true, reduceCtorEq, and_false, if_false] <;> omega
    · simp only [heq, false_and, if_false]
      omega

theorem confined_step (hconfined : s.Confined) (hcurrent : s.Current op) : (s.step op).Confined := by
  have heffect := effect_step s op
  rcases heffect.narrows_or_submitted with hnarrows | ⟨request, position, room, limits, rfl, hpassed, hpending, hpnl⟩
  · exact hconfined.narrows hnarrows
  · exact hconfined.submitted hpassed hcurrent heffect.tickers hpending hpnl

theorem Fresh.confined (hfresh : s.Fresh) : s.Confined := by
  refine ⟨by simp [hfresh.pending], by simp [hfresh.pending], fun ticker limits hlimits => ?_⟩
  have hmax := hfresh.maxAbsPosition_nonneg hlimits
  simp only [Slot.worst, hfresh.pending, hfresh.netQty, RiskManager.sideExposure_nil, reach]
  omega

/-- Sells rest while buys fill, in turns. -/
def alternatingRun : List Op :=
  let order (side : Side) (net : Int) : Op :=
    .sendNewOrder { tickerId := 7, side := side, price := 10, qty := 10 }
      { netQty := net, avgEntryPrice := if net = 0 then priceInvalid else 10 } true
  [order .buy 0, .onOrderResponse (execution 1 10 10), order .sell 10,
    order .buy 10, .onOrderResponse (execution 3 10 10), order .sell 20,
    order .buy 20, .onOrderResponse (execution 5 10 10), order .sell 30,
    order .buy 30, .onOrderResponse (execution 7 10 10)]

/-- **The reach is reached.** -/
theorem alternatingRun_reaches :
    let s : Slot ⟨1, 4, 4⟩ := { risk := { tickers := [⟨7, ⟨10, 10, 1000⟩⟩] }, pnl := { entries := [{ tickerId := 7 }] } }
    Run.Along (Run.total step) Current s alternatingRun
      ∧ (alternatingRun.foldl step s).pnl.netQty 7 = 40 ∧ reach ⟨1, 4, 4⟩ ⟨10, 10, 1000⟩ = 40 := by
  decide +kernel

/-! ### The kill switch -/

/-- **Without trading** an operation records no new order, and only the switch turns trading on. -/
theorem disabled_step (hoff : s.risk.tradingEnabled = false) (hop : op ≠ .enableTrading) :
    (s.step op).risk.tradingEnabled = false ∧ (s.step op).newOrders = s.newOrders := by
  cases op with
  | sendNewOrder request position room =>
      rcases s.sendNewOrder_cases request position room with ⟨-, huntouched⟩ | ⟨_, _, _, _, hpassed, -⟩
      · change (s.sendNewOrder request position room).2.risk.tradingEnabled = false
          ∧ (s.sendNewOrder request position room).2.newOrders = s.newOrders
        rw [huntouched.rest]
        exact ⟨hoff, rfl⟩
      · rw [hpassed.enabled] at hoff
        cases hoff
  | sendCancel id qty room =>
      simp only [step, apply, sendCancel]
      repeat' split
      all_goals exact ⟨hoff, rfl⟩
  | sendReplace id price qty room =>
      simp only [step, apply, sendReplace]
      repeat' split
      case h_2 hreplaced =>
          obtain ⟨_, _, _, -, rfl⟩ := RiskManager.of_onReplaced_eq_some hreplaced
          exact ⟨hoff, rfl⟩
      all_goals exact ⟨hoff, rfl⟩
  | onOrderResponse response =>
      refine ⟨?_, ?_⟩
      · rcases s.onOrderResponse_books response with ⟨hrisk, -⟩ | ⟨-, hrisk, -⟩
        · exact (congrArg RiskManager.tradingEnabled hrisk).trans hoff
        · obtain ⟨_, _, _, -, -, henabled, -⟩ := RiskManager.onOrderResponse_spec hrisk
          exact henabled.trans hoff
      · simp only [step, apply, onOrderResponse, onExecuted, onCanceled, setOrder]
        repeat' split
        all_goals rfl
  | onMark ticker price =>
      simp only [step, apply]
      split <;> exact ⟨hoff, rfl⟩
  | disableTrading => exact ⟨rfl, rfl⟩
  | enableTrading => exact absurd rfl hop
  | otherSlot slot => exact ⟨hoff, rfl⟩

theorem narrows_step_of_disabled (hoff : s.risk.tradingEnabled = false) (op : Op) :
    s.Narrows (s.step op) := by
  rcases (effect_step s op).narrows_or_submitted with hnarrows | ⟨_, _, _, _, -, hpassed, -, -⟩
  · exact hnarrows
  · rw [hpassed.enabled] at hoff
    cases hoff

/-- What holds of a slot, given how it was when trading was turned off. -/
structure Killed (s s' : Slot cap) : Prop where
  off : s'.risk.tradingEnabled = false
  newOrders : s'.newOrders = s.newOrders
  worst : ∀ ticker, s.worst .sell ticker ≤ s'.worst .sell ticker ∧ s'.worst .buy ticker ≤ s.worst .buy ticker

theorem Killed.step (hkilled : s.Killed s') (hop : op ≠ .enableTrading) : s.Killed (s'.step op) := by
  obtain ⟨hoff, hcount⟩ := disabled_step hkilled.off hop
  refine ⟨hoff, hcount.trans hkilled.newOrders, fun ticker => ?_⟩
  have hnarrows := (narrows_step_of_disabled hkilled.off op).worst ticker
  have hworst := hkilled.worst ticker
  omega

end Slot

/-! ### Engines -/

namespace TradeEngine

open Slot (Current reach)

variable {S F π : Type} [ObjectPool π] [FeatureEngine F] [Strategy S F cap]
  {engine engine' : TradeEngine S F π cap}

/-- **No position runs away.** Whatever strategies send that check their orders with the current
position, and whatever comes back, no position of any slot gets further from zero than its reach. -/
theorem position_within_reach (hacts : Strategy.ActsBy S F cap Current) (strategy : S)
    (slotCount maxSlots requestCapacity : Nat) (preparations : List (Preparation S)) (actions : List Action)
    (hrun : actions.foldlM act (prepared strategy slotCount maxSlots requestCapacity preparations) =
      some engine) (index : Nat) (om : Slot cap) (hom : engine.orders index = some om) (ticker : TickerId)
    (limits : RiskLimits) (hlimits : om.risk.findTicker ticker = some limits) :
    |om.pnl.netQty ticker| ≤ reach cap limits := by
  have hunused : (prepared strategy slotCount maxSlots requestCapacity preparations :
      TradeEngine S F π cap).Unused := unused_prepared ..
  have hswitches : ∀ action ∈ actions, Switches (Current : Slot cap → Slot.Op → Prop) action := by
    intro action _
    cases action <;> first | trivial | exact fun _ _ => trivial
  have hrefines := refines_run admits_current hacts (fun index om hom => (hunused.orders hom).2)
    hswitches hrun
  obtain ⟨om₀, hom₀, hreaches⟩ := hrefines index om hom
  have hconfined : om.Confined := hreaches.invariant Slot.Confined (hunused.orders hom₀).1.confined
    (fun _ _ => Slot.confined_step) fun _ _ hconfined => ⟨hconfined.count, hconfined.sized, hconfined.worst⟩
  have hworst := hconfined.worst ticker limits hlimits
  have hnet := om.netQty_mem_Icc_worst ticker
  rw [abs_le]
  omega

theorem position_within_reach_takerRun :
    ∃ engine om, takerRun.foldlM act (takerPrepared : TradeEngine LiquidityTaker MainFeatures FreeListPool
        ⟨16, 64, 256⟩) = some engine
      ∧ engine.orders 0 = some om ∧ om.pnl.netQty 7 = 10 ∧ |om.pnl.netQty 7| ≤ 730 := by
  have hrun : (takerRun.foldlM act takerPrepared).any (fun engine => (engine.orders 0).any fun om =>
      om.pnl.netQty 7 = 10 && om.risk.findTicker 7 = some ⟨100, 10, 100000000⟩) = true := by
    decide +kernel
  obtain ⟨engine, hrun, hcheck⟩ := (Option.any_eq_true _ _).mp hrun
  obtain ⟨om, hom, hcheck⟩ := (Option.any_eq_true _ _).mp hcheck
  simp only [Bool.and_eq_true, decide_eq_true_eq] at hcheck
  exact ⟨engine, om, hrun, hom, hcheck.1, position_within_reach LiquidityTaker.actsBy_current _ 1 4 16 _
    takerRun hrun 0 om hom 7 _ hcheck.2⟩

/-- **After the kill switch.** As long as trading is not turned on again, and whatever strategies send
and exchanges answer, a slot records no new order, and every position stays in the window that was open
when trading was turned off. -/
theorem killed_slot_confined (hacts : Strategy.ActsBy S F cap fun _ _ => True) (strategy : S)
    (slotCount maxSlots requestCapacity : Nat) (preparations : List (Preparation S))
    (before actions : List Action)
    (hbefore : before.foldlM act (prepared strategy slotCount maxSlots requestCapacity preparations) =
      some engine) (index : Nat) (om : Slot cap) (hom : engine.orders index = some om)
    (hoff : om.risk.tradingEnabled = false) (henable : .enableTrading index ∉ actions)
    (hrun : actions.foldlM act engine = some engine') (om' : Slot cap)
    (hom' : engine'.orders index = some om') :
    om'.risk.tradingEnabled = false ∧ om'.newOrders = om.newOrders
      ∧ ∀ ticker, om.worst .sell ticker ≤ om'.pnl.netQty ticker
        ∧ om'.pnl.netQty ticker ≤ om.worst .buy ticker := by
  let P : Slot cap → Slot.Op → Prop := fun s op => s.slot = index → op ≠ .enableTrading
  have hany : Admits fun (_ : Slot cap) _ => True :=
    ⟨fun _ _ _ _ => trivial, fun _ _ => trivial, fun _ _ _ => trivial, fun _ _ => trivial⟩
  have hadmits : Admits P := by
    refine ⟨fun _ _ _ hP => hP, ?_, ?_, ?_⟩ <;> intros <;> intro _ heq <;> cases heq
  have hunused : (prepared strategy slotCount maxSlots requestCapacity preparations :
      TradeEngine S F π cap).Unused := unused_prepared ..
  have hnumbers : engine.NumbersSlots := by
    refine (refines_run hany hacts (fun index om hom => (hunused.orders hom).2) ?_ hbefore).numbersSlots
      fun index om hom => (hunused.orders hom).2
    intro action _
    cases action <;> first | trivial | exact fun _ _ => trivial
  have hacts' : Strategy.ActsBy S F cap P := hacts.mono fun s op hrequest _ _ heq => by
    rw [heq] at hrequest
    exact hrequest
  have hswitches : ∀ action ∈ actions, Switches P action := by
    intro action hmem
    cases action with
    | enableTrading other =>
        intro s hslot hindex _
        rw [hslot] at hindex
        exact henable (hindex ▸ hmem)
    | disableTrading other => exact fun _ _ _ heq => by cases heq
    | _ => trivial
  obtain ⟨om₁, hom₁, hreaches⟩ := refines_run hadmits hacts' hnumbers hswitches hrun index om' hom'
  obtain rfl := Option.some.inj (hom.symm.trans hom₁)
  have hkilled : om'.slot = index ∧ om.Killed om' := by
    refine hreaches.invariant (fun s => s.slot = index ∧ om.Killed s)
      ⟨hnumbers index om hom, hoff, rfl, fun _ => ⟨le_refl _, le_refl _⟩⟩ ?_ ?_
    · rintro s op ⟨hslot, hkilled⟩ hP
      exact ⟨(s.effect_step op).slot_eq.trans hslot, hkilled.step (hP hslot)⟩
    · rintro s outgoing ⟨hslot, hkilled⟩
      exact ⟨hslot, hkilled.off, hkilled.newOrders, hkilled.worst⟩
  obtain ⟨-, hoff', hcount, hworst⟩ := hkilled
  refine ⟨hoff', hcount, fun ticker => ?_⟩
  have hnet := om'.netQty_mem_Icc_worst ticker
  have hwindow := hworst ticker
  omega

/-- Trading is turned off while an order is on its way; then the order fills, and the signal is still
there. -/
def killedRun : List Action :=
  [.response (Slot.execution 1 10 101), .update { tickerId := 7, orderRef := 3, price := 99, qty := 5 }]

theorem killed_slot_confined_killedRun :
    ∃ engine engine' om om', (takerQuotes ++ [Action.disableTrading 0]).foldlM act (takerPrepared :
        TradeEngine LiquidityTaker MainFeatures FreeListPool ⟨16, 64, 256⟩) = some engine
      ∧ killedRun.foldlM act engine = some engine' ∧ engine.orders 0 = some om
      ∧ engine'.orders 0 = some om' ∧ om'.newOrders = 1 ∧ om'.pnl.netQty 7 = om.worst .buy 7
      ∧ om.worst .sell 7 ≤ om'.pnl.netQty 7 ∧ om'.pnl.netQty 7 ≤ om.worst .buy 7 := by
  have hrun : ((takerQuotes ++ [Action.disableTrading 0]).foldlM act takerPrepared).any (fun engine =>
      (engine.orders 0).any fun om => !om.risk.tradingEnabled && (killedRun.foldlM act engine).any fun engine' =>
        (engine'.orders 0).any fun om' => om'.newOrders = 1 && om'.pnl.netQty 7 = om.worst .buy 7) = true := by
    decide +kernel
  obtain ⟨engine, hbefore, hcheck⟩ := (Option.any_eq_true _ _).mp hrun
  obtain ⟨om, hom, hcheck⟩ := (Option.any_eq_true _ _).mp hcheck
  simp only [Bool.and_eq_true, Bool.not_eq_true'] at hcheck
  obtain ⟨hoff, hcheck⟩ := hcheck
  obtain ⟨engine', hrun, hcheck⟩ := (Option.any_eq_true _ _).mp hcheck
  obtain ⟨om', hom', hcheck⟩ := (Option.any_eq_true _ _).mp hcheck
  simp only [Bool.and_eq_true, decide_eq_true_eq] at hcheck
  have hconfined := killed_slot_confined (LiquidityTaker.actsBy_current.mono fun _ _ _ _ => trivial) _ 1 4 16
    _ _ killedRun hbefore 0 om hom hoff (by simp [killedRun]) hrun om' hom'
  exact ⟨engine, engine', om, om', hbefore, hrun, hom, hom', hcheck.1, hcheck.2, hconfined.2.2 7⟩

end TradeEngine

end AlphaTrader
