import AlphaTrader.Library.Run
import AlphaTrader.Proof.OrderIds

/-!
# Orders and their reservations

The order manager records orders and the risk manager records reservations, each in its own table.
They correspond as long as the events that change one of them change the other by the same amount. A
cancel ends the order but releases only the shares it names, a replace gives the order a new quantity
but keeps the reservation, and an execution that the positions refuse ends the order and keeps the
whole reservation: the condition below rules these out, and nothing else.
-/

namespace AlphaTrader

namespace Slot

open scoped List

variable {cap : Capacity} {s s' : Slot cap} {op : Op} {id : OrderId} {before after : List OMOrder}
  {order order' : OMOrder} {pendingBefore pendingAfter : List PendingOrder} {pending : PendingOrder}

/-- The reservation that a live order calls for. -/
def expected (order : OMOrder) : PendingOrder :=
  ⟨order.id, order.request.tickerId, order.request.side, order.request.qty - order.filledQty⟩

/-- The reservations that the recorded orders call for. -/
def expectedAll (orders : List OMOrder) : List PendingOrder :=
  (orders.filter fun order => order.state.Live).map expected

theorem expectedAll_append (l l' : List OMOrder) :
    expectedAll (l ++ l') = expectedAll l ++ expectedAll l' := by
  simp [expectedAll]

theorem expectedAll_cons_of_live (hlive : order.state.Live) (l : List OMOrder) :
    expectedAll (order :: l) = expected order :: expectedAll l := by
  simp [expectedAll, hlive]

theorem expectedAll_cons_of_not_live (hlive : ¬ order.state.Live) (l : List OMOrder) :
    expectedAll (order :: l) = expectedAll l := by
  simp [expectedAll, hlive]

theorem expectedAll_eq_nil (hfinished : ∀ order ∈ before, order.state.Finished) :
    expectedAll before = [] := by
  induction before with
  | nil => rfl
  | cons order l ih =>
      rw [expectedAll_cons_of_not_live (hfinished order (by simp)).not_live,
        ih fun other hmem => hfinished other (by simp [hmem])]

theorem mem_expectedAll {l : List OMOrder} :
    pending ∈ expectedAll l ↔ ∃ order ∈ l, order.state.Live ∧ expected order = pending := by
  simp [expectedAll, and_assoc]

/-- The reservations are those that the recorded orders call for. -/
structure Matched (s : Slot cap) : Prop extends s.Keyed where
  matched : s.risk.pending.Perm (expectedAll s.orders)
  unfilled : ∀ order ∈ s.orders, order.state.Live → order.filledQty < order.request.qty

theorem Fresh.matched (hfresh : s.Fresh) : s.Matched where
  toKeyed := hfresh.keyed
  matched := by simp [hfresh.pending, hfresh.orders, expectedAll]
  unfilled := by simp [hfresh.orders]

/-- **The reservation found for an order** is the one that the order calls for, and the others are
those that the other orders call for. -/
theorem Matched.split (hmatched : s.Matched) (hat : s.OrderAt id before order after)
    (hsplit : s.risk.SplitAt id pendingBefore pending pendingAfter) :
    order.state.Live ∧ pending = expected order
      ∧ (pendingBefore ++ pendingAfter).Perm (expectedAll before ++ expectedAll after) := by
  have hmem : pending ∈ expectedAll s.orders :=
    hmatched.matched.subset (by simp [hsplit.split])
  obtain ⟨order', hmem', hlive, rfl⟩ := mem_expectedAll.mp hmem
  have hid : order'.id = order.id := hsplit.found.trans hat.found.symm
  obtain rfl := hmatched.eq_of_id_eq hmem' hat.mem hid
  refine ⟨hlive, rfl, ?_⟩
  have hperm : (pendingBefore ++ expected order' :: pendingAfter).Perm
      (expectedAll before ++ expected order' :: expectedAll after) := by
    rw [← hsplit.split, ← expectedAll_cons_of_live hlive, ← expectedAll_append, ← hat.split]
    exact hmatched.matched
  exact ((List.perm_middle.symm.trans hperm).trans List.perm_middle).cons_inv

/-- An order and its reservation are written together. -/
theorem Matched.of_write (hmatched : s.Matched) (hkeyed : s'.Keyed)
    (hat : s.OrderAt id before order after)
    (hsplit : s.risk.SplitAt id pendingBefore pending pendingAfter)
    (horders : s'.orders = before ++ order' :: after) {middle : List PendingOrder}
    (hpending : s'.risk.pending.Perm (pendingBefore ++ middle ++ pendingAfter))
    (hmiddle : middle = expectedAll [order'])
    (hunfilled : order'.state.Live → order'.filledQty < order'.request.qty) : s'.Matched where
  toKeyed := hkeyed
  matched := by
    obtain ⟨-, -, hrest⟩ := hmatched.split hat hsplit
    rw [horders, ← List.singleton_append, expectedAll_append, expectedAll_append, ← hmiddle]
    calc s'.risk.pending
        ~ pendingBefore ++ middle ++ pendingAfter := hpending
      _ ~ middle ++ (pendingBefore ++ pendingAfter) := by
          rw [← List.append_assoc]
          exact List.perm_append_comm.append_right _
      _ ~ middle ++ (expectedAll before ++ expectedAll after) := hrest.append_left _
      _ ~ expectedAll before ++ (middle ++ expectedAll after) := by
          rw [← List.append_assoc, ← List.append_assoc]
          exact List.perm_append_comm.append_right _
  unfilled := by
    rw [horders]
    exact Table.forall_mem_split hat.split_middle hmatched.unfilled hunfilled

theorem Matched.of_relabel (hmatched : s.Matched) (hkeyed : s'.Keyed)
    (hat : s.OrderAt id before order after) (horders : s'.orders = before ++ order' :: after)
    (hpending : s'.risk.pending = s.risk.pending) (hrequest : order'.request = order.request)
    (hfilled : order'.filledQty = order.filledQty)
    (hlive : order'.state.Live ↔ order.state.Live) : s'.Matched where
  toKeyed := hkeyed
  matched := by
    have hexpected : expected order' = expected order := by
      simp only [expected, OMOrder.id, hrequest, hfilled]
    have hall : expectedAll s'.orders = expectedAll s.orders := by
      rw [horders, hat.split, expectedAll_append, expectedAll_append]
      by_cases h : order.state.Live
      · rw [expectedAll_cons_of_live h, expectedAll_cons_of_live (hlive.mpr h), hexpected]
      · rw [expectedAll_cons_of_not_live h, expectedAll_cons_of_not_live (mt hlive.mp h)]
    rw [hpending, hall]
    exact hmatched.matched
  unfilled := by
    rw [horders]
    refine Table.forall_mem_split hat.split_middle hmatched.unfilled ?_
    rw [hrequest, hfilled, hlive]
    exact hmatched.unfilled order hat.mem

/-! ### Steps -/

/-- A response changes the order by as much as the reservation. -/
def ResponseBalanced (s : Slot cap) (order : OMOrder) (response : OrderResponse) : Prop :=
  (response.status = .executed → ¬ order.state.Finished → response.executedQty ≠ 0 →
      order.filledQty.toNat + response.executedQty.toNat ≤ order.request.qty.toNat →
      s.pnl.onExecution order.request.tickerId order.request.side response.executionPrice
        response.executedQty ≠ none)
    ∧ (response.status = .canceled → order.state.Live →
      order.request.qty.toNat ≤ order.filledQty.toNat + response.canceledQty.toNat)

/-- Cancels are for all that is open, replaces keep the quantity, the positions take every execution
of an open order, and ids are numbered. -/
def Balanced (s : Slot cap) (op : Op) : Prop :=
  s.Numbered op ∧
    match op with
    | .sendReplace id _ qty _ =>
        ∀ found ∈ s.find id, Open found.2 → qty = found.2.request.qty
    | .onOrderResponse response =>
        ∀ found ∈ s.find response.clientOrderId, s.ResponseBalanced found.2 response
    | _ => True

theorem Matched.reserved (hmatched : s.Matched) (hat : s.OrderAt id before order after)
    (hopen : ¬ order.state.Finished) : ∃ pending ∈ s.risk.pending, pending.clientOrderId = id := by
  have hlive := (hmatched.settled order hat.mem).resolve_right hopen
  have hmem := mem_expectedAll.mpr ⟨order, hat.mem, hlive, rfl⟩
  exact ⟨expected order, hmatched.matched.symm.subset hmem, hat.found⟩

theorem matched_submitted {request : OrderRequest} {position : Position} {limits : RiskLimits}
    {evicted : List OMOrder} (hmatched : s.Matched) (hkeyed : s'.Keyed)
    (hpassed : s.risk.Passed request position limits)
    (hsplit : s.orders = before ++ evicted ++ after)
    (hevicted : ∀ order ∈ evicted, order.state.Finished)
    (horders : s'.orders = before ++ { request := request, state := .notActive } :: after)
    (hpending : s'.risk.pending = s.risk.pending ++ [reservation request]) : s'.Matched where
  toKeyed := hkeyed
  matched := by
    have hnew : expected { request := request, state := .notActive } = reservation request := by
      simp [expected, reservation, OMOrder.id]
    have hold : expectedAll s.orders = expectedAll before ++ expectedAll after := by
      rw [hsplit, expectedAll_append, expectedAll_append, expectedAll_eq_nil hevicted,
        List.append_nil]
    rw [hpending, horders, expectedAll_append,
      expectedAll_cons_of_live (by exact OMOrderState.live_notActive), hnew]
    calc s.risk.pending ++ [reservation request]
        ~ reservation request :: s.risk.pending := List.perm_append_singleton _ _
      _ ~ reservation request :: (expectedAll before ++ expectedAll after) := by
          rw [← hold]
          exact hmatched.matched.cons _
      _ ~ expectedAll before ++ reservation request :: expectedAll after := List.perm_middle.symm
  unfilled := by
    rw [horders]
    refine Table.forall_mem_split hsplit hmatched.unfilled ?_
    intro _
    exact UInt32.pos_iff_ne_zero.mpr hpassed.qty

variable {response : OrderResponse} {risk : RiskManager cap} {pnl : PnLTracker cap}

theorem matched_filled (hmatched : s.Matched) (hkeyed : s'.Keyed)
    (hat : s.OrderAt response.clientOrderId before order after)
    (hstatus : response.status = .executed)
    (hqty : order.filledQty.toNat + response.executedQty.toNat ≤ order.request.qty.toNat)
    (hrisk : s.risk.onOrderResponse response s.pnl = some (s'.risk, pnl))
    (horders : s'.orders = before ++ order' :: after) (hrequest : order'.request = order.request)
    (hfilled : order'.filledQty = order.filledQty + response.executedQty)
    (hstate : order'.state = if order.filledQty + response.executedQty = order.request.qty
      then .completed else .partiallyFilled) : s'.Matched := by
  obtain ⟨pendingBefore, pending, pendingAfter, hsplit, -, -, hmatch⟩ :=
    RiskManager.onOrderResponse_spec hrisk
  simp only [hstatus] at hmatch
  obtain ⟨-, -, -, hperm⟩ := hmatch
  obtain ⟨-, rfl, -⟩ := hmatched.split hat hsplit
  have hrest : order.request.qty - order.filledQty - response.executedQty =
      order.request.qty - (order.filledQty + response.executedQty) := by grind
  by_cases hdone : order.filledQty + response.executedQty = order.request.qty
  · rw [if_pos hdone] at hstate
    refine hmatched.of_write hkeyed hat hsplit horders hperm ?_ ?_
    · rw [expectedAll_cons_of_not_live (by rw [hstate]; decide), RiskManager.remainder, if_pos]
      · rfl
      · simp only [expected]
        rw [hrest, hdone, UInt32.sub_self]
    · rw [hstate]
      exact fun hlive => absurd hlive (by decide)
  · rw [if_neg hdone] at hstate
    have hlt : order.filledQty + response.executedQty < order.request.qty := by
      rw [UInt32.lt_iff_toNat_lt, toNat_filledQty_add hqty]
      exact filledQty_add_lt hqty hdone
    refine hmatched.of_write hkeyed hat hsplit horders hperm ?_ ?_
    · rw [expectedAll_cons_of_live (by rw [hstate]; decide), RiskManager.remainder, if_neg]
      · simp [expected, expectedAll, OMOrder.id, hrequest, hfilled, hrest]
      · simp only [expected]
        rw [hrest]
        intro hzero
        apply hdone
        grind
    · intro _
      rw [hfilled, hrequest]
      exact hlt

theorem matched_ended (hmatched : s.Matched) (hkeyed : s'.Keyed)
    (hat : s.OrderAt id before order after)
    (hsplit : s.risk.SplitAt id pendingBefore pending pendingAfter)
    (hpending : s'.risk.pending ~ pendingBefore ++ pendingAfter)
    (horders : s'.orders = before ++ order' :: after) (hfinished : order'.state.Finished) :
    s'.Matched := by
  have hnone : s'.risk.pending ~ pendingBefore ++ [] ++ pendingAfter := by
    rw [List.append_nil]
    exact hpending
  refine hmatched.of_write hkeyed hat hsplit horders hnone ?_ ?_
  · rw [expectedAll_cons_of_not_live hfinished.not_live]
    rfl
  · exact fun hlive => absurd hlive hfinished.not_live

theorem remainder_expected_eq_nil {qty : Quantity} (hle : qty ≤ (expected order).reservedQty)
    (hunfilled : order.filledQty < order.request.qty)
    (hall : order.request.qty.toNat ≤ order.filledQty.toNat + qty.toNat) :
    RiskManager.remainder (expected order) qty = [] := by
  have hopen : (order.request.qty - order.filledQty).toNat =
      order.request.qty.toNat - order.filledQty.toNat :=
    UInt32.toNat_sub_of_le _ _ (UInt32.le_of_lt hunfilled)
  rw [UInt32.le_iff_toNat_le] at hle
  simp only [expected] at hle
  have heq : order.request.qty - order.filledQty = qty := by
    apply UInt32.toNat_inj.mp
    omega
  rw [RiskManager.remainder, if_pos]
  simp only [expected]
  rw [heq, UInt32.sub_self]

theorem matched_canceled (hmatched : s.Matched) (hkeyed : s'.Keyed)
    (hat : s.OrderAt response.clientOrderId before order after)
    (hstatus : response.status = .canceled)
    (hbalanced : order.state.Live →
      order.request.qty.toNat ≤ order.filledQty.toNat + response.canceledQty.toNat)
    (hrisk : s.risk.onOrderResponse response s.pnl = some (s'.risk, pnl))
    (horders : s'.orders = before ++ order' :: after) (hfinished : order'.state.Finished) :
    s'.Matched := by
  obtain ⟨pendingBefore, pending, pendingAfter, hsplit, -, -, hmatch⟩ :=
    RiskManager.onOrderResponse_spec hrisk
  simp only [hstatus] at hmatch
  obtain ⟨-, hle, -, hperm⟩ := hmatch
  obtain ⟨hlive, rfl, -⟩ := hmatched.split hat hsplit
  have hnone := remainder_expected_eq_nil hle (hmatched.unfilled order hat.mem hlive)
    (hbalanced hlive)
  rw [hnone, List.append_nil] at hperm
  exact matched_ended hmatched hkeyed hat hsplit hperm horders hfinished

/-- The risk manager takes an execution that the order and the positions take. -/
theorem Matched.onOrderResponse_ne_none (hmatched : s.Matched)
    (hat : s.OrderAt response.clientOrderId before order after)
    (hstatus : response.status = .executed) (hpositive : response.executedQty ≠ 0)
    (hopen : ¬ order.state.Finished)
    (hqty : order.filledQty.toNat + response.executedQty.toNat ≤ order.request.qty.toNat)
    (hpnl : s.pnl.onExecution order.request.tickerId order.request.side response.executionPrice
      response.executedQty ≠ none) : s.risk.onOrderResponse response s.pnl ≠ none := by
  obtain ⟨found, hmem, hid⟩ := hmatched.reserved hat hopen
  cases hfind : s.risk.findPending response.clientOrderId with
  | none => exact absurd hid (Table.find_eq_none_iff.mp hfind found hmem)
  | some result =>
      obtain ⟨index, pending⟩ := result
      obtain ⟨pendingBefore, pendingAfter, hsplit, -, hid', hskipped⟩ :=
        Table.exists_split_of_find hfind
      obtain ⟨hlive, rfl, -⟩ := hmatched.split hat ⟨hsplit, hid', hskipped⟩
      have hunfilled := hmatched.unfilled order hat.mem hlive
      have hle : response.executedQty ≤ (expected order).reservedQty := by
        rw [UInt32.le_iff_toNat_le]
        simp only [expected]
        rw [UInt32.toNat_sub_of_le _ _ (UInt32.le_of_lt hunfilled)]
        omega
      obtain ⟨pnl', hpnl'⟩ := Option.ne_none_iff_exists'.mp hpnl
      rw [RiskManager.onOrderResponse_executed ⟨hsplit, hid', hskipped⟩ hstatus hpositive hle hpnl']
      exact Option.some_ne_none _

/-- **A balanced step** keeps orders and reservations matched. -/
theorem matched_step (hmatched : s.Matched) (hbalanced : s.Balanced op) : (s.step op).Matched := by
  have heffect := effect_step s op
  have hfits : s.CounterFits ∨ (s.step op).allocator.counter = s.allocator.counter := hbalanced.1
  have hkeyed := keyed_step hmatched.toKeyed hfits heffect
  generalize s.step op = s' at heffect hkeyed hfits
  cases heffect with
  | idle hsame =>
      refine ⟨hkeyed, ?_, ?_⟩
      · rw [hsame.pending, hsame.orders]
        exact hmatched.matched
      · rw [hsame.orders]
        exact hmatched.unfilled
  | submitted hpassed hsplit hevicted =>
      exact matched_submitted hmatched hkeyed hpassed hsplit hevicted rfl rfl
  | cancelSent hat hopen => exact hmatched.of_relabel hkeyed hat rfl rfl rfl rfl Iff.rfl
  | unreserved hat hopen hpending =>
      exfalso
      obtain ⟨found, hmem, hid⟩ := hmatched.reserved hat hopen.1
      have hfree := hmatched.nextId_free (counterFits_of_drawn hfits rfl)
      rcases hpending with hzero | ⟨taken, htaken, hid'⟩ | hnone
      · exact hfree.1 hzero
      · exact hfree.2 taken htaken hid'
      · exact hnone found hmem hid
  | @replaced id price qty room before after order _ _ pending hat hopen hpending =>
      obtain ⟨hlive, rfl, -⟩ := hmatched.split hat hpending
      have hqty : qty = order.request.qty := hbalanced.2 _ hat.find_eq hopen
      refine hmatched.of_write hkeyed hat hpending rfl (List.Perm.of_eq (List.append_cons _ _ _)) ?_ ?_
      · rw [expectedAll_cons_of_live (by exact hlive)]
        simp [expected, expectedAll, replacedOrder, replaceRequest, OMOrder.id, hqty]
      · intro _
        simp only [replacedOrder, replaceRequest, hqty]
        exact hmatched.unfilled order hat.mem hlive
  | noted hat hstatus hrequest hfilled hlive hfinished =>
      exact hmatched.of_relabel hkeyed hat rfl rfl hrequest hfilled hlive
  | filled hat hstatus hopen hqty hrisk =>
      exact matched_filled hmatched hkeyed hat hstatus hqty hrisk rfl rfl rfl rfl
  | @failed response before after order hat hstatus hpositive hopen hqty hrisk =>
      have hpnl := (hbalanced.2 _ hat.find_eq).1 hstatus hopen hpositive hqty
      exact absurd hrisk
        (hmatched.onOrderResponse_ne_none hat hstatus hpositive hopen hqty hpnl)
  | @canceled response before after order risk pnl hat hstatus hopen hrisk =>
      have hall : order.state.Live →
          order.request.qty.toNat ≤ order.filledQty.toNat + response.canceledQty.toNat :=
        (hbalanced.2 _ hat.find_eq).2 hstatus
      have hfinished : (if order.filledQty = order.request.qty then OMOrderState.completed
          else .cancelled).Finished := by
        split
        · exact OMOrderState.finished_completed
        · exact OMOrderState.finished_cancelled
      by_cases hzero : response.canceledQty = 0
      · -- A cancel of no shares is balanced only for an order that is already over.
        rw [if_pos hzero] at hrisk
        have hdead : ¬ order.state.Live := by
          intro hlive
          have hunfilled := UInt32.lt_iff_toNat_lt.mp (hmatched.unfilled order hat.mem hlive)
          have hopen := hall hlive
          rw [hzero, UInt32.toNat_zero] at hopen
          omega
        refine hmatched.of_relabel hkeyed hat rfl (by rw [hrisk.1]) rfl rfl ?_
        exact iff_of_false hfinished.not_live hdead
      · rw [if_neg hzero] at hrisk
        exact matched_canceled hmatched hkeyed hat hstatus hall hrisk rfl hfinished
  | @rejected response before after order risk pnl hat hstatus hrisk =>
      obtain ⟨pendingBefore, pending, pendingAfter, hsplit, -, -, hmatch⟩ :=
        RiskManager.onOrderResponse_spec hrisk
      simp only [hstatus] at hmatch
      exact matched_ended hmatched hkeyed hat hsplit hmatch.2 rfl OMOrderState.finished_dead

/-! ### Runs -/

/-- Reservations and live orders are in one-to-one correspondence. -/
structure Corresponds (s : Slot cap) : Prop where
  matched : s.risk.pending ~ expectedAll s.orders
  distinct : (s.risk.pending.map PendingOrder.clientOrderId).Nodup
  positive : ∀ order ∈ s.orders, order.state.Live →
    (expected order).reservedQty.toNat + order.filledQty.toNat = order.request.qty.toNat
      ∧ 0 < (expected order).reservedQty.toNat
  released : ∀ order ∈ s.orders, order.state.Finished →
    ∀ pending ∈ s.risk.pending, pending.clientOrderId ≠ order.id
  counts : s.activeCount = s.risk.pendingCount

theorem Matched.corresponds (hmatched : s.Matched) : s.Corresponds where
  matched := hmatched.matched
  distinct := hmatched.pendingDistinct
  positive := by
    intro order hmem hlive
    have hunfilled := hmatched.unfilled order hmem hlive
    have hlt := UInt32.lt_iff_toNat_lt.mp hunfilled
    simp only [expected]
    rw [UInt32.toNat_sub_of_le _ _ (UInt32.le_of_lt hunfilled)]
    omega
  released := by
    intro order hmem hfinished pending hpending hid
    obtain ⟨order', hmem', hlive, rfl⟩ := mem_expectedAll.mp (hmatched.matched.subset hpending)
    obtain rfl := hmatched.eq_of_id_eq hmem' hmem hid
    exact hfinished.not_live hlive
  counts := by
    rw [RiskManager.pendingCount, hmatched.matched.length_eq, expectedAll, List.length_map,
      activeCount, List.countP_eq_length_filter]

/-- **Reservations and orders correspond** in every run of balanced steps. -/
theorem corresponds_of_balanced {ops : List Op} (hfresh : s.Fresh)
    (halong : Run.Along (Run.total step) Balanced s ops) : (ops.foldl step s).Corresponds := by
  apply Matched.corresponds
  exact Run.invariant_total Matched (fun s op hmatched hbalanced => matched_step hmatched hbalanced)
    hfresh.matched halong

instance (s : Slot cap) (order : OMOrder) (response : OrderResponse) :
    Decidable (s.ResponseBalanced order response) := inferInstanceAs (Decidable (_ ∧ _))

instance (s : Slot cap) : (op : Op) → Decidable (s.Balanced op)
  | .sendReplace .. => inferInstanceAs (Decidable (_ ∧ _))
  | .onOrderResponse .. => inferInstanceAs (Decidable (_ ∧ _))
  | .sendNewOrder .. => inferInstanceAs (Decidable (_ ∧ True))
  | .sendCancel .. => inferInstanceAs (Decidable (_ ∧ True))
  | .onMark .. => inferInstanceAs (Decidable (_ ∧ True))
  | .disableTrading => inferInstanceAs (Decidable (_ ∧ True))
  | .enableTrading => inferInstanceAs (Decidable (_ ∧ True))
  | .otherSlot .. => inferInstanceAs (Decidable (_ ∧ True))

/-- One order is replaced at a new price, filled in part, and cancelled; another one stays. -/
def balancedRun : List Op :=
  [ .sendNewOrder { tickerId := 7, side := .buy, price := 10, qty := 100 } {} true,
    .sendNewOrder { tickerId := 7, side := .sell, price := 12, qty := 50 } {} true,
    .sendReplace 1 11 100 true,
    .onOrderResponse (execution 3 60 11),
    .sendCancel 3 40 true,
    .onOrderResponse { clientOrderId := 3, canceledQty := 40, status := .canceled } ]

theorem corresponds_of_balanced_balancedRun :
    (balancedRun.foldl step limitedSlot).risk.pending = [⟨2, 7, .sell, 50⟩]
      ∧ (balancedRun.foldl step limitedSlot).Corresponds :=
  ⟨by decide, corresponds_of_balanced limitedSlot_fresh (by decide)⟩

/-- An order for 100 of which the exchange cancels 40. -/
def partialCancelRun : List Op :=
  [ .sendNewOrder { tickerId := 7, side := .buy, price := 10, qty := 100 } {} true,
    .sendCancel 1 40 true,
    .onOrderResponse { clientOrderId := 1, canceledQty := 40, status := .canceled } ]

/-- **A partial cancel leaks exposure.** The order is over, and 60 of it stay reserved. -/
theorem partialCancelRun_leaks :
    let s := partialCancelRun.foldl step limitedSlot
    limitedSlot.Fresh ∧ s.orders.map (fun order => (order.id, order.state)) = [(1, .cancelled)]
      ∧ s.risk.pending = [⟨1, 7, .buy, 60⟩] ∧ s.activeCount = 0 ∧ s.risk.pendingCount = 1 :=
  ⟨limitedSlot_fresh, by decide⟩

end Slot

end AlphaTrader
