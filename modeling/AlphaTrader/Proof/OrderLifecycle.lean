import AlphaTrader.Library.Run
import AlphaTrader.Proof.OrderIds

/-!
# The life of an order

What a failed request leaves behind, how the state of an order goes with its fills, and that a
finished order never comes back. A replace breaks the first two: it is sent before the reservation is
re-keyed, and it takes any quantity, also one that is filled already.
-/

namespace AlphaTrader

/-- How the state of an order goes with its fills. -/
structure OMOrder.Coherent (order : OMOrder) : Prop where
  bounded : order.filledQty ≤ order.request.qty
  unfilled : order.state = .notActive ∨ order.state = .active → order.filledQty = 0
  partly : order.state = .partiallyFilled → 0 < order.filledQty ∧ order.filledQty < order.request.qty
  completed : order.state = .completed ↔ order.state ≠ .dead ∧ order.filledQty = order.request.qty
  cancelled : order.state = .cancelled → order.filledQty < order.request.qty
  live : order.state.Live → order.filledQty < order.request.qty

theorem OMOrder.Coherent.congr {order order' : OMOrder} (hcoherent : order.Coherent)
    (hrequest : order'.request = order.request) (hfilled : order'.filledQty = order.filledQty)
    (hstate : order'.state = order.state) : order'.Coherent := by
  obtain ⟨hbounded, hunfilled, hpartly, hcompleted, hcancelled, hlive⟩ := hcoherent
  constructor <;> rw [hfilled] <;> simpa only [hrequest, hstate]

namespace Slot

variable {cap : Capacity} {s s' : Slot cap} {op : Op} {id : OrderId}

/-! ### Failed requests -/

theorem untouched_sendCancel {qty : Quantity} {room : Bool}
    (hfailed : (s.sendCancel id qty room).1 = false) : s.Untouched (s.sendCancel id qty room).2 := by
  revert hfailed
  unfold sendCancel
  repeat' split
  case isFalse => nofun
  all_goals exact fun _ => ⟨rfl, Or.inl rfl⟩

theorem untouched_sendReplace_iff {price : Price} {qty : Quantity} {room : Bool} :
    ((s.sendReplace id price qty room).1 = false → s.Untouched (s.sendReplace id price qty room).2)
      ↔ ∀ found ∈ s.find id, Open found.2 → room = true → s.risk.Rekeys id s.nextId := by
  rcases sendReplace_cases (s := s) id price qty room with ⟨-, huntouched, hrefused⟩
    | ⟨before, order, after, hat, hopen, rfl, ⟨hrekeys, hsent⟩ | ⟨hrekeys, _, _, _, -, hsent⟩⟩
  · refine ⟨fun _ found hfind hopen hroom => ?_, fun _ _ => huntouched⟩
    cases hroom.symm.trans (hrefused found.1 found.2 hfind hopen)
  · refine ⟨fun hno => ?_, fun hall => absurd (hall _ hat.find_eq hopen rfl) hrekeys⟩
    rw [hsent] at hno
    have hlength := congrArg (fun s => s.outgoing.length) (hno rfl).rest
    simp at hlength
  · rw [hsent]
    exact ⟨fun _ _ _ _ _ => hrekeys, fun _ => nofun⟩

/-- **A failed request** leaves nothing behind but the next id and the count of refusals, unless it is
a replace of an open order whose reservation cannot be re-keyed. -/
theorem failed_request_untouched (s : Slot cap) :
    (∀ request position room, (s.sendNewOrder request position room).1 = false →
        s.Untouched (s.sendNewOrder request position room).2)
      ∧ (∀ id qty room, (s.sendCancel id qty room).1 = false →
        s.Untouched (s.sendCancel id qty room).2)
      ∧ ∀ id price qty room,
        ((s.sendReplace id price qty room).1 = false → s.Untouched (s.sendReplace id price qty room).2)
          ↔ ∀ found ∈ s.find id, Open found.2 → room = true → s.risk.Rekeys id s.nextId := by
  refine ⟨fun request position room hfailed => ?_, fun _ _ _ => untouched_sendCancel,
    fun _ _ _ _ => untouched_sendReplace_iff⟩
  rcases sendNewOrder_cases (s := s) request position room with
    ⟨-, huntouched⟩ | ⟨_, _, _, _, -, -, -, hsent⟩
  · exact huntouched
  · simp [hsent] at hfailed

/-- An order for 10 is replaced by one for 20, under the reservation of 10, and fills 10. -/
def exhaustedRun : List Op :=
  [ .sendNewOrder { tickerId := 7, side := .buy, price := 10, qty := 10 } {} true,
    .sendReplace 1 10 20 true,
    .onOrderResponse (execution 2 10 10) ]

/-- **A failed replace is sent.** -/
theorem exhaustedRun_sends :
    let s := exhaustedRun.foldl step limitedSlot
    limitedSlot.Fresh ∧ (s.sendReplace 2 11 20 true).1 = false
      ∧ (s.sendReplace 2 11 20 true).2.outgoing =
        s.outgoing ++ [⟨.replace, 2, 3, 7, .buy, 11, 20, false⟩] :=
  ⟨limitedSlot_fresh, by decide⟩

/-! ### State and fills -/

variable {order : OMOrder} {response : OrderResponse}

theorem coherent_submission {request : OrderRequest} {position : Position} {limits : RiskLimits}
    (hpassed : s.risk.Passed (s.submission request) position limits) :
    OMOrder.Coherent { request := s.submission request, state := .notActive } := by
  have hlt : 0 < (s.submission request).qty := UInt32.pos_iff_ne_zero.mpr hpassed.qty
  exact
    { bounded := UInt32.le_of_lt hlt
      unfilled := fun _ => rfl
      partly := nofun
      completed := ⟨nofun, fun hdone => absurd hdone.2.symm hpassed.qty⟩
      cancelled := nofun
      live := fun _ => hlt }

/-- A replaced order has its new quantity for what is filled already. -/
theorem coherent_replacedOrder_iff {price : Price} {qty : Quantity} (hcoherent : order.Coherent)
    (hopen : ¬ order.state.Finished) :
    (s.replacedOrder order price qty).Coherent ↔ order.filledQty < qty := by
  obtain ⟨hcompleted, hcancelled, hdead⟩ : order.state ≠ .completed ∧ order.state ≠ .cancelled
      ∧ order.state ≠ .dead := by
    simpa [OMOrderState.Finished, not_or] using hopen
  constructor
  · intro hreplaced
    refine UInt32.lt_of_le_of_ne hreplaced.bounded fun heq => ?_
    exact hcompleted (hreplaced.completed.mpr ⟨hdead, heq⟩)
  · intro hlt
    exact
      { bounded := UInt32.le_of_lt hlt
        unfilled := hcoherent.unfilled
        partly := fun hpartly => ⟨(hcoherent.partly hpartly).1, hlt⟩
        completed := ⟨fun heq => absurd heq hcompleted, fun hdone => absurd hdone.2 (UInt32.ne_of_lt hlt)⟩
        cancelled := fun heq => absurd heq hcancelled
        live := fun _ => hlt }

theorem coherent_dead (hcoherent : order.Coherent) :
    OMOrder.Coherent { order with state := .dead } where
  bounded := hcoherent.bounded
  unfilled := by simp
  partly := nofun
  completed := by simp
  cancelled := nofun
  live := by simp [OMOrderState.Live]

theorem coherent_canceled (hcoherent : order.Coherent) :
    OMOrder.Coherent { order with
      isCancelRequested := false
      state := if order.filledQty = order.request.qty then .completed else .cancelled } := by
  split
  case isTrue heq =>
      exact
        { bounded := hcoherent.bounded
          unfilled := by simp
          partly := by simp
          completed := by simpa using heq
          cancelled := by simp
          live := by simp [OMOrderState.Live] }
  case isFalse hne =>
      exact
        { bounded := hcoherent.bounded
          unfilled := by simp
          partly := by simp
          completed := by simpa using hne
          cancelled := fun _ => UInt32.lt_of_le_of_ne hcoherent.bounded hne
          live := by simp [OMOrderState.Live] }

theorem coherent_filled {price : Price} (hpositive : response.executedQty ≠ 0)
    (hqty : order.filledQty.toNat + response.executedQty.toNat ≤ order.request.qty.toNat) :
    OMOrder.Coherent { order with
      filledQty := order.filledQty + response.executedQty
      avgFillPrice := price
      state := if order.filledQty + response.executedQty = order.request.qty
        then .completed else .partiallyFilled } := by
  have hfilled := toNat_filledQty_add hqty
  have hle : order.filledQty + response.executedQty ≤ order.request.qty := by
    rw [UInt32.le_iff_toNat_le, hfilled]
    exact hqty
  split
  case isTrue heq =>
      exact
        { bounded := hle
          unfilled := by simp
          partly := by simp
          completed := by simpa using heq
          cancelled := by simp
          live := by simp [OMOrderState.Live] }
  case isFalse hne =>
      have hlt : order.filledQty + response.executedQty < order.request.qty :=
        UInt32.lt_of_le_of_ne hle hne
      have hpos : 0 < order.filledQty + response.executedQty := by
        have hexecuted := UInt32.lt_iff_toNat_lt.mp (UInt32.pos_iff_ne_zero.mpr hpositive)
        rw [UInt32.toNat_zero] at hexecuted
        rw [UInt32.lt_iff_toNat_lt, hfilled, UInt32.toNat_zero]
        omega
      exact
        { bounded := hle
          unfilled := by simp
          partly := fun _ => ⟨hpos, hlt⟩
          completed := by simpa using hne
          cancelled := by simp
          live := fun _ => hlt }

/-- The lifecycle of the recorded orders. -/
def Lifecycle (s : Slot cap) : Prop := ∀ order ∈ s.orders, order.Coherent

/-- A replace that is sent and recorded asks for more than is filled already. -/
def LeavesRoom (s : Slot cap) : Op → Prop
  | .sendReplace id _ qty room => ∀ found ∈ s.find id, Open found.2 → room = true →
      s.risk.Rekeys id s.nextId → found.2.filledQty < qty
  | _ => True

instance (s : Slot cap) : (op : Op) → Decidable (s.LeavesRoom op)
  | .sendReplace .. => inferInstanceAs (Decidable (∀ _ ∈ _, _))
  | .onOrderResponse .. => isTrue trivial
  | .sendNewOrder .. => isTrue trivial
  | .sendCancel .. => isTrue trivial
  | .onMark .. => isTrue trivial
  | .disableTrading => isTrue trivial
  | .enableTrading => isTrue trivial
  | .otherSlot .. => isTrue trivial

theorem lifecycle_of_effect (hlife : s.Lifecycle) (heffect : Effect s op s')
    (hreplace : ∀ id price qty room, op ≠ .sendReplace id price qty room) : s'.Lifecycle := by
  cases heffect with
  | idle hsame =>
      rw [Lifecycle, hsame.orders]
      exact hlife
  | submitted hpassed hsplit hevicted =>
      exact Table.forall_mem_split hsplit hlife (coherent_submission hpassed)
  | cancelSent hat hopen =>
      exact Table.forall_mem_split hat.split_middle hlife ((hlife _ hat.mem).congr rfl rfl rfl)
  | unreserved => exact absurd rfl (hreplace _ _ _ _)
  | replaced => exact absurd rfl (hreplace _ _ _ _)
  | noted hat hstatus hrequest hfilled hlive hfinished hprice hstate =>
      refine Table.forall_mem_split hat.split_middle hlife ?_
      have hcoherent := hlife _ hat.mem
      rcases hstate with hstate | ⟨hnotActive, hactive⟩
      · exact hcoherent.congr hrequest hfilled hstate
      · have hzero := hcoherent.unfilled (Or.inl hnotActive)
        have hlt := hcoherent.live (by simp [hnotActive])
        rw [← hfilled, ← hrequest] at hlt
        exact
          { bounded := UInt32.le_of_lt hlt
            unfilled := fun _ => hfilled.trans hzero
            partly := by simp [hactive]
            completed := by simpa [hactive] using UInt32.ne_of_lt hlt
            cancelled := by simp [hactive]
            live := fun _ => hlt }
  | filled hat hstatus hopen hqty hrisk =>
      refine Table.forall_mem_split hat.split_middle hlife (coherent_filled ?_ hqty)
      obtain ⟨_, _, _, _, _, _, hmatch⟩ := RiskManager.onOrderResponse_spec hrisk
      simp only [hstatus] at hmatch
      exact hmatch.1
  | failed hat =>
      exact Table.forall_mem_split hat.split_middle hlife (coherent_dead (hlife _ hat.mem))
  | canceled hat =>
      exact Table.forall_mem_split hat.split_middle hlife (coherent_canceled (hlife _ hat.mem))
  | rejected hat =>
      exact Table.forall_mem_split hat.split_middle hlife (coherent_dead (hlife _ hat.mem))

/-- **A step** keeps the lifecycle exactly if a replace leaves room. -/
theorem lifecycle_step_iff (hlife : s.Lifecycle) : (s.step op).Lifecycle ↔ s.LeavesRoom op := by
  cases op with
  | sendReplace id price qty room =>
      change (s.sendReplace id price qty room).2.Lifecycle ↔ _
      rcases sendReplace_cases (s := s) id price qty room with ⟨-, huntouched, hrefused⟩
        | ⟨before, order, after, hat, hopen, rfl, ⟨hrekeys, hsent⟩ | ⟨hrekeys, _, _, _, -, hsent⟩⟩
      · refine iff_of_true ?_ fun found hfind hopen hroom => ?_
        · rw [Lifecycle, huntouched.same.orders]
          exact hlife
        · cases hroom.symm.trans (hrefused found.1 found.2 hfind hopen)
      · rw [hsent]
        exact iff_of_true hlife fun _ _ _ _ hkeys => absurd hkeys hrekeys
      · have hreplaced : (s.replacedOrder order price qty).Coherent ↔ order.filledQty < qty :=
          coherent_replacedOrder_iff (hlife order hat.mem) hopen.1
        rw [hsent]
        constructor
        · intro hafter found hfind _ _ _
          obtain rfl := Option.some.inj (hat.find_eq.symm.trans hfind)
          exact hreplaced.mp (hafter _ (by simp))
        · intro hroom
          have hlt := hroom _ hat.find_eq hopen rfl hrekeys
          exact Table.forall_mem_split hat.split_middle hlife (hreplaced.mpr hlt)
  | _ =>
      refine iff_of_true (lifecycle_of_effect hlife (effect_step s _) ?_) trivial
      simp

/-- **The lifecycle of orders** holds in every state of a run from a slot without orders exactly if
every replace that is recorded leaves room. -/
theorem lifecycle_run_iff {ops : List Op} (hempty : s.orders = []) :
    (∀ ops', ops' <+: ops → (ops'.foldl step s).Lifecycle)
      ↔ Run.Along (Run.total step) LeavesRoom s ops := by
  have hlife : s.Lifecycle := by
    simp [Lifecycle, hempty]
  exact Run.invariant_total_iff Lifecycle (fun s op hlife => lifecycle_step_iff hlife) hlife

/-- An order for 10 fills 5, is replaced by one for 8 and fills the rest. -/
def resizedRun : List Op :=
  [ .sendNewOrder { tickerId := 7, side := .buy, price := 10, qty := 10 } {} true,
    .onOrderResponse (execution 1 5 10),
    .sendReplace 1 10 8 true,
    .onOrderResponse (execution 2 3 10) ]

theorem lifecycle_run_iff_resizedRun :
    (resizedRun.foldl step limitedSlot).orders.map OMOrder.state = [.completed]
      ∧ ∀ ops', ops' <+: resizedRun → (ops'.foldl step limitedSlot).Lifecycle :=
  ⟨by decide, (lifecycle_run_iff rfl).mpr (by decide)⟩

/-- An order for 10 fills 5 and is replaced by one for 3. -/
def shrunkRun : List Op :=
  [ .sendNewOrder { tickerId := 7, side := .buy, price := 10, qty := 10 } {} true,
    .onOrderResponse (execution 1 5 10),
    .sendReplace 1 10 3 true ]

/-- **A replace overfills an order**, which stays live for ever. -/
theorem shrunkRun_overfilled :
    let s := shrunkRun.foldl step limitedSlot
    limitedSlot.Fresh ∧ s.orders.map (fun order => (order.id, order.state)) = [(2, .partiallyFilled)]
      ∧ (∃ order ∈ s.orders, order.request.qty = 3 ∧ order.filledQty = 5) ∧ ¬ s.Lifecycle := by
  refine ⟨limitedSlot_fresh, by decide, by decide, fun hlife => ?_⟩
  have hbounded : ∀ order ∈ (shrunkRun.foldl step limitedSlot).orders,
      order.filledQty ≤ order.request.qty := fun order hmem => (hlife order hmem).bounded
  revert hbounded
  decide

/-! ### Finished orders -/

/-- An id that has been issued, and under which no order is open any more. -/
structure Retired (s : Slot cap) (id : OrderId) : Prop where
  issued : s.Issued id
  finished : ∀ order ∈ s.orders, order.id = id → order.state.Finished

/-- What an order under a retired id was before. -/
structure Remains (s : Slot cap) (order' : OMOrder) : Prop where
  finished : order'.state.Finished
  origin : ∃ order ∈ s.orders, order.id = order'.id ∧ order'.filledQty = order.filledQty
    ∧ order'.avgFillPrice = order.avgFillPrice

theorem Retired.remains (hretired : s.Retired id) (hmem : order ∈ s.orders) (hid : order.id = id) :
    s.Remains order :=
  ⟨hretired.finished order hmem hid, order, hmem, rfl, rfl, rfl⟩

/-- **A step** leaves the orders under a retired id finished, with what they have filled. -/
theorem Retired.remains_of_effect (hretired : s.Retired id) (heffect : Effect s op s')
    (hnext : s'.allocator.counter = s.allocator.counter + 1 → s.nextId ≠ id) {order' : OMOrder}
    (hmem' : order' ∈ s'.orders) (hid' : order'.id = id) : s.Remains order' := by
  -- The order that is written is not the one of the id, or it is finished before and after.
  have hwrite : ∀ {id' : OrderId} {before after : List OMOrder} {order written : OMOrder},
      s.OrderAt id' before order after → order' ∈ before ++ written :: after →
      (written.id = id → s.Remains written) → s.Remains order' := by
    intro id' before after order written hat hmem hwritten
    by_cases heq : order' = written
    · subst heq
      exact hwritten hid'
    · exact hretired.remains (hat.mem_of_ne hmem heq) hid'
  cases heffect with
  | idle hsame =>
      rw [hsame.orders] at hmem'
      exact hretired.remains hmem' hid'
  | @submitted request position room limits before evicted after hpassed hsplit hevicted =>
      simp only [List.mem_append, List.mem_cons] at hmem'
      rcases hmem' with hbefore | rfl | hafter
      · exact hretired.remains (by simp [hsplit, hbefore]) hid'
      · exact absurd hid' (hnext rfl)
      · exact hretired.remains (by simp [hsplit, hafter]) hid'
  | cancelSent hat hopen =>
      exact hwrite hat hmem' fun hid => absurd (hretired.finished _ hat.mem hid) hopen.1
  | unreserved => exact hretired.remains hmem' hid'
  | replaced hat hopen => exact hwrite hat hmem' fun hid => absurd hid (hnext rfl)
  | noted hat hstatus hrequest hfilled hlive hfinished hprice hstate =>
      refine hwrite hat hmem' fun hid => ?_
      have hsame := congrArg OrderRequest.clientOrderId hrequest
      exact ⟨hfinished.mpr (hretired.finished _ hat.mem (hsame.symm.trans hid)), _, hat.mem, hsame.symm,
        hfilled, hprice⟩
  | filled hat hstatus hopen =>
      exact hwrite hat hmem' fun hid => absurd (hretired.finished _ hat.mem hid) hopen
  | failed hat hstatus hpositive hopen =>
      exact hwrite hat hmem' fun hid => absurd (hretired.finished _ hat.mem hid) hopen
  | canceled hat =>
      refine hwrite hat hmem' fun _ => ⟨?_, _, hat.mem, rfl, rfl, rfl⟩
      dsimp only
      split
      · exact OMOrderState.finished_completed
      · exact OMOrderState.finished_cancelled
  | rejected hat =>
      exact hwrite hat hmem' fun _ => ⟨OMOrderState.finished_dead, _, hat.mem, rfl, rfl, rfl⟩

theorem Retired.remains_step (hretired : s.Retired id) (hnumbered : s.Numbered op) {order' : OMOrder}
    (hmem' : order' ∈ (s.step op).orders) (hid' : order'.id = id) : s.Remains order' := by
  refine hretired.remains_of_effect (effect_step s op) (fun hsucc hid => ?_) hmem' hid'
  have hfits := hnumbered.resolve_right fun hkept => by simp [hkept] at hsucc
  exact nextId_not_issued hfits (hid ▸ hretired.issued)

theorem retired_step (hretired : s.Retired id) (hnumbered : s.Numbered op) :
    (s.step op).Retired id where
  issued := hretired.issued.mono (effect_step s op).slot_eq ((effect_step s op).counter_le hnumbered)
  finished := fun _ hmem hid => (hretired.remains_step hnumbered hmem hid).finished

/-- **A run** leaves them so as well. -/
theorem retired_run {ops : List Op} (hretired : s.Retired id)
    (halong : Run.Along (Run.total step) Numbered s ops) :
    (ops.foldl step s).Retired id
      ∧ ∀ order' ∈ (ops.foldl step s).orders, order'.id = id → s.Remains order' := by
  induction ops generalizing s with
  | nil => exact ⟨hretired, fun _ hmem hid => hretired.remains hmem hid⟩
  | cons op ops ih =>
      obtain ⟨hnumbered, hrest⟩ := halong
      obtain ⟨hlast, hall⟩ := ih (retired_step hretired hnumbered) (hrest _ rfl)
      refine ⟨hlast, fun order' hmem hid => ?_⟩
      obtain ⟨hfinished, order, hmem', hid', hfilled, hprice⟩ := hall order' hmem hid
      obtain ⟨-, origin, horigin, hsame, hfilled', hprice'⟩ :=
        hretired.remains_step hnumbered hmem' (hid'.trans hid)
      exact ⟨hfinished, origin, horigin, hsame.trans hid', hfilled.trans hfilled',
        hprice.trans hprice'⟩

theorem Retired.finished_of_find (hretired : s.Retired id) {found : Nat × OMOrder}
    (hfind : s.find id = some found) : found.2.state.Finished := by
  obtain ⟨before, after, hat, -⟩ := orderAt_of_find hfind
  exact hretired.finished _ hat.mem hat.found

theorem Retired.sendCancel (hretired : s.Retired id) (qty : Quantity) (room : Bool) :
    s.sendCancel id qty room = (false, s) := by
  unfold Slot.sendCancel
  split
  case h_1 hfind => rw [if_pos (Or.inl (hretired.finished_of_find hfind))]
  case h_2 => rfl

theorem Retired.sendReplace (hretired : s.Retired id) (price : Price) (qty : Quantity) (room : Bool) :
    s.sendReplace id price qty room = (false, s) := by
  unfold Slot.sendReplace
  split
  case h_1 hfind => rw [if_pos (Or.inl (hretired.finished_of_find hfind))]
  case h_2 => rfl

theorem Retired.pnl_onOrderResponse (hretired : s.Retired response.clientOrderId) :
    (s.onOrderResponse response).2.pnl = s.pnl := by
  by_cases hstatus : response.status = .executed
  · unfold Slot.onOrderResponse
    split
    case h_1 hfind =>
        have hfinished := hretired.finished_of_find hfind
        simp only [hstatus, onExecuted, if_pos (Or.inr hfinished)]
    case h_2 => rfl
  · rcases onOrderResponse_books (s := s) response with ⟨-, hpnl, -⟩ | ⟨-, hbooked, -⟩
    · exact hpnl
    · exact RiskManager.pnl_onOrderResponse hbooked hstatus

theorem keyed_run {ops : List Op} (hunused : s.Unused)
    (halong : Run.Along (Run.total step) Numbered s ops) : (ops.foldl step s).Keyed :=
  Run.invariant_total Keyed
    (fun s op hkeyed hnumbered => keyed_step hkeyed hnumbered (effect_step s op))
    hunused.keyed halong

theorem issued_run {ops : List Op} (hissued : s.Issued id)
    (halong : Run.Along (Run.total step) Numbered s ops) : (ops.foldl step s).Issued id :=
  Run.invariant_total (fun s => s.Issued id)
    (fun s op hissued hnumbered => hissued.mono (effect_step s op).slot_eq ((effect_step s op).counter_le hnumbered))
    hissued halong

/-- **Finished orders stay finished.** Once an order that was recorded is finished, or its place is
taken, nothing brings its id back. -/
theorem finished_for_good {ops later : List Op} (hunused : s.Unused)
    (halong : Run.Along (Run.total step) Numbered s (ops ++ later))
    (hrecorded : ∃ ops', ops' <+: ops ∧ ∃ order ∈ (ops'.foldl step s).orders, order.id = id)
    (hfinished : ∀ order ∈ (ops.foldl step s).orders, order.id = id → order.state.Finished) :
    let reached := ops.foldl step s
    let last := (ops ++ later).foldl step s
    (∀ order ∈ last.orders, order.id = id → order.state.Finished)
      ∧ (∀ order ∈ reached.orders, ∀ order' ∈ last.orders, order.id = id → order'.id = id →
        order'.filledQty = order.filledQty ∧ order'.avgFillPrice = order.avgFillPrice)
      ∧ (∀ qty room, last.sendCancel id qty room = (false, last))
      ∧ (∀ price qty room, last.sendReplace id price qty room = (false, last))
      ∧ ∀ response, response.clientOrderId = id → (last.onOrderResponse response).2.pnl = last.pnl := by
  intro reached last
  obtain ⟨hops, hlater⟩ := Run.along_total_append.mp halong
  obtain ⟨_, ⟨rest, rfl⟩, order, hmem, rfl⟩ := hrecorded
  have hretired : reached.Retired order.id := by
    obtain ⟨hfirst, hrest⟩ := Run.along_total_append.mp hops
    have hissued := issued_run ((keyed_run hunused hfirst).issued order hmem) hrest
    rw [← List.foldl_append] at hissued
    exact ⟨hissued, hfinished⟩
  obtain ⟨hretired', hremains⟩ := retired_run hretired hlater
  rw [← List.foldl_append] at hretired' hremains
  refine ⟨hretired'.finished, fun known hknown order' hmem' hid hid' => ?_, hretired'.sendCancel,
    hretired'.sendReplace, fun response hid => ?_⟩
  · obtain ⟨-, origin, horigin, hsame, hfilled, hprice⟩ := hremains order' hmem' hid'
    obtain rfl := (keyed_run hunused hops).eq_of_id_eq horigin hknown
      (hsame.trans (hid'.trans hid.symm))
    exact ⟨hfilled, hprice⟩
  · exact Retired.pnl_onOrderResponse (hid ▸ hretired')

/-- An order fills. -/
def filledRun : List Op :=
  [ .sendNewOrder { tickerId := 7, side := .buy, price := 10, qty := 10 } {} true,
    .onOrderResponse (execution 1 10 10) ]

/-- Another one takes its place, and a late report arrives for it. -/
def lateRun : List Op :=
  [ .sendNewOrder { tickerId := 7, side := .sell, price := 10, qty := 5 } {} true,
    .onOrderResponse (execution 1 10 10) ]

theorem finished_for_good_lateRun :
    let last := (filledRun ++ lateRun).foldl step limitedSlot
    last.orders.map OMOrder.id = [2] ∧ last.sendReplace 1 10 20 true = (false, last)
      ∧ (last.onOrderResponse (execution 1 10 10)).2.pnl = last.pnl := by
  have halong : Run.Along (Run.total step) Numbered limitedSlot (filledRun ++ lateRun) := by decide
  have hrecorded : ∃ order ∈ (filledRun.foldl step limitedSlot).orders, order.id = 1 := by decide
  obtain ⟨-, -, -, hreplace, hresponse⟩ := finished_for_good limitedSlot_fresh.unused halong
    ⟨filledRun, List.prefix_rfl, hrecorded⟩ (by decide)
  exact ⟨by decide, hreplace 10 20 true, hresponse (execution 1 10 10) rfl⟩

end Slot

end AlphaTrader
