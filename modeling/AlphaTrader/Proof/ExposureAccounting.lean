import AlphaTrader.Proof.OrderIds
import AlphaTrader.Proof.PositionLimit

/-!
# Exposure accounting

The exposure in a ticker is the confirmed position together with what is reserved. A new order adds
its quantity, a fill only moves quantity from the reservation to the position, and what a cancel or a
reject takes off the reservation is gone. Nothing else changes the sum.

The position is an exact integer here and an `int64_t` in the code, which adds to it without a check.
The last section is a run on which it does not fit.
-/

namespace AlphaTrader

variable {cap : Capacity}

namespace RiskManager

variable {risk risk' : RiskManager cap} {pnl pnl' : PnLTracker cap} {response : OrderResponse}
  {ticker : TickerId}

theorem pendingExposure_perm {l : List PendingOrder} (hperm : risk.pending.Perm l) :
    risk.pendingExposure ticker = (l.map (exposureOf ticker)).sum :=
  (hperm.map _).sum_eq

theorem sum_exposureOf_remainder {pending : PendingOrder} {qty : Quantity}
    (hqty : qty ≤ pending.reservedQty) :
    ((remainder pending qty).map (exposureOf ticker)).sum
      + exposureOf ticker { pending with reservedQty := qty } = exposureOf ticker pending := by
  have hsides := pendingExposure_eq ({ pending := remainder pending qty } : RiskManager ⟨0, 0, 0⟩)
    ticker
  simp only [pendingExposure, sideExposure_remainder hqty] at hsides
  rw [hsides]
  cases hside : pending.side <;> simp [sideExposureOf, hside]

/-- The exposure that a response ends, with the reservation of its order. -/
def endedBy (response : OrderResponse) (ticker : TickerId) (pending : PendingOrder) : Int :=
  match response.status with
  | .canceled =>
      if pending.tickerId = ticker then pending.side.signed response.canceledQty else 0
  | .rejected =>
      if pending.tickerId = ticker then pending.side.signed pending.reservedQty else 0
  | _ => 0

theorem endedBy_of_silent (hsilent : response.Silent) (ticker : TickerId) (pending : PendingOrder) :
    endedBy response ticker pending = 0 := by
  unfold endedBy
  rcases hsilent with hstatus | hstatus | ⟨hstatus, hzero⟩
  · rw [hstatus]
  · rw [hstatus]
  · rw [hstatus, hzero]
    cases pending.side <;> simp [Side.signed]

/-- **Responses** that the risk manager accepts keep the sum, up to what they end. -/
theorem exposure_of_onOrderResponse
    (haccepted : risk.onOrderResponse response pnl = some (risk', pnl')) (ticker : TickerId) :
    ∃ index pending, risk.findPending response.clientOrderId = some (index, pending)
      ∧ pnl'.netQty ticker + risk'.pendingExposure ticker =
        pnl.netQty ticker + risk.pendingExposure ticker - endedBy response ticker pending := by
  obtain ⟨before, pending, after, hsplit, -, -, hmatch⟩ := onOrderResponse_spec haccepted
  refine ⟨before.length, pending, hsplit.find_eq, ?_⟩
  have hbefore : risk.pendingExposure ticker = (before.map (exposureOf ticker)).sum
      + (exposureOf ticker pending + (after.map (exposureOf ticker)).sum) := by
    simp [pendingExposure, hsplit.split]
  cases hstatus : response.status with
  | accepted =>
      simp only [hstatus] at hmatch
      simp [hmatch, endedBy, hstatus]
  | cancelRejected =>
      simp only [hstatus] at hmatch
      simp [hmatch, endedBy, hstatus]
  | executed =>
      simp only [hstatus] at hmatch
      obtain ⟨-, hle, hexec, hperm⟩ := hmatch
      have hmoved : (if ticker = pending.tickerId then pending.side.signed response.executedQty else 0)
          = exposureOf ticker { pending with reservedQty := response.executedQty } := by
        simp only [exposureOf, eq_comm (a := ticker)]
      have hleft := @sum_exposureOf_remainder ticker pending _ hle
      rw [pendingExposure_perm hperm, PnLTracker.netQty_onExecution hexec, hmoved, hbefore]
      simp only [List.map_append, List.sum_append, endedBy, hstatus]
      omega
  | canceled =>
      simp only [hstatus] at hmatch
      obtain ⟨-, hle, rfl, hperm⟩ := hmatch
      have hended : endedBy response ticker pending
          = exposureOf ticker { pending with reservedQty := response.canceledQty } := by
        simp only [endedBy, hstatus, exposureOf]
      have hleft := @sum_exposureOf_remainder ticker pending _ hle
      rw [pendingExposure_perm hperm, hended, hbefore]
      simp only [List.map_append, List.sum_append]
      omega
  | rejected =>
      simp only [hstatus] at hmatch
      obtain ⟨rfl, hperm⟩ := hmatch
      have hended : endedBy response ticker pending = exposureOf ticker pending := by
        simp only [endedBy, hstatus, exposureOf]
      rw [pendingExposure_perm hperm, hended, hbefore]
      simp only [List.map_append, List.sum_append]
      omega

end RiskManager

namespace Slot

variable {s s' : Slot cap} {response : OrderResponse}

/-- The confirmed position in a ticker and what is reserved in it. -/
def exposure (s : Slot cap) (ticker : TickerId) : Int :=
  s.pnl.netQty ticker + s.risk.pendingExposure ticker

/-- By how much an operation is to change the exposure in a ticker. Only operations that return true
change any: a new order, and a response that ends exposure of the reservation it finds. -/
def exposureChange (s : Slot cap) (op : Op) (ticker : TickerId) : Int :=
  match op with
  | .sendNewOrder request position room =>
      if (s.sendNewOrder request position room).1 ∧ request.tickerId = ticker then
        request.side.signed request.qty
      else 0
  | .onOrderResponse response =>
      if (s.onOrderResponse response).1 then
        match s.risk.findPending response.clientOrderId with
        | some (_, pending) => -RiskManager.endedBy response ticker pending
        | none => 0
      else 0
  | _ => 0

theorem exposure_of_same (hsame : Same s s') (ticker : TickerId) :
    s'.exposure ticker = s.exposure ticker := by
  simp only [exposure, RiskManager.pendingExposure, hsame.netQty, hsame.pending]

theorem exposure_placed (request : OrderRequest) (before after : List OMOrder) (ticker : TickerId) :
    (s.placed request before after).exposure ticker = s.exposure ticker
      + if request.tickerId = ticker then request.side.signed request.qty else 0 := by
  simp [exposure, placed, RiskManager.pendingExposure, RiskManager.exposureOf, reservation,
    submission, add_assoc]

theorem exposure_onOrderResponse (response : OrderResponse) (ticker : TickerId) :
    (s.onOrderResponse response).2.exposure ticker = s.exposure ticker
      + s.exposureChange (.onOrderResponse response) ticker := by
  rcases onOrderResponse_books (s := s) response with ⟨hrisk, hpnl, -, hsilent⟩ | ⟨htaken, hbooked, -⟩
  · have hchange : s.exposureChange (.onOrderResponse response) ticker = 0 := by
      by_cases htaken : (s.onOrderResponse response).1 = true
      · simp only [exposureChange, htaken, if_true]
        split
        · rw [RiskManager.endedBy_of_silent (hsilent htaken), neg_zero]
        · rfl
      · simp only [exposureChange, if_neg htaken]
    rw [hchange, add_zero, exposure, hrisk, hpnl, exposure]
  · obtain ⟨index, pending, hfind, hsum⟩ :=
      RiskManager.exposure_of_onOrderResponse hbooked ticker
    simp only [exposureChange, htaken, if_true, hfind]
    exact hsum

theorem exposure_of_effect {op : Op} (heffect : Effect s op s')
    (hnew : ∀ request position room, op ≠ .sendNewOrder request position room)
    (hresponse : ∀ response, op ≠ .onOrderResponse response) (ticker : TickerId) :
    s'.exposure ticker = s.exposure ticker := by
  cases heffect with
  | idle hsame => exact exposure_of_same hsame ticker
  | submitted => exact absurd rfl (hnew _ _ _)
  | cancelSent => rfl
  | unreserved => rfl
  | replaced hat hopen hpending =>
      -- The reservation moves to another id with its quantity.
      simp [exposure, RiskManager.pendingExposure, hpending.split, RiskManager.exposureOf]
  | _ => exact absurd rfl (hresponse _)

/-- **Exposure accounting**: in every state, every operation changes the exposure in every ticker by
exactly what its return value, its arguments and the reservation it finds say. -/
theorem exposure_step (s : Slot cap) (op : Op) (ticker : TickerId) :
    (s.step op).exposure ticker = s.exposure ticker + s.exposureChange op ticker := by
  have hkept := exposure_of_effect (effect_step s op)
  cases op with
  | sendNewOrder request position room =>
      simp only [step, apply, exposureChange]
      rcases sendNewOrder_cases (s := s) request position room with
        ⟨hrefused, huntouched⟩ | ⟨limits, before, evicted, after, -, -, -, hsent⟩
      · simpa [hrefused] using exposure_of_same huntouched.same ticker
      · simpa [hsent] using exposure_placed request before after ticker
  | onOrderResponse response => exact exposure_onOrderResponse response ticker
  | _ =>
      simp only [exposureChange, add_zero]
      exact hkept (by simp) (by simp) ticker

/-! ### A position that outgrows 64 bits -/

section Largest

/-- The widest limits a ticker can have. -/
def wideRisk : RiskManager ⟨16, 64, 256⟩ where
  tickers := [⟨7, ⟨2 ^ 63 - 1, 4294967295, 2 ^ 63 - 1⟩⟩]

def wideSlot : Slot ⟨16, 64, 256⟩ where
  risk := wideRisk
  pnl := { entries := [{ tickerId := 7 }] }

def largestOrder : OrderRequest := { tickerId := 7, side := .buy, price := 1, qty := 4294967295 }

/-- The id of the order that follows `n` others. -/
def largestId (n : Nat) : OrderId := OrderIdAllocator.makeId 0 (UInt64.ofNat (n + 1))

def largestReport (n : Nat) : OrderResponse := execution (largestId n) 4294967295 1

/-- One order after the other, each checked against a flat position, and filled at once. -/
def largestFills : Nat → List Op
  | 0 => []
  | n + 1 => largestFills n ++ [.sendNewOrder largestOrder {} true, .onOrderResponse (largestReport n)]

variable {s : Slot ⟨16, 64, 256⟩} {n : Nat}

/-- `n` orders have been sent, `filled` of them are filled, and no mark is set. -/
structure Bought (n filled : Nat) (s : Slot ⟨16, 64, 256⟩) : Prop where
  slot : s.slot = 0
  counter : s.allocator.counter = UInt64.ofNat (n + 1)
  position : ∃ position, s.pnl.entries = [⟨7, position⟩] ∧ position.netQty = filled * 4294967295
    ∧ position.markPrice = priceInvalid

/-- Every order is filled, and only the last one is still recorded. -/
structure Filled (n : Nat) (s : Slot ⟨16, 64, 256⟩) : Prop extends Bought n n s where
  orders : s.orders = [] ∨ ∃ order, s.orders = [order] ∧ order.state = .completed
  risk : s.risk = wideRisk

def largestSubmission (n : Nat) : OrderRequest := { largestOrder with clientOrderId := largestId n }

/-- The last order is open. -/
structure Sent (n : Nat) (s : Slot ⟨16, 64, 256⟩) : Prop extends Bought (n + 1) n s where
  orders : s.orders = [{ request := largestSubmission n, state := .notActive }]
  risk : s.risk = { wideRisk with pending := [⟨largestId n, 7, .buy, 4294967295⟩] }

theorem filled_wideSlot : Filled 0 wideSlot where
  slot := rfl
  counter := rfl
  position := ⟨{}, rfl, rfl, rfl⟩
  orders := Or.inl rfl
  risk := rfl

theorem largestId_ne_zero (hn : n + 1 < 2 ^ 48) : largestId n ≠ 0 := by
  intro hzero
  have hmod := OrderIdAllocator.makeId_mod 0 (UInt64.ofNat (n + 1))
  rw [← largestId, hzero, UInt64.toNat_ofNat', UInt64.toNat_zero, Nat.zero_mod,
    Nat.mod_eq_of_lt (by omega : n + 1 < 2 ^ 64), Nat.mod_eq_of_lt hn] at hmod
  exact absurd hmod (by omega)

theorem canSubmit_largest (hn : n + 1 < 2 ^ 48) :
    wideRisk.canSubmit (largestSubmission n) {} = .accepted := by
  have hvalid : ¬ ((largestSubmission n).type ≠ .new ∨ (largestSubmission n).clientOrderId = 0
      ∨ (largestSubmission n).tickerId = tickerIdInvalid ∨ (largestSubmission n).price = priceInvalid
      ∨ (largestSubmission n).price < 0 ∨ (largestSubmission n).qty = 0) := by
    have hid : (largestSubmission n).clientOrderId ≠ 0 := largestId_ne_zero hn
    simp only [hid, false_or]
    exact (by decide : ¬ (largestOrder.type ≠ .new ∨ largestOrder.tickerId = tickerIdInvalid
      ∨ largestOrder.price = priceInvalid ∨ largestOrder.price < 0 ∨ largestOrder.qty = 0))
  unfold RiskManager.canSubmit
  rw [if_neg (by decide), if_neg hvalid]
  simp [RiskManager.findTicker, RiskManager.findPending, Table.find, wideRisk, largestSubmission,
    largestOrder, RiskManager.pendingExposure, Side.signed]

theorem Filled.sent (h : Filled n s) (hn : n + 1 < 2 ^ 48) :
    Sent n (s.step (.sendNewOrder largestOrder {} true)) := by
  have hid : (s.allocator.next s.slot).1 = largestId n := by
    rw [OrderIdAllocator.next.eq_def, h.slot, h.counter]
    rfl
  have hsubmission : ({ largestOrder with
      clientOrderId := (s.allocator.next s.slot).1
      newClientOrderId := 0 } : OrderRequest) = largestSubmission n := by
    rw [hid]
    rfl
  have hslot : s.allocSlot = 0 := by
    rcases h.orders with hnil | ⟨order, horder, hstate⟩
    · simp [allocSlot, hnil]
    · simp [allocSlot, horder, List.findIdx_cons, hstate]
  have hplace : ∀ s' : Slot ⟨16, 64, 256⟩, s'.orders = s.orders →
      ∀ order, s'.placeOrder 0 order = [order] := by
    intro s' hsame order
    rcases h.orders with hnil | ⟨last, hlast, -⟩
    · simp [placeOrder, hsame, hnil]
    · simp [placeOrder, hsame, hlast]
  have hcounter : s.allocator.counter + 1 = UInt64.ofNat (n + 1 + 1) := by
    rw [h.counter, UInt64.ofNat_add (n + 1) 1]
    rfl
  have hsubmit : wideRisk.onSubmitted (largestSubmission n) =
      some { wideRisk with pending := [⟨largestId n, 7, .buy, 4294967295⟩] } := rfl
  simp only [step, apply, sendNewOrder, hslot, hsubmission, h.risk, canSubmit_largest hn, ne_eq,
    not_true_eq_false, if_false, hsubmit]
  exact {
    slot := h.slot
    counter := hcounter
    position := h.position
    orders := hplace _ rfl _
    risk := rfl }

/-- A buy adds to what has been bought, where nothing is marked. -/
theorem onExecution_largest {pnl : PnLTracker ⟨16, 64, 256⟩} {position : Position}
    (hentries : pnl.entries = [⟨7, position⟩]) (hnet : position.netQty = n * 4294967295)
    (hmark : position.markPrice = priceInvalid) :
    ∃ position' : Position, pnl.onExecution 7 .buy 1 4294967295 = some ⟨[⟨7, position'⟩]⟩
      ∧ position'.netQty = (n + 1 : Nat) * 4294967295 ∧ position'.markPrice = priceInvalid := by
  obtain ⟨next, happly, hnext, hmark'⟩ : ∃ next,
      PnLTracker.applyExecution position .buy 1 4294967295 = some next
        ∧ next.netQty = (n + 1 : Nat) * 4294967295 ∧ next.markPrice = priceInvalid := by
    have hsigned : Side.signed .buy 4294967295 = 4294967295 := rfl
    unfold PnLTracker.applyExecution
    dsimp only
    rw [hsigned]
    by_cases hzero : position.netQty = 0
    · rw [if_pos hzero]
      exact ⟨_, rfl, by dsimp only; omega, hmark⟩
    · have hsame : 0 < position.netQty ↔ (0 : Int) < 4294967295 := by omega
      rw [if_neg hzero, if_pos hsame]
      exact ⟨_, rfl, by dsimp only; omega, hmark⟩
  have hupdate : PnLTracker.updateUnrealized next = some { next with unrealizedPnl := 0 } :=
    if_pos (Or.inr hmark')
  have hfind : pnl.find 7 = some (0, ⟨7, position⟩) := by
    rw [PnLTracker.find, hentries]
    rfl
  have hvalid : ¬ ((1 : Price) = priceInvalid ∨ (4294967295 : Quantity) = 0) := by decide
  refine ⟨{ next with unrealizedPnl := 0 }, ?_, hnext, hmark'⟩
  unfold PnLTracker.onExecution
  simp only [hfind, Option.bind_eq_bind, Option.bind_some, if_neg hvalid, happly, hupdate,
    PnLTracker.setPosition, hentries]
  rfl

theorem Sent.filled (h : Sent n s) : Filled (n + 1) (s.step (.onOrderResponse (largestReport n))) := by
  have hpositive : (largestReport n).executedQty ≠ 0 :=
    (by decide : (4294967295 : Quantity) ≠ 0)
  obtain ⟨position, hentries, hnet, hmark⟩ := h.position
  obtain ⟨position', hexecution, hnet', hmark'⟩ := onExecution_largest hentries hnet hmark
  have hrisk : s.risk.onOrderResponse (largestReport n) s.pnl =
      some (wideRisk, ⟨[⟨7, position'⟩]⟩) := by
    have hsplit : s.risk.SplitAt (largestReport n).clientOrderId []
        ⟨largestId n, 7, .buy, 4294967295⟩ [] :=
      ⟨by rw [h.risk]; rfl, rfl, List.forall_mem_nil _⟩
    rw [RiskManager.onOrderResponse_executed hsplit rfl hpositive (UInt32.le_refl _) hexecution,
      h.risk]
    simp [RiskManager.release, RiskManager.erasePending, Table.removeAt, largestReport, execution,
      wideRisk]
  have hat : s.OrderAt (largestReport n).clientOrderId []
      { request := largestSubmission n, state := .notActive } [] :=
    ⟨h.orders, rfl, List.forall_mem_nil _⟩
  have hopen : ¬ OMOrderState.notActive.Finished := by decide
  obtain ⟨order, horders, -, -, hstate, hrisk', hpnl⟩ :=
    step_executed hat rfl hpositive hopen (Nat.le_of_eq (Nat.zero_add _)) hrisk
  exact {
    slot := (effect_step s _).slot_eq.trans h.slot
    counter := (counter_onOrderResponse s _).trans h.counter
    position := ⟨position', by rw [hpnl], hnet', hmark'⟩
    orders := Or.inr ⟨order, horders, hstate.trans (if_pos (UInt32.zero_add _))⟩
    risk := hrisk' }

theorem filled_largestFills (hn : n < 2 ^ 48) : Filled n ((largestFills n).foldl step wideSlot) := by
  induction n with
  | zero => exact filled_wideSlot
  | succ n hind =>
      rw [largestFills, List.foldl_append]
      exact ((hind (by omega)).sent hn).filled

theorem netQty_largestFills (hn : n < 2 ^ 48) :
    ((largestFills n).foldl step wideSlot).pnl.netQty 7 = n * 4294967295 := by
  obtain ⟨position, hentries, hnet, -⟩ := (filled_largestFills hn).position
  simp [PnLTracker.netQty, PnLTracker.get, PnLTracker.find, Table.find, hentries, hnet]

theorem fresh_wideSlot : wideSlot.Fresh where
  limits := by simp [wideSlot, wideRisk]
  orders := rfl
  pending := rfl
  outgoing := rfl
  counter := rfl
  flat := by simp [wideSlot]

/-- The code adds up `net_qty` in 64 bits without a check. A fill of an order that was checked against
a flat position takes it past them, where no exposure should change. -/
theorem largestFills_overflow :
    wideSlot.Fresh
      ∧ (∀ n ≤ 2 ^ 31, PnLTracker.FitsInt64 (((largestFills n).foldl step wideSlot).pnl.netQty 7))
      ∧ ¬ PnLTracker.FitsInt64 (((largestFills (2 ^ 31 + 1)).foldl step wideSlot).pnl.netQty 7) := by
  refine ⟨fresh_wideSlot, ?_, ?_⟩
  · intro n hn
    rw [netQty_largestFills (by omega), PnLTracker.FitsInt64]
    omega
  · rw [netQty_largestFills (by omega)]
    decide

end Largest

end Slot

end AlphaTrader
