import AlphaTrader.Library.Run
import AlphaTrader.Proof.SlotSpec

/-!
# The average price of the fills

An order keeps an average fill price, which each fill recomputes from the rounded average before it.
Beside the slot a ledger keeps the fills themselves. The kept average is the average of the fills, rounded
once, exactly as long as no fill leaves a smaller remainder than the fills before it: then the part that
was rounded off earlier would have counted.
-/

namespace AlphaTrader

structure Fill where
  price : Nat
  qty : Nat
  deriving DecidableEq, Repr

namespace Fill

def totalQty (fills : List Fill) : Nat := (fills.map Fill.qty).sum

def cost (fills : List Fill) : Nat := (fills.map fun fill => fill.price * fill.qty).sum

/-- What the division of the cost by the quantity leaves. -/
def remainder (fills : List Fill) : Nat := cost fills % totalQty fills

theorem totalQty_concat (fills : List Fill) (fill : Fill) :
    totalQty (fills ++ [fill]) = totalQty fills + fill.qty := by
  simp [totalQty]

theorem cost_concat (fills : List Fill) (fill : Fill) :
    cost (fills ++ [fill]) = cost fills + fill.price * fill.qty := by
  simp [cost]

theorem cost_eq_zero {fills : List Fill} (hzero : totalQty fills = 0) : cost fills = 0 := by
  rw [totalQty, List.sum_eq_zero_iff] at hzero
  rw [cost, List.sum_eq_zero_iff]
  simp only [List.forall_mem_map] at hzero ⊢
  intro fill hmem
  rw [hzero fill hmem, Nat.mul_zero]

end Fill

/-- A sum has the quotient of its larger part exactly if the smaller part is within the remainder. -/
theorem div_eq_add_div_iff {value rest divisor : Nat} (hlt : rest < divisor) :
    value / divisor = (value + rest) / divisor ↔ rest ≤ (value + rest) % divisor := by
  have hpos : 0 < divisor := by omega
  have hrest : rest % divisor = rest := Nat.mod_eq_of_lt hlt
  rw [Nat.add_div hpos, Nat.div_eq_of_lt hlt, hrest]
  by_cases hcarry : divisor ≤ value % divisor + rest
  · have hmod : (value + rest) % divisor + divisor = value % divisor + rest % divisor :=
      Nat.add_mod_add_of_le_add_mod (by rwa [hrest])
    have hvalue := Nat.mod_lt value hpos
    rw [if_pos hcarry]
    omega
  · have hmod : (value + rest) % divisor = value % divisor + rest % divisor :=
      Nat.add_mod_of_add_mod_lt (by rw [hrest]; omega)
    rw [if_neg hcarry]
    omega

/-- **An average taken from a rounded average** is the rounded average of all exactly if the remainder
does not shrink. -/
theorem average_eq_iff {cost count price qty : Nat} (hcount : 0 < count) :
    (cost / count * count + price * qty) / (count + qty) = (cost + price * qty) / (count + qty)
      ↔ cost % count ≤ (cost + price * qty) % (count + qty) := by
  have hmod : cost % count < count + qty := lt_of_lt_of_le (Nat.mod_lt _ hcount) (Nat.le_add_right ..)
  have hsplit : cost + price * qty = cost / count * count + price * qty + cost % count := by
    have := Nat.div_add_mod' cost count
    omega
  rw [hsplit]
  exact div_eq_add_div_iff hmod

/-! ### One fill -/

def OrderResponse.fill (response : OrderResponse) : Fill :=
  ⟨response.executionPrice.toInt.toNat, response.executedQty.toNat⟩

/-- The order's average is that of the fills, rounded once. -/
structure OMOrder.Averages (order : OMOrder) (fills : List Fill) : Prop where
  filled : order.filledQty.toNat = Fill.totalQty fills
  price : fills ≠ [] → order.avgFillPrice.toInt = (Fill.cost fills / Fill.totalQty fills : Nat)

section Fill

variable {order : OMOrder} {fills : List Fill} {response : OrderResponse}

theorem averagePrice_first (havg : order.Averages fills) (hzero : order.filledQty = 0)
    (hprice : 0 ≤ response.executionPrice.toInt) (hpositive : response.executedQty ≠ 0) :
    (Slot.averagePrice order (order.filledQty + response.executedQty) response).toInt =
      (Fill.cost (fills ++ [response.fill]) / Fill.totalQty (fills ++ [response.fill]) : Nat) := by
  have htotal : Fill.totalQty fills = 0 := by rw [← havg.filled, hzero]; rfl
  have hqty : 0 < response.executedQty.toNat :=
    Nat.pos_of_ne_zero fun h => hpositive (UInt32.toNat_inj.mp h)
  rw [hzero, UInt32.zero_add, Slot.averagePrice, if_pos rfl, Fill.cost_concat, Fill.totalQty_concat,
    Fill.cost_eq_zero htotal, htotal, Nat.zero_add, Nat.zero_add, OrderResponse.fill,
    Nat.mul_div_cancel _ hqty]
  exact (Int.toNat_of_nonneg hprice).symm

theorem averagePrice_later (havg : order.Averages fills) (hfilled : order.filledQty ≠ 0)
    (hprice : 0 ≤ response.executionPrice.toInt)
    (hqty : order.filledQty.toNat + response.executedQty.toNat ≤ order.request.qty.toNat) :
    (Slot.averagePrice order (order.filledQty + response.executedQty) response).toInt =
      ((Fill.cost fills / Fill.totalQty fills * Fill.totalQty fills
        + response.fill.price * response.fill.qty) / (Fill.totalQty fills + response.fill.qty) : Nat) := by
  have hpos : 0 < Fill.totalQty fills := by
    rw [← havg.filled]
    exact Nat.pos_of_ne_zero fun h => hfilled (UInt32.toNat_inj.mp h)
  have hne : fills ≠ [] := by
    rintro rfl
    exact absurd hpos (by simp [Fill.totalQty])
  have haverage := havg.price hne
  have hadd : (order.filledQty + response.executedQty).toNat =
      Fill.totalQty fills + response.executedQty.toNat := by
    rw [Slot.toNat_filledQty_add hqty, havg.filled]
  have hlater : order.filledQty + response.executedQty ≠ response.executedQty := by
    intro heq
    rw [heq] at hadd
    omega
  have hprice' : (response.fill.price : Int) = response.executionPrice.toInt := Int.toNat_of_nonneg hprice
  have hmax := order.avgFillPrice.toInt_lt
  have hmax' := response.executionPrice.toInt_lt
  rw [Slot.averagePrice, if_neg hlater, UInt32.add_sub_cancel, hadd, havg.filled, haverage, ← hprice']
  have hquotient : (Fill.cost fills / Fill.totalQty fills * Fill.totalQty fills
      + response.fill.price * response.fill.qty) / (Fill.totalQty fills + response.fill.qty) < 2 ^ 31 := by
    refine Nat.div_lt_of_lt_mul ?_
    have hleft : Fill.cost fills / Fill.totalQty fills < 2 ^ 31 := by omega
    have hright : response.fill.price < 2 ^ 31 := by omega
    nlinarith
  have hint : ((Fill.cost fills / Fill.totalQty fills : Nat) : Int) * (Fill.totalQty fills : Nat)
      + response.fill.price * response.executedQty.toNat =
      ((Fill.cost fills / Fill.totalQty fills * Fill.totalQty fills
        + response.fill.price * response.fill.qty : Nat) : Int) := by push_cast; rfl
  rw [hint, ← Int.ofNat_tdiv]
  exact Int32.toInt_ofInt_of_le (le_trans (by norm_num) (Int.natCast_nonneg _))
    (by exact_mod_cast hquotient)

/-- **One fill** keeps the average exact exactly if the remainder does not shrink. -/
theorem averagePrice_exact_iff (havg : order.Averages fills)
    (hprice : 0 ≤ response.executionPrice.toInt) (hpositive : response.executedQty ≠ 0)
    (hqty : order.filledQty.toNat + response.executedQty.toNat ≤ order.request.qty.toNat) :
    (Slot.averagePrice order (order.filledQty + response.executedQty) response).toInt =
        (Fill.cost (fills ++ [response.fill]) / Fill.totalQty (fills ++ [response.fill]) : Nat)
      ↔ Fill.remainder fills ≤ Fill.remainder (fills ++ [response.fill]) := by
  by_cases hfilled : order.filledQty = 0
  · have htotal : Fill.totalQty fills = 0 := by rw [← havg.filled, hfilled]; rfl
    refine iff_of_true (averagePrice_first havg hfilled hprice hpositive) ?_
    simp [Fill.remainder, Fill.cost_eq_zero htotal]
  · have hpos : 0 < Fill.totalQty fills := by
      rw [← havg.filled]
      exact Nat.pos_of_ne_zero fun h => hfilled (UInt32.toNat_inj.mp h)
    rw [averagePrice_later havg hfilled hprice hqty, Fill.remainder, Fill.remainder, Fill.cost_concat,
      Fill.totalQty_concat, Int.natCast_inj]
    exact average_eq_iff hpos

end Fill

/-! ### The ledger -/

/-- A slot with the fills that each recorded order has accepted, by the place of the order. -/
structure Ledger (cap : Capacity) where
  slot : Slot cap
  fills : Nat → List Fill := fun _ => []

namespace Ledger

open Slot

variable {cap : Capacity} {ledger : Ledger cap} {op : Op}

/-- The place of the order that an operation fills, and the fill. -/
def filled? (ledger : Ledger cap) : Op → Option (Nat × Fill)
  | .onOrderResponse response =>
      if response.status = .executed ∧ (ledger.slot.onOrderResponse response).1 = true then
        (ledger.slot.find response.clientOrderId).map fun found => (found.1, response.fill)
      else none
  | _ => none

/-- The place of the order that an operation records. -/
def recorded? (ledger : Ledger cap) : Op → Option Nat
  | .sendNewOrder request position room =>
      if (ledger.slot.sendNewOrder request position room).1 then some ledger.slot.allocSlot else none
  | _ => none

def step (ledger : Ledger cap) (op : Op) : Ledger cap where
  slot := ledger.slot.step op
  fills :=
    match ledger.filled? op, ledger.recorded? op with
    | some (place, fill), _ => Function.update ledger.fills place (ledger.fills place ++ [fill])
    | none, some place => Function.update ledger.fills place []
    | none, none => ledger.fills

/-- Every recorded order has the average of its fills. -/
def Exact (ledger : Ledger cap) : Prop :=
  ∀ (place : Nat) (order : OMOrder), ledger.slot.orders[place]? = some order →
    order.Averages (ledger.fills place)

/-- A fill does not leave a smaller remainder than the fills before it. -/
def Steady (ledger : Ledger cap) (op : Op) : Prop :=
  ∀ filled ∈ ledger.filled? op,
    Fill.remainder (ledger.fills filled.1) ≤ Fill.remainder (ledger.fills filled.1 ++ [filled.2])

instance (ledger : Ledger cap) (op : Op) : Decidable (ledger.Steady op) :=
  inferInstanceAs (Decidable (∀ _ ∈ _, _))

/-- Executions have prices of at least zero. -/
def Priced (op : Op) : Prop :=
  match op with
  | .onOrderResponse response => response.status = .executed → 0 ≤ response.executionPrice.toInt
  | _ => True

instance (op : Op) : Decidable (Priced op) := by
  unfold Priced
  split <;> infer_instance

/-- What an order has been filled with. -/
def kept (order : OMOrder) : Quantity × Price := (order.filledQty, order.avgFillPrice)

theorem kept_orders {s s' : Slot cap} (heffect : Slot.Effect s op s')
    (hnew : ∀ request position room, op ≠ .sendNewOrder request position room)
    (hexecuted : ∀ response, op = .onOrderResponse response → response.status ≠ .executed) :
    s'.orders.map kept = s.orders.map kept := by
  cases heffect with
  | idle hsame => rw [hsame.orders]
  | submitted => exact absurd rfl (hnew _ _ _)
  | cancelSent hat hopen => simp [hat.split, kept]
  | unreserved => rfl
  | replaced hat hopen hpending => simp [hat.split, kept, replacedOrder]
  | noted hat hstatus hrequest hfilled hlive hfinished hprice hstate =>
      simp [hat.split, kept, hfilled, hprice]
  | filled hat hstatus => exact absurd hstatus (hexecuted _ rfl)
  | failed hat hstatus => exact absurd hstatus (hexecuted _ rfl)
  | canceled hat => simp [hat.split, kept]
  | rejected hat => simp [hat.split, kept]

theorem averages_congr {order order' : OMOrder} {fills : List Fill} (hkept : kept order' = kept order)
    (havg : order.Averages fills) : order'.Averages fills := by
  obtain ⟨hfilled, hprice⟩ := Prod.mk.inj hkept
  exact ⟨hfilled ▸ havg.filled, fun hne => hprice ▸ havg.price hne⟩

/-- Orders that keep their fills keep their averages. -/
theorem exact_of_kept {ledger' : Ledger cap} (hexact : ledger.Exact)
    (hkept : ledger'.slot.orders.map kept = ledger.slot.orders.map kept)
    (hfills : ledger'.fills = ledger.fills) : ledger'.Exact := by
  intro place order' horder'
  have hget := congrArg (fun kepts => kepts[place]?) hkept
  simp only [List.getElem?_map, horder', Option.map_some] at hget
  obtain ⟨order, horder, heq⟩ := Option.map_eq_some_iff.mp hget.symm
  rw [hfills]
  exact averages_congr heq.symm (hexact place order horder)

theorem getElem?_placeOrder (s : Slot cap) (order : OMOrder) (place : Nat) :
    (s.placeOrder s.allocSlot order)[place]? =
      if place = s.allocSlot then some order else s.orders[place]? := by
  have hle : s.allocSlot ≤ s.orders.length := List.findIdx_le_length
  unfold placeOrder
  split
  case isTrue hend =>
      rw [hend, List.getElem?_append]
      split <;> grind
  case isFalse hend => grind

theorem orders_sendNewOrder {s : Slot cap} {request : OrderRequest} {position : Position} {room : Bool}
    (hsent : (s.sendNewOrder request position room).1 = true) :
    (s.sendNewOrder request position room).2.orders =
      s.placeOrder s.allocSlot { request := s.submission request, state := .notActive } := by
  unfold sendNewOrder at hsent ⊢
  dsimp only at hsent ⊢
  split at hsent
  case isTrue => cases hsent
  case isFalse hplace =>
      rw [if_neg hplace]
      split at hsent
      case isTrue => cases hsent
      case isFalse haccepted =>
          rw [if_neg haccepted]
          split at hsent
          case isTrue => cases hsent
          case isFalse hroom =>
              rw [if_neg hroom]
              split at hsent
              case h_1 => cases hsent
              case h_2 => rfl

/-- An order that is recorded has no fills yet. -/
theorem exact_recorded {request : OrderRequest} {position : Position} {room : Bool}
    (hexact : ledger.Exact) (hsent : (ledger.slot.sendNewOrder request position room).1 = true) :
    (ledger.step (.sendNewOrder request position room)).Exact := by
  intro place order horder
  have horders : (ledger.step (.sendNewOrder request position room)).slot.orders = _ :=
    orders_sendNewOrder hsent
  rw [horders, getElem?_placeOrder] at horder
  simp only [step, filled?, recorded?, hsent, if_true]
  split at horder
  case isTrue hplace =>
      obtain rfl := Option.some.inj horder
      rw [hplace, Function.update_self]
      exact ⟨rfl, fun hne => absurd rfl hne⟩
  case isFalse hplace =>
      rw [Function.update_of_ne hplace]
      exact hexact place order horder

/-- An execution is refused, and the fills stay as they are, or it fills the order that it names. -/
theorem executed_cases (s : Slot cap) {response : OrderResponse} (hstatus : response.status = .executed) :
    ((s.onOrderResponse response).1 = false
        ∧ (s.onOrderResponse response).2.orders.map kept = s.orders.map kept)
      ∨ ∃ before order after order', s.OrderAt response.clientOrderId before order after
        ∧ response.executedQty ≠ 0
        ∧ order.filledQty.toNat + response.executedQty.toNat ≤ order.request.qty.toNat
        ∧ kept order' = (order.filledQty + response.executedQty,
          averagePrice order (order.filledQty + response.executedQty) response)
        ∧ (s.onOrderResponse response).1 = true
        ∧ (s.onOrderResponse response).2.orders = before ++ order' :: after := by
  unfold onOrderResponse
  cases hfind : s.find response.clientOrderId with
  | none => exact Or.inl ⟨rfl, rfl⟩
  | some found =>
      obtain ⟨index, order⟩ := found
      obtain ⟨before, after, hat, rfl⟩ := orderAt_of_find hfind
      simp only [hstatus, onExecuted, setOrder, hat.set_orders]
      split
      case isTrue => exact Or.inl ⟨rfl, rfl⟩
      case isFalse hvalid =>
          split
          case isTrue => exact Or.inl ⟨rfl, rfl⟩
          case isFalse hqty =>
              split
              case h_1 => exact Or.inl ⟨rfl, by simp [hat.split, kept]⟩
              case h_2 =>
                  exact Or.inr ⟨before, order, after, _, hat, (not_or.mp hvalid).1, Nat.not_lt.mp hqty,
                    rfl, rfl, rfl⟩

/-- **One execution.** -/
theorem exact_executed_iff {response : OrderResponse} (hexact : ledger.Exact)
    (hstatus : response.status = .executed) (hprice : 0 ≤ response.executionPrice.toInt) :
    (ledger.step (.onOrderResponse response)).Exact ↔ ledger.Steady (.onOrderResponse response) := by
  rcases executed_cases ledger.slot hstatus with ⟨hrefused, hkept⟩
    | ⟨before, order, after, order', hat, hpositive, hqty, hkept, haccepted, horders⟩
  · have hnone : ledger.filled? (.onOrderResponse response) = none := by simp [filled?, hrefused]
    refine iff_of_true (exact_of_kept hexact hkept (by simp [step, hnone, recorded?])) ?_
    simp [Steady, hnone]
  · have hfilled : ledger.filled? (.onOrderResponse response) = some (before.length, response.fill) := by
      simp [filled?, hstatus, haccepted, hat.find_eq]
    have hplace : ledger.slot.orders[before.length]? = some order := by simp [hat.split]
    have havg := hexact _ _ hplace
    obtain ⟨hqty', hprice'⟩ := Prod.mk.inj hkept
    have hiff : order'.Averages (ledger.fills before.length ++ [response.fill]) ↔
        ledger.Steady (.onOrderResponse response) := by
      simp only [Steady, hfilled, Option.mem_some_iff, forall_eq']
      rw [← averagePrice_exact_iff havg hprice hpositive hqty, ← hprice']
      constructor
      · exact fun havg' => havg'.price (by simp)
      · intro heq
        refine ⟨?_, fun _ => heq⟩
        rw [hqty', toNat_filledQty_add hqty, havg.filled, Fill.totalQty_concat]
        rfl
    have hfills : (ledger.step (.onOrderResponse response)).fills =
        Function.update ledger.fills before.length (ledger.fills before.length ++ [response.fill]) := by
      simp [step, hfilled]
    rw [← hiff]
    constructor
    · intro hexact'
      have havg' := hexact' before.length order' (by
        change (ledger.slot.onOrderResponse response).2.orders[before.length]? = _
        simp [horders])
      rwa [hfills, Function.update_self] at havg'
    · intro havg' place other hother
      change (ledger.slot.onOrderResponse response).2.orders[place]? = _ at hother
      rw [hfills]
      by_cases hsame : place = before.length
      · subst hsame
        obtain rfl : order' = other := by simpa [horders] using hother
        rwa [Function.update_self]
      · rw [Function.update_of_ne hsame]
        refine hexact place other ?_
        rw [horders, ← hat.set_orders, List.getElem?_set_ne (Ne.symm hsame)] at hother
        exact hother

/-- **One step** keeps the averages exact exactly if a fill does not shrink the remainder. -/
theorem exact_step_iff (hexact : ledger.Exact) (hpriced : Priced op) :
    (ledger.step op).Exact ↔ ledger.Steady op := by
  have hother : ledger.filled? op = none → ledger.recorded? op = none →
      (ledger.slot.step op).orders.map kept = ledger.slot.orders.map kept →
      ((ledger.step op).Exact ↔ ledger.Steady op) := by
    intro hfilled hrecorded hkept
    refine iff_of_true (exact_of_kept hexact hkept (by simp [step, hfilled, hrecorded])) ?_
    simp [Steady, hfilled]
  cases op with
  | sendNewOrder request position room =>
      rcases sendNewOrder_cases (s := ledger.slot) request position room with
        ⟨hrefused, huntouched⟩ | ⟨_, _, _, _, -, -, -, hsent⟩
      · exact hother rfl (by simp [recorded?, hrefused]) (by rw [← huntouched.same.orders]; rfl)
      · exact iff_of_true (exact_recorded hexact (by rw [hsent])) (by simp [Steady, filled?])
  | onOrderResponse response =>
      by_cases hstatus : response.status = .executed
      · exact exact_executed_iff hexact hstatus (hpriced hstatus)
      · refine hother (by simp [filled?, hstatus]) rfl (kept_orders (effect_step _ _) (by simp) ?_)
        simpa using hstatus
  | _ => exact hother rfl rfl (kept_orders (effect_step _ _) (by simp) (by simp))

/-- **The average fill price** is that of all fills, rounded once, in every state of a run exactly if no
fill leaves a smaller remainder than the fills of the order before it. -/
theorem average_exact_iff (s : Slot cap) (ops : List Op) (hempty : s.orders = [])
    (hpriced : ∀ op ∈ ops, Priced op) :
    (∀ ops', ops' <+: ops → (ops'.foldl step { slot := s }).Exact)
      ↔ Run.Along (Run.total step) Steady { slot := s } ops := by
  have hinit : Exact { slot := s } := by
    intro place order horder
    simp [hempty] at horder
  have hstep : ∀ (ledger : Ledger cap) op, Priced op → ledger.Exact →
      ((∃ ledger', Run.total step ledger op = some ledger' ∧ ledger'.Exact) ↔ ledger.Steady op) := by
    intro ledger op hpriced hexact
    simp only [Run.total, Option.some.injEq, exists_eq_left', exact_step_iff hexact hpriced]
  rw [← Run.invariant_iff hstep hpriced hinit]
  simp only [Run.foldlM_total, Option.some.injEq, exists_eq_left']

/-- An order for three shares that fills one share at a time. -/
def fillRun (prices : List Price) : List Op :=
  .sendNewOrder { tickerId := 7, side := .buy, price := 20, qty := 3 } {} true
    :: prices.map fun price => .onOrderResponse (execution 1 1 price)

theorem average_exact_iff_fillRun :
    ((fillRun [10, 12, 11]).foldl step { slot := limitedSlot }).slot.orders.map OMOrder.avgFillPrice = [11]
      ∧ ∀ ops', ops' <+: fillRun [10, 12, 11] → (ops'.foldl step { slot := limitedSlot }).Exact :=
  ⟨by decide, (average_exact_iff limitedSlot (fillRun [10, 12, 11]) rfl (by decide)).mpr (by decide)⟩

/-- **The same fills in another order** have another average. -/
theorem fillRun_loses_remainder :
    let ledger := (fillRun [11, 10, 12]).foldl step { slot := limitedSlot }
    limitedSlot.Fresh ∧ ledger.fills 0 = [⟨11, 1⟩, ⟨10, 1⟩, ⟨12, 1⟩]
      ∧ ledger.slot.orders.map OMOrder.avgFillPrice = [10] ∧ ¬ ledger.Exact := by
  refine ⟨limitedSlot_fresh, by decide, by decide, fun hexact => ?_⟩
  have hprice : ∀ order, ((fillRun [11, 10, 12]).foldl step { slot := limitedSlot }).slot.orders[0]? =
      some order → order.avgFillPrice.toInt = 11 := fun order horder => (hexact 0 order horder).price (by decide)
  revert hprice
  decide

end Ledger

end AlphaTrader
