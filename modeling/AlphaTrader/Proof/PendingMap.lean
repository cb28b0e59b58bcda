import AlphaTrader.Proof.RiskSpec

/-!
# The pending table is a finite map

The risk manager keeps its reservations in an array in which a removal moves the last entry. Read as a
map from order ids to reservations, the table is inserted into, re-keyed, decreased and deleted from, one
id at a time, and the exposure in a ticker is a sum over the map.
-/

namespace AlphaTrader

open PnLTracker (FitsInt64)

/-! ### The map -/

structure Reservation where
  tickerId : TickerId
  side : Side
  qty : Quantity
  deriving DecidableEq, Repr

namespace Reservation

/-- What is left: nothing once it is used up. -/
def less (reservation : Reservation) (qty : Quantity) : Option Reservation :=
  if reservation.qty - qty = 0 then none else some { reservation with qty := reservation.qty - qty }

def exposure (ticker : TickerId) (reservation : Reservation) : Int :=
  if reservation.tickerId = ticker then reservation.side.signed reservation.qty else 0

end Reservation

def PendingOrder.reservation (pending : PendingOrder) : Reservation :=
  ⟨pending.tickerId, pending.side, pending.reservedQty⟩

abbrev ReservationMap := OrderId → Option Reservation

namespace RiskManager

variable {cap : Capacity} {risk risk' : RiskManager cap}

/-- The operations that write to the pending table. -/
inductive TableOp (cap : Capacity) where
  | onSubmitted (request : OrderRequest)
  | onReplaced (oldId newId : OrderId)
  | onOrderResponse (response : OrderResponse) (pnl : PnLTracker cap)

inductive Op (cap : Capacity) where
  | table (op : TableOp cap)
  | registerTicker (ticker : TickerId) (limits : RiskLimits)
  | disableTrading
  | enableTrading

/-- The risk manager after an operation on the table that returns true. -/
def run? (risk : RiskManager cap) : TableOp cap → Option (RiskManager cap)
  | .onSubmitted request => risk.onSubmitted request
  | .onReplaced oldId newId => risk.onReplaced oldId newId
  | .onOrderResponse response pnl => (risk.onOrderResponse response pnl).map Prod.fst

/-- An operation that returns false changes nothing. -/
def step (risk : RiskManager cap) : Op cap → RiskManager cap
  | .table op => (risk.run? op).getD risk
  | .registerTicker ticker limits => (risk.registerTicker ticker limits).getD risk
  | .disableTrading => risk.disableTrading
  | .enableTrading => risk.enableTrading

/-- A submission has a quantity. -/
def TableOp.Positive : TableOp cap → Prop
  | .onSubmitted request => 0 < request.qty
  | .onReplaced .. | .onOrderResponse .. => True

def Op.Positive : Op cap → Prop
  | .table op => op.Positive
  | .registerTicker .. | .disableTrading | .enableTrading => True

end RiskManager

namespace ReservationMap

/-- The number of reservations. -/
noncomputable def size (map : ReservationMap) : Nat := Set.ncard {id | map id ≠ none}

/-- What the operations are on the map: insertion, re-keying, decrease and deletion. -/
noncomputable def act {cap : Capacity} (map : ReservationMap) :
    RiskManager.TableOp cap → Option ReservationMap
  | .onSubmitted request =>
      if map request.clientOrderId ≠ none ∨ map.size = cap.maxPendingOrders then none
      else some (Function.update map request.clientOrderId
        (some ⟨request.tickerId, request.side, request.qty⟩))
  | .onReplaced oldId newId =>
      if newId = 0 ∨ map newId ≠ none then none
      else (map oldId).map fun reservation =>
        Function.update (Function.update map oldId none) newId (some reservation)
  | .onOrderResponse response pnl =>
      (map response.clientOrderId).bind fun reservation =>
        match response.status with
        | .accepted | .cancelRejected => some map
        | .executed =>
            if response.executedQty = 0 ∨ reservation.qty < response.executedQty then none
            else
              (pnl.onExecution reservation.tickerId reservation.side response.executionPrice
                response.executedQty).map fun _ =>
                  Function.update map response.clientOrderId (reservation.less response.executedQty)
        | .canceled =>
            if response.canceledQty = 0 ∨ reservation.qty < response.canceledQty then none
            else some (Function.update map response.clientOrderId (reservation.less response.canceledQty))
        | .rejected => some (Function.update map response.clientOrderId none)

noncomputable def step {cap : Capacity} (map : ReservationMap) : RiskManager.Op cap → ReservationMap
  | .table op => (map.act op).getD map
  | .registerTicker .. | .disableTrading | .enableTrading => map

end ReservationMap

namespace RiskManager

variable {cap : Capacity} {risk risk' : RiskManager cap}

/-- The map that a table stands for. -/
def reservationsOf (pending : List PendingOrder) : ReservationMap :=
  Option.map PendingOrder.reservation ∘ Table.lookup PendingOrder.clientOrderId pending

def reservations (risk : RiskManager cap) : ReservationMap := reservationsOf risk.pending

/-- The table is well kept. -/
structure Kept (risk : RiskManager cap) : Prop where
  ids : (risk.pending.map PendingOrder.clientOrderId).Nodup
  reserved : ∀ pending ∈ risk.pending, 0 < pending.reservedQty
  room : risk.pending.length ≤ cap.maxPendingOrders

/-- The table stands for the map. -/
structure Stands (risk : RiskManager cap) (map : ReservationMap) : Prop where
  kept : risk.Kept
  map : risk.reservations = map

/-! ### Lookups -/

section Lookups

variable {before after pending' : List PendingOrder} {pending : PendingOrder}

theorem reservationsOf_concat {entry : PendingOrder}
    (hnodup : ((before ++ [entry]).map PendingOrder.clientOrderId).Nodup) :
    reservationsOf (before ++ [entry]) =
      Function.update (reservationsOf before) entry.clientOrderId (some entry.reservation) := by
  rw [reservationsOf, Table.lookup_perm hnodup (List.perm_append_singleton entry before),
    Table.lookup_cons, Function.comp_update]
  rfl

theorem reservationsOf_erase
    (hnodup : ((before ++ pending :: after).map PendingOrder.clientOrderId).Nodup)
    (hperm : pending'.Perm (before ++ after)) :
    (pending'.map PendingOrder.clientOrderId).Nodup
      ∧ reservationsOf pending' =
        Function.update (reservationsOf (before ++ pending :: after)) pending.clientOrderId none := by
  have hnodup' := (hperm.map PendingOrder.clientOrderId).nodup_iff.mpr (Table.nodup_split_iff.mp hnodup).2
  refine ⟨hnodup', ?_⟩
  rw [reservationsOf, Table.lookup_perm hnodup' hperm, Table.lookup_erase hnodup, Function.comp_update]
  rfl

/-- An entry in the place of another one. -/
theorem reservationsOf_replace (entry : PendingOrder)
    (hnodup : ((before ++ pending :: after).map PendingOrder.clientOrderId).Nodup)
    (hfresh : ∀ other ∈ before ++ after, other.clientOrderId ≠ entry.clientOrderId)
    (hperm : pending'.Perm (before ++ entry :: after)) :
    (pending'.map PendingOrder.clientOrderId).Nodup
      ∧ reservationsOf pending' =
        Function.update (Function.update (reservationsOf (before ++ pending :: after))
          pending.clientOrderId none) entry.clientOrderId (some entry.reservation) := by
  obtain ⟨hrest, herase⟩ := reservationsOf_erase hnodup (List.Perm.refl (before ++ after))
  have hcons : pending'.Perm (entry :: (before ++ after)) := hperm.trans List.perm_middle
  have hnodup' : (pending'.map PendingOrder.clientOrderId).Nodup :=
    (hperm.map PendingOrder.clientOrderId).nodup_iff.mpr (Table.nodup_split_iff.mpr ⟨hfresh, hrest⟩)
  refine ⟨hnodup', ?_⟩
  rw [← herase, reservationsOf, Table.lookup_perm hnodup' hcons, Table.lookup_cons, Function.comp_update]
  rfl

end Lookups

theorem reservations_ne_none_iff {id : OrderId} :
    risk.reservations id ≠ none ↔ (risk.findPending id).isSome := by
  rw [reservations, reservationsOf, Function.comp_apply, Table.lookup, Option.map_map, ne_eq,
    Option.map_eq_none_iff, findPending, Option.isSome_iff_ne_none]

theorem SplitAt.reservations {id : OrderId} {before after : List PendingOrder} {pending : PendingOrder}
    (hsplit : risk.SplitAt id before pending after) : risk.reservations id = some pending.reservation := by
  have hfind : Table.find PendingOrder.clientOrderId id risk.pending = some (before.length, pending) :=
    hsplit.find_eq
  simp [RiskManager.reservations, reservationsOf, Table.lookup, hfind]

theorem findPending_cases (risk : RiskManager cap) (id : OrderId) :
    (risk.findPending id = none ∧ risk.reservations id = none)
      ∨ ∃ before pending after, risk.SplitAt id before pending after := by
  cases hfind : risk.findPending id with
  | none =>
      refine Or.inl ⟨rfl, ?_⟩
      by_contra hsome
      simpa [hfind] using reservations_ne_none_iff.mp hsome
  | some found =>
      obtain ⟨before, after, hpending, -, hid, hskipped⟩ := Table.exists_split_of_find hfind
      exact Or.inr ⟨before, found.2, after, hpending, hid, hskipped⟩

theorem Kept.size (hkept : risk.Kept) : risk.reservations.size = risk.pending.length := by
  rw [ReservationMap.size, ← Table.ncard_lookup hkept.ids]
  simp [reservations, reservationsOf]

/-! ### The operations on the map -/

section Operations

variable {id : OrderId} {before after : List PendingOrder} {pending : PendingOrder}

theorem Kept.nodup_split (hkept : risk.Kept) (hsplit : risk.SplitAt id before pending after) :
    ((before ++ pending :: after).map PendingOrder.clientOrderId).Nodup := by
  rw [← hsplit.split]
  exact hkept.ids

theorem Kept.reserved_others (hkept : risk.Kept) (hsplit : risk.SplitAt id before pending after) :
    ∀ other ∈ before ++ after, 0 < other.reservedQty := by
  intro other hmem
  apply hkept.reserved
  rw [hsplit.split]
  rcases List.mem_append.mp hmem with hbefore | hafter
  · exact List.mem_append_left _ hbefore
  · exact List.mem_append_right _ (List.mem_cons_of_mem _ hafter)

theorem Kept.stands_erase (hkept : risk.Kept) (hsplit : risk.SplitAt id before pending after)
    (hperm : risk'.pending.Perm (before ++ after)) :
    risk'.Stands (Function.update risk.reservations id none) := by
  obtain ⟨hids, hmap⟩ := reservationsOf_erase (hkept.nodup_split hsplit) hperm
  refine ⟨⟨hids, fun entry hmem => hkept.reserved_others hsplit entry (hperm.subset hmem), ?_⟩, ?_⟩
  · have hroom := hkept.room
    rw [hsplit.split] at hroom
    apply le_trans _ hroom
    rw [hperm.length_eq]
    simp
  · rw [reservations, reservations, hsplit.split, ← hsplit.found]
    exact hmap

theorem Kept.stands_replace (entry : PendingOrder) (hkept : risk.Kept)
    (hsplit : risk.SplitAt id before pending after) (hreserved : 0 < entry.reservedQty)
    (hfresh : ∀ other ∈ before ++ after, other.clientOrderId ≠ entry.clientOrderId)
    (hperm : risk'.pending.Perm (before ++ entry :: after)) :
    risk'.Stands (Function.update (Function.update risk.reservations id none) entry.clientOrderId
      (some entry.reservation)) := by
  obtain ⟨hids, hmap⟩ := reservationsOf_replace entry (hkept.nodup_split hsplit) hfresh hperm
  refine ⟨⟨hids, fun other hmem => ?_, ?_⟩, ?_⟩
  · rcases List.mem_cons.mp ((hperm.trans List.perm_middle).subset hmem) with rfl | hother
    · exact hreserved
    · exact hkept.reserved_others hsplit other hother
  · have hroom := hkept.room
    rw [hsplit.split] at hroom
    apply le_trans _ hroom
    rw [hperm.length_eq]
    simp
  · rw [reservations, reservations, hsplit.split, ← hsplit.found]
    exact hmap

theorem stands_erasePending (hkept : risk.Kept) (hsplit : risk.SplitAt id before pending after) :
    (risk.erasePending before.length).Stands (Function.update risk.reservations id none) := by
  apply hkept.stands_erase hsplit
  rw [erasePending, hsplit.split]
  exact Table.removeAt_split before after pending

/-- Less of a reservation is written under its id, and nothing where it is used up. -/
theorem stands_release (hkept : risk.Kept) (hsplit : risk.SplitAt id before pending after)
    (qty : Quantity) :
    (risk.release before.length pending qty).Stands
      (Function.update risk.reservations id (pending.reservation.less qty)) := by
  have hperm := pending_release before after pending hsplit.split qty
  by_cases hused : pending.reservedQty - qty = 0
  · have hless : pending.reservation.less qty = none := if_pos hused
    rw [remainder, if_pos hused, List.append_nil] at hperm
    rw [hless]
    exact hkept.stands_erase hsplit hperm
  · have hless : pending.reservation.less qty =
        some { pending.reservation with qty := pending.reservedQty - qty } := if_neg hused
    rw [remainder, if_neg hused, List.append_assoc, List.singleton_append] at hperm
    have hstands := hkept.stands_replace { pending with reservedQty := pending.reservedQty - qty } hsplit
      (UInt32.pos_iff_ne_zero.mpr hused) (Table.nodup_split_iff.mp (hkept.nodup_split hsplit)).1 hperm
    rw [hsplit.found, Function.update_idem] at hstands
    rw [hless]
    exact hstands

end Operations

/-! ### What the operations do -/

theorem refines_onSubmitted (hkept : risk.Kept) {request : OrderRequest} (hpositive : 0 < request.qty) :
    Option.Rel Stands (risk.onSubmitted request)
      (risk.reservations.act (TableOp.onSubmitted request : TableOp cap)) := by
  simp only [onSubmitted, ReservationMap.act, reservations_ne_none_iff, hkept.size]
  split
  case isTrue => exact .none
  case isFalse hvalid =>
      obtain ⟨hnone, hroom⟩ := not_or.mp hvalid
      have hfresh : ∀ other ∈ risk.pending, other.clientOrderId ≠ request.clientOrderId :=
        Table.find_eq_none_iff.mp (Option.not_isSome_iff_eq_none.mp hnone)
      let entry : PendingOrder := ⟨request.clientOrderId, request.tickerId, request.side, request.qty⟩
      have hids : ((risk.pending ++ [entry]).map PendingOrder.clientOrderId).Nodup := by
        apply Table.nodup_split_iff.mpr
        rw [List.append_nil]
        exact ⟨hfresh, hkept.ids⟩
      refine .some ⟨⟨hids, fun other hmem => ?_, ?_⟩, reservationsOf_concat hids⟩
      · rcases List.mem_append.mp hmem with hold | hnew
        · exact hkept.reserved other hold
        · obtain rfl := List.mem_singleton.mp hnew
          exact hpositive
      · rw [List.length_append, List.length_singleton]
        exact Nat.lt_of_le_of_ne hkept.room hroom

theorem refines_onReplaced (hkept : risk.Kept) (oldId newId : OrderId) :
    Option.Rel Stands (risk.onReplaced oldId newId)
      (risk.reservations.act (TableOp.onReplaced oldId newId : TableOp cap)) := by
  simp only [onReplaced, ReservationMap.act, reservations_ne_none_iff]
  split
  case isTrue => exact .none
  case isFalse hvalid =>
      have hfresh : ∀ other ∈ risk.pending, other.clientOrderId ≠ newId :=
        Table.find_eq_none_iff.mp (Option.not_isSome_iff_eq_none.mp (not_or.mp hvalid).2)
      rcases risk.findPending_cases oldId with ⟨hfind, hnone⟩ | ⟨before, pending, after, hsplit⟩
      · rw [hfind, hnone]
        exact .none
      · rw [hsplit.find_eq, hsplit.reservations]
        refine .some (hkept.stands_replace { pending with clientOrderId := newId } hsplit ?_ ?_ ?_)
        · apply hkept.reserved pending
          simp [hsplit.split]
        · intro other hmem
          apply hfresh
          rw [hsplit.split]
          exact List.perm_middle.symm.subset (List.mem_cons_of_mem _ hmem)
        · simp only [hsplit.split, Table.set_split]
          exact List.Perm.refl _

theorem refines_onOrderResponse (hkept : risk.Kept) (response : OrderResponse) (pnl : PnLTracker cap) :
    Option.Rel Stands ((risk.onOrderResponse response pnl).map Prod.fst)
      (risk.reservations.act (.onOrderResponse response pnl)) := by
  rcases risk.findPending_cases response.clientOrderId with
    ⟨hfind, hnone⟩ | ⟨before, pending, after, hsplit⟩
  · simp only [onOrderResponse, hfind, ReservationMap.act, hnone]
    exact .none
  simp only [onOrderResponse, hsplit.find_eq, ReservationMap.act, hsplit.reservations, Option.bind_eq_bind,
    Option.bind_some]
  cases response.status with
  | accepted => exact .some ⟨hkept, rfl⟩
  | cancelRejected => exact .some ⟨hkept, rfl⟩
  | rejected => exact .some (stands_erasePending hkept hsplit)
  | executed =>
      dsimp only
      by_cases hvalid : response.executedQty = 0 ∨ pending.reservation.qty < response.executedQty
      · rw [if_pos hvalid, if_pos (by exact hvalid)]
        exact .none
      rw [if_neg hvalid, if_neg (by exact hvalid)]
      dsimp only [PendingOrder.reservation]
      cases pnl.onExecution pending.tickerId pending.side response.executionPrice
          response.executedQty with
      | none => exact .none
      | some pnl' => exact .some (stands_release hkept hsplit response.executedQty)
  | canceled =>
      dsimp only
      by_cases hvalid : response.canceledQty = 0 ∨ pending.reservation.qty < response.canceledQty
      · rw [if_pos hvalid, if_pos (by exact hvalid)]
        exact .none
      · rw [if_neg hvalid, if_neg (by exact hvalid)]
        exact .some (stands_release hkept hsplit response.canceledQty)

/-- **The table refines the map.** -/
theorem refines_run (hkept : risk.Kept) {op : TableOp cap} (hpositive : op.Positive) :
    Option.Rel Stands (risk.run? op) (risk.reservations.act op) := by
  cases op with
  | onSubmitted request => exact refines_onSubmitted hkept hpositive
  | onReplaced oldId newId => exact refines_onReplaced hkept oldId newId
  | onOrderResponse response pnl => exact refines_onOrderResponse hkept response pnl

theorem pending_registerTicker {ticker : TickerId} {limits : RiskLimits}
    (hregister : risk.registerTicker ticker limits = some risk') : risk'.pending = risk.pending := by
  unfold registerTicker at hregister
  split_ifs at hregister
  obtain rfl := Option.some.inj hregister
  rfl

theorem Stands.of_pending_eq {map : ReservationMap} (hstands : risk.Stands map)
    (hpending : risk'.pending = risk.pending) : risk'.Stands map := by
  refine ⟨⟨?_, ?_, ?_⟩, ?_⟩
  · rw [hpending]
    exact hstands.kept.ids
  · rw [hpending]
    exact hstands.kept.reserved
  · rw [hpending]
    exact hstands.kept.room
  · rw [← hstands.map, reservations, hpending, ← reservations]

theorem Stands.step {map : ReservationMap} (hstands : risk.Stands map) {op : Op cap}
    (hpositive : op.Positive) : (risk.step op).Stands (map.step op) := by
  obtain ⟨hkept, rfl⟩ := hstands
  cases op with
  | table op =>
      have hrefines := refines_run hkept hpositive
      rw [RiskManager.step, ReservationMap.step]
      generalize risk.run? op = after, risk.reservations.act op = map at hrefines ⊢
      cases hrefines with
      | none => exact ⟨hkept, rfl⟩
      | some hstands => exact hstands
  | registerTicker ticker limits =>
      have hstands : risk.Stands risk.reservations := ⟨hkept, rfl⟩
      rw [RiskManager.step]
      cases hregister : risk.registerTicker ticker limits with
      | none => exact hstands
      | some risk' => exact hstands.of_pending_eq (pending_registerTicker hregister)
  | disableTrading =>
      have hstands : risk.Stands risk.reservations := ⟨hkept, rfl⟩
      exact hstands.of_pending_eq rfl
  | enableTrading =>
      have hstands : risk.Stands risk.reservations := ⟨hkept, rfl⟩
      exact hstands.of_pending_eq rfl

theorem Stands.run {map : ReservationMap} (hstands : risk.Stands map) (ops : List (Op cap))
    (hpositive : ∀ op ∈ ops, op.Positive) :
    (ops.foldl RiskManager.step risk).Stands (ops.foldl ReservationMap.step map) := by
  induction ops generalizing risk map with
  | nil => exact hstands
  | cons op ops ih =>
      have hnext := hstands.step (hpositive op List.mem_cons_self)
      exact ih hnext fun other hmem => hpositive other (List.mem_cons_of_mem op hmem)

theorem stands_empty : ({} : RiskManager cap).Stands fun _ => none :=
  ⟨⟨List.nodup_nil, nofun, Nat.zero_le _⟩, rfl⟩

/-! ### The exposure -/

theorem Kept.pendingExposure_eq (hkept : risk.Kept) (ticker : TickerId) :
    risk.pendingExposure ticker =
      ∑ᶠ id, (risk.reservations id).elim 0 (Reservation.exposure ticker) := by
  rw [pendingExposure, Table.sum_eq_finsum hkept.ids]
  apply finsum_congr
  intro id
  rw [reservations, reservationsOf, Function.comp_apply]
  cases Table.lookup PendingOrder.clientOrderId risk.pending id with
  | none => rfl
  | some pending => rfl

theorem natAbs_exposureOf_le (ticker : TickerId) (pending : PendingOrder) :
    (exposureOf ticker pending).natAbs ≤ 2 ^ 32 - 1 := by
  have hlt : pending.reservedQty.toNat < 2 ^ 32 := pending.reservedQty.toNat_lt
  unfold exposureOf
  split
  · cases pending.side <;> simp only [Side.signed] <;> omega
  · simp

theorem natAbs_sum_exposureOf_le (ticker : TickerId) (pending : List PendingOrder) :
    ((pending.map (exposureOf ticker)).sum).natAbs ≤ pending.length * (2 ^ 32 - 1) := by
  induction pending with
  | nil => simp
  | cons entry pending ih =>
      have hentry := natAbs_exposureOf_le ticker entry
      rw [List.map_cons, List.sum_cons, List.length_cons]
      omega

/-- A table of this size never overflows the accumulator. -/
theorem Kept.fitsInt64_exposure (hkept : risk.Kept) (hcapacity : cap.maxPendingOrders ≤ 2 ^ 31)
    (ticker : TickerId) (count : Nat) :
    FitsInt64 ((risk.pending.take count).map (exposureOf ticker)).sum := by
  have hsum := natAbs_sum_exposureOf_le ticker (risk.pending.take count)
  have hlength := List.length_take_le' count risk.pending
  have hroom := hkept.room
  unfold FitsInt64
  omega

/-- **The pending table is a finite map.** After any operations the table is well kept and stands for
the map after the same operations; the next operation succeeds on the table exactly if it does on the
map. The exposure in a ticker is a sum over the map, and a table of at most 2^31 entries keeps every
partial sum in range. -/
theorem pending_stands_for_map (ops : List (Op cap)) (hpositive : ∀ op ∈ ops, op.Positive) :
    let risk := ops.foldl step ({} : RiskManager cap)
    risk.Stands (ops.foldl ReservationMap.step fun _ => none)
      ∧ (∀ op : TableOp cap, op.Positive →
        Option.Rel Stands (risk.run? op) (risk.reservations.act op))
      ∧ (∀ ticker, risk.pendingExposure ticker =
        ∑ᶠ id, (risk.reservations id).elim 0 (Reservation.exposure ticker))
      ∧ (cap.maxPendingOrders ≤ 2 ^ 31 → ∀ ticker count,
        FitsInt64 ((risk.pending.take count).map (exposureOf ticker)).sum) := by
  intro risk
  have hstands : risk.Stands (ops.foldl ReservationMap.step fun _ => none) := stands_empty.run ops hpositive
  refine ⟨hstands, ?_, ?_, ?_⟩
  · intro op hpositive
    exact refines_run hstands.kept hpositive
  · intro ticker
    exact hstands.kept.pendingExposure_eq ticker
  · intro hcapacity ticker count
    exact hstands.kept.fitsInt64_exposure hcapacity ticker count

/-- Of two orders, one is filled in part and re-keyed and the other one canceled. -/
def tableRun : List (Op ⟨1, 2, 2⟩) :=
  [.table (.onSubmitted { clientOrderId := 6, tickerId := 7, side := .sell, price := 1, qty := 3 }),
    .table (.onSubmitted { clientOrderId := 5, tickerId := 7, side := .buy, price := 1, qty := 10 }),
    .table (.onOrderResponse
      { clientOrderId := 5, status := .executed, executionPrice := 1, executedQty := 4 }
      { entries := [{ tickerId := 7 }] }),
    .table (.onReplaced 5 8),
    .table (.onOrderResponse { clientOrderId := 6, status := .canceled, canceledQty := 3 } {})]

theorem pending_stands_for_map_tableRun :
    (∀ op ∈ tableRun, op.Positive)
      ∧ (tableRun.foldl step {}).pending = [⟨8, 7, .buy, 6⟩]
      ∧ ∑ᶠ id, ((tableRun.foldl step {}).reservations id).elim 0 (Reservation.exposure 7) = 6 := by
  have hpositive : ∀ op ∈ tableRun, op.Positive := by
    simp [tableRun, Op.Positive, TableOp.Positive]
  have hpending : (tableRun.foldl step {}).pending = [⟨8, 7, .buy, 6⟩] := by decide
  refine ⟨hpositive, hpending, ?_⟩
  rw [← (pending_stands_for_map tableRun hpositive).2.2.1 7, pendingExposure, hpending]
  decide

/-! ### A table beyond the bound -/

/-- The entry of the largest order to buy. -/
def largeEntry (id : Nat) : PendingOrder := ⟨UInt64.ofNat id, 7, .buy, 4294967295⟩

/-- The largest orders, one after the other. -/
def largeSubmissions (count : Nat) : List (Op cap) :=
  (List.range count).map fun id => .table (.onSubmitted
    { clientOrderId := UInt64.ofNat id, tickerId := 7, side := .buy, price := 1, qty := 4294967295 })

theorem positive_largeSubmissions (count : Nat) :
    ∀ op ∈ (largeSubmissions count : List (Op cap)), op.Positive := by
  intro op hmem
  obtain ⟨id, -, rfl⟩ := List.mem_map.mp hmem
  exact (by decide : (0 : Quantity) < 4294967295)

theorem pending_largeSubmissions {count : Nat} (hroom : count ≤ cap.maxPendingOrders)
    (hids : count ≤ 2 ^ 64) :
    ((largeSubmissions count).foldl step ({} : RiskManager cap)).pending =
      (List.range count).map largeEntry := by
  induction count with
  | zero => rfl
  | succ count ih =>
      have hbefore := ih (by omega) (by omega)
      generalize hrisk : (largeSubmissions count).foldl step ({} : RiskManager cap) = risk at hbefore
      have hfresh : risk.findPending (UInt64.ofNat count) = none := by
        apply Table.find_eq_none_iff.mpr
        intro entry hmem heq
        rw [hbefore] at hmem
        obtain ⟨id, hid, rfl⟩ := List.mem_map.mp hmem
        have hlt : id < count := List.mem_range.mp hid
        have hnat : id % 2 ^ 64 = count % 2 ^ 64 := by
          simpa [largeEntry] using congrArg UInt64.toNat heq
        omega
      have hlength : risk.pending.length ≠ cap.maxPendingOrders := by
        rw [hbefore, List.length_map, List.length_range]
        omega
      rw [largeSubmissions, List.range_succ, List.map_append, List.foldl_append, ← largeSubmissions, hrisk,
        List.map_append, ← hbefore]
      simp [step, run?, onSubmitted, hfresh, hlength, largeEntry]

theorem pendingExposure_largeSubmissions {count : Nat} (hroom : count ≤ cap.maxPendingOrders)
    (hids : count ≤ 2 ^ 64) :
    ((largeSubmissions count).foldl step ({} : RiskManager cap)).pendingExposure 7 =
      count * 4294967295 := by
  have hentry : exposureOf 7 ∘ largeEntry = fun _ => 4294967295 := rfl
  rw [pendingExposure, pending_largeSubmissions hroom hids, List.map_map, hentry, List.map_const',
    List.length_range, List.sum_replicate, nsmul_eq_mul]

/-- The smallest capacity beyond the bound. -/
def largeTable : Capacity := ⟨1, 2 ^ 31 + 1, 1⟩

theorem largeTable_overflows :
    (∀ op ∈ (largeSubmissions (2 ^ 31 + 1) : List (Op largeTable)), op.Positive)
      ∧ ¬ FitsInt64 (((largeSubmissions (2 ^ 31 + 1)).foldl step
        ({} : RiskManager largeTable)).pendingExposure 7) := by
  have hroom : 2 ^ 31 + 1 ≤ largeTable.maxPendingOrders := Nat.le_refl _
  refine ⟨positive_largeSubmissions _, ?_⟩
  rw [pendingExposure_largeSubmissions hroom (by norm_num)]
  unfold FitsInt64
  norm_num

end RiskManager

end AlphaTrader
