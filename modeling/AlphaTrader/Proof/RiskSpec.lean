import AlphaTrader.Trading.RiskManager

/-!
# What the positions and the reservations do

An accepted execution moves the confirmed position by its signed quantity and no other position. A
response that the risk manager accepts finds the reservation of its order and takes off what the
response says.
-/

namespace AlphaTrader

variable {cap : Capacity}

/-! ### Positions -/

namespace PnLTracker

variable {pnl pnl' : PnLTracker cap} {ticker : TickerId} {side : Side} {price : Price}
  {qty : Quantity}

theorem netQty_updateUnrealized {position position' : Position}
    (hupdate : updateUnrealized position = some position') : position'.netQty = position.netQty := by
  simp only [updateUnrealized] at hupdate
  split at hupdate
  · obtain rfl := Option.some.inj hupdate
    rfl
  · split at hupdate
    · obtain rfl := Option.some.inj hupdate
      rfl
    · cases hupdate

theorem netQty_applyExecution {position position' : Position}
    (happly : applyExecution position side price qty = some position') :
    position'.netQty = position.netQty + side.signed qty := by
  simp only [applyExecution] at happly
  by_cases hzero : position.netQty = 0
  · rw [if_pos hzero] at happly
    obtain rfl := Option.some.inj happly
    simp [hzero]
  rw [if_neg hzero] at happly
  by_cases hsign : 0 < position.netQty ↔ 0 < side.signed qty
  · rw [if_pos hsign] at happly
    obtain rfl := Option.some.inj happly
    rfl
  rw [if_neg hsign] at happly
  by_cases hfits : FitsInt64 (realizedOnClose position price qty)
  · rw [if_neg (not_not.mpr hfits)] at happly
    by_cases hflip : (position.netQty.natAbs : Int) < qty.toNat
    · rw [if_pos hflip] at happly
      obtain rfl := Option.some.inj happly
      cases side <;> simp only [Side.signed, reduceCtorEq, if_true, if_false] at hsign ⊢ <;> omega
    · rw [if_neg hflip] at happly
      obtain rfl := Option.some.inj happly
      rfl
  · rw [if_pos hfits] at happly
    cases happly

theorem get_setPosition {index : Nat} {entry : PnLEntry}
    (hfind : pnl.find ticker = some (index, entry)) (position : Position) (other : TickerId) :
    (pnl.setPosition index entry position).get other =
      if other = ticker then some position else pnl.get other := by
  obtain ⟨before, after, hentries, rfl, hticker, hskipped⟩ := Table.exists_split_of_find hfind
  have hset : (pnl.setPosition before.length entry position).entries =
      before ++ { entry with position := position } :: after := by
    simp [setPosition, hentries]
  by_cases heq : other = ticker
  · subst heq
    simp only [get, find, hset, if_true]
    rw [Table.find_split (x := { entry with position := position }) before after hskipped hticker]
    rfl
  · have hne : entry.tickerId ≠ other := fun h => heq (h.symm.trans hticker)
    simp only [get, find, hset, hentries, heq, if_false]
    rw [Table.find_split_of_ne (x := { entry with position := position }) (y := entry) before after
      hne hne]

/-- The position of the ticker is written, and no other. -/
structure Writes (pnl : PnLTracker cap) (ticker : TickerId) (position : Position)
    (pnl' : PnLTracker cap) : Prop where
  get : ∀ other, pnl'.get other = if other = ticker then some position else pnl.get other
  tickers : pnl'.entries.map PnLEntry.tickerId = pnl.entries.map PnLEntry.tickerId

theorem writes_setPosition {index : Nat} {entry : PnLEntry}
    (hfind : pnl.find ticker = some (index, entry)) (position : Position) :
    Writes pnl ticker position (pnl.setPosition index entry position) := by
  refine ⟨get_setPosition hfind position, ?_⟩
  obtain ⟨before, after, hentries, rfl, -, -⟩ := Table.exists_split_of_find hfind
  simp [setPosition, hentries]

theorem Writes.netQty {position position' : Position} (hwrites : Writes pnl ticker position' pnl')
    (hget : pnl.get ticker = some position) (other : TickerId) :
    pnl'.netQty other =
      pnl.netQty other + if other = ticker then position'.netQty - position.netQty else 0 := by
  simp only [PnLTracker.netQty, hwrites.get]
  by_cases heq : other = ticker
  · subst heq
    simp [hget]
  · simp [heq]

theorem get_registerTicker (hregister : pnl.registerTicker ticker = some pnl') (other : TickerId) :
    pnl'.get other = if other = ticker ∧ pnl.get ticker = none then some {} else pnl.get other := by
  unfold registerTicker at hregister
  split at hregister
  case isTrue hknown =>
      obtain rfl := Option.some.inj hregister
      have hne : pnl.get ticker ≠ none := Option.isSome_iff_ne_none.mp hknown
      rw [if_neg fun hnew => hne hnew.2]
  case isFalse hunknown =>
      split at hregister
      case isTrue => cases hregister
      case isFalse =>
          obtain rfl := Option.some.inj hregister
          have hnone : pnl.get ticker = none := Option.not_isSome_iff_eq_none.mp hunknown
          have hskipped : ∀ entry ∈ pnl.entries, entry.tickerId ≠ ticker :=
            Table.find_eq_none_iff.mp (Option.map_eq_none_iff.mp hnone)
          by_cases heq : other = ticker
          · subst heq
            rw [if_pos ⟨rfl, hnone⟩, get, find,
              Table.find_split (x := { tickerId := other }) pnl.entries [] hskipped rfl]
            rfl
          · rw [if_neg fun hnew => heq hnew.1, get, find,
              Table.find_concat_of_ne (x := { tickerId := ticker }) pnl.entries (Ne.symm heq)]
            rfl

/-- What an accepted execution has passed, and what it writes. -/
theorem onExecution_spec (hexec : pnl.onExecution ticker side price qty = some pnl') :
    price ≠ priceInvalid ∧ qty ≠ 0 ∧ ∃ position applied position',
      pnl.get ticker = some position ∧ applyExecution position side price qty = some applied
        ∧ updateUnrealized applied = some position' ∧ Writes pnl ticker position' pnl' := by
  obtain ⟨⟨index, entry⟩, hfind, hrest⟩ := Option.bind_eq_some_iff.mp hexec
  dsimp only at hrest
  split at hrest
  case isTrue => cases hrest
  case isFalse hvalid =>
      obtain ⟨hprice, hqty⟩ := not_or.mp hvalid
      obtain ⟨applied, happly, hrest⟩ := Option.bind_eq_some_iff.mp hrest
      obtain ⟨updated, hupdate, hrest⟩ := Option.bind_eq_some_iff.mp hrest
      obtain rfl := Option.some.inj hrest
      exact ⟨hprice, hqty, entry.position, applied, updated, by simp [get, hfind], happly, hupdate,
        writes_setPosition hfind updated⟩

theorem onMark_spec (hmark : pnl.onMark ticker price = some pnl') :
    ∃ position position', pnl.get ticker = some position
      ∧ updateUnrealized { position with markPrice := price } = some position'
      ∧ Writes pnl ticker position' pnl' := by
  obtain ⟨⟨index, entry⟩, hfind, hrest⟩ := Option.bind_eq_some_iff.mp hmark
  dsimp only at hrest
  split at hrest
  case isTrue => cases hrest
  case isFalse =>
      obtain ⟨updated, hupdate, hrest⟩ := Option.bind_eq_some_iff.mp hrest
      obtain rfl := Option.some.inj hrest
      exact ⟨entry.position, updated, by simp [get, hfind], hupdate, writes_setPosition hfind updated⟩

/-- **An execution** moves the position of its ticker by the signed quantity. -/
theorem netQty_onExecution (hexec : pnl.onExecution ticker side price qty = some pnl')
    (other : TickerId) :
    pnl'.netQty other = pnl.netQty other + if other = ticker then side.signed qty else 0 := by
  obtain ⟨-, -, position, applied, position', hget, happly, hupdate, hwrites⟩ := onExecution_spec hexec
  rw [hwrites.netQty hget, netQty_updateUnrealized hupdate, netQty_applyExecution happly,
    add_sub_cancel_left]

theorem netQty_onMark (hmark : pnl.onMark ticker price = some pnl') (other : TickerId) :
    pnl'.netQty other = pnl.netQty other := by
  obtain ⟨position, position', hget, hupdate, hwrites⟩ := onMark_spec hmark
  rw [hwrites.netQty hget, netQty_updateUnrealized hupdate, sub_self, ite_self, add_zero]

theorem isSome_get_iff : (pnl.get ticker).isSome ↔ ticker ∈ pnl.entries.map PnLEntry.tickerId := by
  rw [get, Option.isSome_map, find, Table.find_isSome_iff]

theorem tickers_onExecution (hexec : pnl.onExecution ticker side price qty = some pnl') :
    pnl'.entries.map PnLEntry.tickerId = pnl.entries.map PnLEntry.tickerId := by
  obtain ⟨-, -, _, _, _, -, -, -, hwrites⟩ := onExecution_spec hexec
  exact hwrites.tickers

theorem tickers_onMark (hmark : pnl.onMark ticker price = some pnl') :
    pnl'.entries.map PnLEntry.tickerId = pnl.entries.map PnLEntry.tickerId := by
  obtain ⟨_, _, -, -, hwrites⟩ := onMark_spec hmark
  exact hwrites.tickers

end PnLTracker

/-! ### Reservations -/

namespace RiskManager

variable {risk risk' : RiskManager cap} {pnl pnl' : PnLTracker cap} {response : OrderResponse}

/-- What is left of a reservation: nothing once it is used up. -/
def remainder (pending : PendingOrder) (qty : Quantity) : List PendingOrder :=
  if pending.reservedQty - qty = 0 then []
  else [{ pending with reservedQty := pending.reservedQty - qty }]

/-- The table split at the reservation of an order. -/
structure SplitAt (risk : RiskManager cap) (id : OrderId) (before : List PendingOrder)
    (pending : PendingOrder) (after : List PendingOrder) : Prop where
  split : risk.pending = before ++ pending :: after
  found : pending.clientOrderId = id
  skipped : ∀ other ∈ before, other.clientOrderId ≠ id

theorem SplitAt.split_middle {id : OrderId} {before after : List PendingOrder} {pending : PendingOrder}
    (hsplit : risk.SplitAt id before pending after) : risk.pending = before ++ [pending] ++ after := by
  simp [hsplit.split]

theorem SplitAt.find_eq {id : OrderId} {before after : List PendingOrder} {pending : PendingOrder}
    (hsplit : risk.SplitAt id before pending after) :
    risk.findPending id = some (before.length, pending) := by
  rw [findPending, hsplit.split]
  exact Table.find_split before after hsplit.skipped hsplit.found

theorem pending_release (before after : List PendingOrder) (pending : PendingOrder)
    (hpending : risk.pending = before ++ pending :: after) (qty : Quantity) :
    (risk.release before.length pending qty).pending.Perm (before ++ remainder pending qty ++ after) := by
  unfold release remainder
  simp only [hpending, Table.set_split]
  split
  · rw [List.append_nil]
    simp only [erasePending]
    exact Table.removeAt_split before after _
  · simp

/-- **A response** that the risk manager accepts acts on the reservation of its order. -/
theorem onOrderResponse_spec (haccepted : risk.onOrderResponse response pnl = some (risk', pnl')) :
    ∃ before pending after, risk.SplitAt response.clientOrderId before pending after
      ∧ risk'.tickers = risk.tickers ∧ risk'.tradingEnabled = risk.tradingEnabled
      ∧ match response.status with
        | .accepted | .cancelRejected => risk' = risk ∧ pnl' = pnl
        | .executed => response.executedQty ≠ 0 ∧ response.executedQty ≤ pending.reservedQty
            ∧ pnl.onExecution pending.tickerId pending.side response.executionPrice
              response.executedQty = some pnl'
            ∧ risk'.pending.Perm (before ++ remainder pending response.executedQty ++ after)
        | .canceled => response.canceledQty ≠ 0 ∧ response.canceledQty ≤ pending.reservedQty
            ∧ pnl' = pnl
            ∧ risk'.pending.Perm (before ++ remainder pending response.canceledQty ++ after)
        | .rejected => pnl' = pnl ∧ risk'.pending.Perm (before ++ after) := by
  obtain ⟨⟨index, pending⟩, hfind, hrest⟩ := Option.bind_eq_some_iff.mp haccepted
  obtain ⟨before, after, hpending, rfl, hid, hbefore⟩ := Table.exists_split_of_find hfind
  refine ⟨before, pending, after, ⟨hpending, hid, hbefore⟩, ?_⟩
  have hframe : ∀ qty, (risk.release before.length pending qty).tickers = risk.tickers
      ∧ (risk.release before.length pending qty).tradingEnabled = risk.tradingEnabled := by
    intro qty
    simp only [release]
    split <;> exact ⟨rfl, rfl⟩
  cases hstatus : response.status with
  | accepted =>
      simp only [hstatus] at hrest
      obtain ⟨rfl, rfl⟩ := Prod.mk.injEq .. ▸ Option.some.inj hrest
      exact ⟨rfl, rfl, rfl, rfl⟩
  | cancelRejected =>
      simp only [hstatus] at hrest
      obtain ⟨rfl, rfl⟩ := Prod.mk.injEq .. ▸ Option.some.inj hrest
      exact ⟨rfl, rfl, rfl, rfl⟩
  | executed =>
      simp only [hstatus] at hrest
      split at hrest
      case isTrue => cases hrest
      case isFalse hqty =>
          obtain ⟨hnonzero, hle⟩ := not_or.mp hqty
          obtain ⟨executed, hexec, hrest⟩ := Option.bind_eq_some_iff.mp hrest
          obtain ⟨rfl, rfl⟩ := Prod.mk.injEq .. ▸ Option.some.inj hrest
          exact ⟨(hframe _).1, (hframe _).2, hnonzero, UInt32.not_lt.mp hle, hexec,
            pending_release before after pending hpending _⟩
  | canceled =>
      simp only [hstatus] at hrest
      split at hrest
      case isTrue => cases hrest
      case isFalse hqty =>
          obtain ⟨hnonzero, hle⟩ := not_or.mp hqty
          obtain ⟨rfl, rfl⟩ := Prod.mk.injEq .. ▸ Option.some.inj hrest
          exact ⟨(hframe _).1, (hframe _).2, hnonzero, UInt32.not_lt.mp hle, rfl,
            pending_release before after pending hpending _⟩
  | rejected =>
      simp only [hstatus] at hrest
      obtain ⟨rfl, rfl⟩ := Prod.mk.injEq .. ▸ Option.some.inj hrest
      refine ⟨rfl, rfl, rfl, ?_⟩
      simp only [erasePending, hpending]
      exact Table.removeAt_split before after pending

/-- Only an execution changes a position. -/
theorem pnl_onOrderResponse (haccepted : risk.onOrderResponse response pnl = some (risk', pnl'))
    (hstatus : response.status ≠ .executed) : pnl' = pnl := by
  obtain ⟨_, _, _, _, _, _, hmatch⟩ := onOrderResponse_spec haccepted
  cases heq : response.status with
  | accepted =>
      simp only [heq] at hmatch
      exact hmatch.2
  | cancelRejected =>
      simp only [heq] at hmatch
      exact hmatch.2
  | executed => exact absurd heq hstatus
  | canceled =>
      simp only [heq] at hmatch
      exact hmatch.2.2.1
  | rejected =>
      simp only [heq] at hmatch
      exact hmatch.1

theorem mem_pending_of_onOrderResponse {pending : PendingOrder}
    (haccepted : risk.onOrderResponse response pnl = some (risk', pnl'))
    (hmem : pending ∈ risk.pending) (hid : pending.clientOrderId ≠ response.clientOrderId) :
    pending ∈ risk'.pending := by
  obtain ⟨pendingBefore, found, pendingAfter, hsplit, -, -, hmatch⟩ := onOrderResponse_spec haccepted
  have hrest : pending ∈ pendingBefore ∨ pending ∈ pendingAfter := by
    rw [hsplit.split] at hmem
    rcases List.mem_append.mp hmem with hbefore | hcons
    · exact Or.inl hbefore
    · rcases List.mem_cons.mp hcons with rfl | hafter
      · exact absurd hsplit.found hid
      · exact Or.inr hafter
  cases hstatus : response.status with
  | accepted =>
      simp only [hstatus] at hmatch
      rw [hmatch.1]
      exact hmem
  | cancelRejected =>
      simp only [hstatus] at hmatch
      rw [hmatch.1]
      exact hmem
  | executed =>
      simp only [hstatus] at hmatch
      refine hmatch.2.2.2.symm.subset ?_
      simp only [List.mem_append]
      tauto
  | canceled =>
      simp only [hstatus] at hmatch
      refine hmatch.2.2.2.symm.subset ?_
      simp only [List.mem_append]
      tauto
  | rejected =>
      simp only [hstatus] at hmatch
      refine hmatch.2.symm.subset ?_
      simp only [List.mem_append]
      tauto

theorem exists_pending_of_onOrderResponse {pending' : PendingOrder}
    (haccepted : risk.onOrderResponse response pnl = some (risk', pnl'))
    (hmem : pending' ∈ risk'.pending) :
    ∃ pending ∈ risk.pending, pending.clientOrderId = pending'.clientOrderId
      ∧ pending.tickerId = pending'.tickerId ∧ pending.side = pending'.side := by
  obtain ⟨before, found, after, hsplit, -, -, hmatch⟩ := onOrderResponse_spec haccepted
  have hreleased : ∀ qty, pending' ∈ before ++ remainder found qty ++ after →
      ∃ pending ∈ risk.pending, pending.clientOrderId = pending'.clientOrderId
        ∧ pending.tickerId = pending'.tickerId ∧ pending.side = pending'.side := by
    intro qty hmem
    rw [hsplit.split]
    rcases List.mem_append.mp hmem with hleft | hafter
    · rcases List.mem_append.mp hleft with hbefore | hremainder
      · exact ⟨pending', by simp [hbefore], rfl, rfl, rfl⟩
      · unfold remainder at hremainder
        split at hremainder
        · cases hremainder
        · obtain rfl := List.mem_singleton.mp hremainder
          exact ⟨found, by simp, rfl, rfl, rfl⟩
    · exact ⟨pending', by simp [hafter], rfl, rfl, rfl⟩
  cases hstatus : response.status with
  | accepted =>
      simp only [hstatus] at hmatch
      rw [hmatch.1] at hmem
      exact ⟨pending', hmem, rfl, rfl, rfl⟩
  | cancelRejected =>
      simp only [hstatus] at hmatch
      rw [hmatch.1] at hmem
      exact ⟨pending', hmem, rfl, rfl, rfl⟩
  | executed =>
      simp only [hstatus] at hmatch
      exact hreleased _ (hmatch.2.2.2.subset hmem)
  | canceled =>
      simp only [hstatus] at hmatch
      exact hreleased _ (hmatch.2.2.2.subset hmem)
  | rejected =>
      simp only [hstatus] at hmatch
      have hrest := hmatch.2.subset hmem
      refine ⟨pending', ?_, rfl, rfl, rfl⟩
      rw [hsplit.split]
      rcases List.mem_append.mp hrest with hbefore | hafter
      · simp [hbefore]
      · simp [hafter]

theorem onOrderResponse_executed {before after : List PendingOrder} {pending : PendingOrder}
    (hsplit : risk.SplitAt response.clientOrderId before pending after)
    (hstatus : response.status = .executed) (hpositive : response.executedQty ≠ 0)
    (hle : response.executedQty ≤ pending.reservedQty)
    (hexec : pnl.onExecution pending.tickerId pending.side response.executionPrice
      response.executedQty = some pnl') :
    risk.onOrderResponse response pnl =
      some (risk.release before.length pending response.executedQty, pnl') := by
  have hvalid : ¬ (response.executedQty = 0 ∨ pending.reservedQty < response.executedQty) :=
    not_or.mpr ⟨hpositive, UInt32.not_lt.mpr hle⟩
  simp only [onOrderResponse, hsplit.find_eq, Option.bind_eq_bind, Option.bind_some, hstatus,
    if_neg hvalid, hexec]
  rfl

theorem onOrderResponse_canceled {before after : List PendingOrder} {pending : PendingOrder}
    (hsplit : risk.SplitAt response.clientOrderId before pending after)
    (hstatus : response.status = .canceled) (hpositive : response.canceledQty ≠ 0)
    (hle : response.canceledQty ≤ pending.reservedQty) :
    risk.onOrderResponse response pnl =
      some (risk.release before.length pending response.canceledQty, pnl) := by
  have hvalid : ¬ (response.canceledQty = 0 ∨ pending.reservedQty < response.canceledQty) :=
    not_or.mpr ⟨hpositive, UInt32.not_lt.mpr hle⟩
  simp only [onOrderResponse, hsplit.find_eq, Option.bind_eq_bind, Option.bind_some, hstatus,
    if_neg hvalid]
  rfl

theorem onOrderResponse_rejected {before after : List PendingOrder} {pending : PendingOrder}
    (hsplit : risk.SplitAt response.clientOrderId before pending after)
    (hstatus : response.status = .rejected) :
    risk.onOrderResponse response pnl = some (risk.erasePending before.length, pnl) := by
  simp only [onOrderResponse, hsplit.find_eq, Option.bind_eq_bind, Option.bind_some, hstatus]
  rfl

end RiskManager

end AlphaTrader
