import AlphaTrader.Proof.BookSimulation

/-!
# The book refines the flat book

Everything that can be observed of the book is what the flat book computes from its list: the counts,
the best prices with their quantities, and the orders on each level in order of arrival.
-/

namespace AlphaTrader

open Intrusive

namespace MarketOrderBook

variable {π : Type}

/-- The references and quantities met on one level, from its head along the forward pointers. -/
def levelQueue (fuel : Nat) (book : MarketOrderBook π) (side : Side) (price : Price) :
    Option (List (OrderId × Quantity)) :=
  match book.level? (side, price) with
  | none => some []
  | some level => do
      let orders ← walk (fun order => (book.memory order).next) fuel level.head
      return orders.map fun order => ((book.memory order).orderRef, (book.memory order).qty)

/-- The observables of the book are those of the flat book. -/
structure Observes (fuel : Nat) (book : MarketOrderBook π) (flat : FlatBook) : Prop where
  trackedOrders : book.trackedOrders = flat.trackedOrders
  bidLevels : book.bidLevels = (flat.prices .buy).length
  askLevels : book.askLevels = (flat.prices .sell).length
  empty : book.empty = flat.entries.isEmpty
  bbo : book.bbo = flat.bbo
  inSnapshot : book.inSnapshot = flat.inSnapshot
  queue : ∀ side price, book.levelQueue fuel side price = some (flat.queue side price)

/-! ### Best prices -/

instance : Std.LawfulOrderLeftLeaningMax Price where
  max_eq_left a b hle := by
    change (if a ≤ b then b else a) = a
    split
    case isTrue hle' => exact Int32.le_antisymm hle hle'
    case isFalse => rfl
  max_eq_right a b hlt := if_pos (Int32.le_of_lt (Int32.not_le.mp hlt))

/-- The key that an ordered map visits first is the least one in its order. -/
theorem isLE_of_head?_keys {α β : Type} {cmp : α → α → Ordering} [Std.TransCmp cmp]
    {map : Std.TreeMap α β cmp} {key : α} (hhead : map.keys.head? = some key) :
    ∀ other ∈ map.keys, (cmp key other).isLE := by
  have hordered := map.ordered_keys
  obtain ⟨rest, hkeys⟩ := List.head?_eq_some_iff.mp hhead
  rw [hkeys] at hordered ⊢
  intro other hmem
  rcases List.mem_cons.mp hmem with rfl | hmem
  · simp [Std.ReflCmp.compare_self]
  · simp [List.rel_of_pairwise_cons hordered hmem]

theorem length_eq_of_mem_iff {α : Type} {l l' : List α} (hnodup : l.Nodup) (hnodup' : l'.Nodup)
    (hmem : ∀ a, a ∈ l ↔ a ∈ l') : l.length = l'.length :=
  ((List.perm_ext_iff_of_nodup hnodup hnodup').mpr hmem).length_eq

section Entries

variable {flat : FlatBook} {orders : List Resting}

theorem mem_prices (hentries : orders.map Resting.entry = flat.entries) {side : Side}
    {price : Price} : price ∈ flat.prices side ↔ chain orders (side, price) ≠ [] := by
  rw [Ne, chain_eq_nil_iff, onLevel, List.filter_eq_nil_iff]
  simp only [FlatBook.prices, ← hentries, List.mem_dedup, List.mem_map, List.mem_filter,
    decide_eq_true_eq, not_forall, not_not, Resting.ptr, Prod.mk.injEq, exists_prop]
  constructor
  · rintro ⟨-, ⟨⟨order, hmem, rfl⟩, hside⟩, hprice⟩
    exact ⟨order, hmem, hside, hprice⟩
  · rintro ⟨order, hmem, hside, hprice⟩
    exact ⟨order.entry, ⟨⟨order, hmem, rfl⟩, hside⟩, hprice⟩

theorem queue_eq (hentries : orders.map Resting.entry = flat.entries) (side : Side)
    (price : Price) :
    flat.queue side price =
      (onLevel orders (side, price)).map fun order => (order.ref, order.qty) := by
  rw [FlatBook.queue, ← hentries, List.filter_map, List.map_map, onLevel]
  refine congrArg (List.map _) (List.filter_congr fun order _ => decide_eq_decide.mpr ?_)
  exact Prod.mk.injEq .. ▸ Iff.rfl

theorem totalQty_eq (hentries : orders.map Resting.entry = flat.entries) (side : Side)
    (price : Price) : flat.totalQty side price = (summary orders (side, price)).totalQty := by
  rw [FlatBook.totalQty, queue_eq hentries, List.map_map]
  rfl

end Entries

/-! ### The levels of one side -/

theorem bids_getElem? (book : MarketOrderBook π) (price : Price) :
    book.bids[price]? = book.level? (.buy, price) := rfl

theorem asks_getElem? (book : MarketOrderBook π) (price : Price) :
    book.asks[price]? = book.level? (.sell, price) := rfl

section Levels

variable {book : MarketOrderBook π} {flat : FlatBook} {orders : List Resting} {side : Side}
  {cmp : Price → Price → Ordering} [Std.TransCmp cmp] [Std.LawfulEqCmp cmp]
  {levels : Std.TreeMap Price PriceLevel cmp}

theorem Listed.mem_keys (hlisted : Listed book orders none)
    (hlevels : ∀ price, levels[price]? = book.level? (side, price))
    (hentries : orders.map Resting.entry = flat.entries) {price : Price} :
    price ∈ levels.keys ↔ price ∈ flat.prices side := by
  rw [mem_prices hentries, ← hlisted.level_ne_none, ← hlevels, Std.TreeMap.mem_keys]
  simp

theorem Listed.size_levels (hlisted : Listed book orders none)
    (hlevels : ∀ price, levels[price]? = book.level? (side, price))
    (hentries : orders.map Resting.entry = flat.entries) :
    levels.size = (flat.prices side).length := by
  rw [← Std.TreeMap.length_keys]
  exact length_eq_of_mem_iff Std.TreeMap.nodup_keys (List.nodup_dedup _) fun price =>
    hlisted.mem_keys hlevels hentries

theorem Listed.head?_levels (hlisted : Listed book orders none)
    (hlevels : ∀ price, levels[price]? = book.level? (side, price)) :
    levels.toList.head? = levels.keys.head?.map fun price => (price, summary orders (side, price)) := by
  rw [← Std.TreeMap.map_fst_toList_eq_keys, List.head?_map]
  cases hhead : levels.toList.head? with
  | none => rfl
  | some entry =>
      obtain ⟨price, level⟩ := entry
      have hlevel := Std.TreeMap.mem_toList_iff_getElem?_eq_some.mp (List.mem_of_head? hhead)
      rw [hlevels, hlisted.level] at hlevel
      split at hlevel
      · cases hlevel
      · simp [Option.some.inj hlevel]

end Levels

section Observables

variable [ObjectPool π] {book : MarketOrderBook π} {flat : FlatBook} {orders : List Resting}

theorem Represents.trackedOrders_eq (hrep : Represents book orders)
    (hentries : orders.map Resting.entry = flat.entries) :
    book.trackedOrders = flat.trackedOrders := by
  rw [trackedOrders, FlatBook.trackedOrders, ← hentries, List.length_map, ← Std.TreeMap.length_keys,
    ← List.length_map Resting.ref]
  refine length_eq_of_mem_iff Std.TreeMap.nodup_keys hrep.refs fun ref => ?_
  rw [Std.TreeMap.mem_keys, ← Std.TreeMap.contains_iff_mem, hrep.index.contains_iff, List.mem_map]

theorem Represents.bestBid_eq (hrep : Represents book orders)
    (hentries : orders.map Resting.entry = flat.entries) :
    book.bids.keys.head? = flat.bestBid := by
  have hmem : ∀ price, price ∈ book.bids.keys ↔ price ∈ flat.prices .buy := fun price =>
    hrep.toListed.mem_keys book.bids_getElem? hentries
  cases hhead : book.bids.keys.head? with
  | none =>
      have hnil : flat.prices .buy = [] := List.eq_nil_iff_forall_not_mem.mpr fun price hprice => by
        simpa [List.head?_eq_none_iff.mp hhead] using (hmem price).mpr hprice
      simp [FlatBook.bestBid, hnil]
  | some price =>
      refine (List.max?_eq_some_iff.mpr ⟨(hmem price).mp (List.mem_of_head? hhead),
        fun other hother => ?_⟩).symm
      exact Std.isLE_compare.mp (isLE_of_head?_keys hhead other ((hmem other).mpr hother))

theorem Represents.bestAsk_eq (hrep : Represents book orders)
    (hentries : orders.map Resting.entry = flat.entries) :
    book.asks.keys.head? = flat.bestAsk := by
  have hmem : ∀ price, price ∈ book.asks.keys ↔ price ∈ flat.prices .sell := fun price =>
    hrep.toListed.mem_keys book.asks_getElem? hentries
  cases hhead : book.asks.keys.head? with
  | none =>
      have hnil : flat.prices .sell = [] := List.eq_nil_iff_forall_not_mem.mpr fun price hprice => by
        simpa [List.head?_eq_none_iff.mp hhead] using (hmem price).mpr hprice
      simp [FlatBook.bestAsk, hnil]
  | some price =>
      refine (List.min?_eq_some_iff.mpr ⟨(hmem price).mp (List.mem_of_head? hhead),
        fun other hother => ?_⟩).symm
      exact Std.isLE_compare.mp (isLE_of_head?_keys hhead other ((hmem other).mpr hother))

theorem Represents.bbo_eq (hrep : Represents book orders) (hbest : book.updateBBO = book)
    (hentries : orders.map Resting.entry = flat.entries) : book.bbo = flat.bbo := by
  have hbid := hrep.toListed.head?_levels book.bids_getElem?
  have hask := hrep.toListed.head?_levels book.asks_getElem?
  rw [hrep.bestBid_eq hentries] at hbid
  rw [hrep.bestAsk_eq hentries] at hask
  have hbbo : book.bbo = book.updateBBO.bbo := (congrArg MarketOrderBook.bbo hbest).symm
  rw [hbbo, FlatBook.bbo, BBO.mk.injEq]
  simp only [MarketOrderBook.updateBBO, hbid, hask]
  constructor
  · cases flat.bestBid <;> rfl
  refine ⟨?_, ?_, ?_⟩
  · cases flat.bestBid with
    | none => rfl
    | some price => exact (totalQty_eq hentries .buy price).symm
  · cases flat.bestAsk <;> rfl
  · cases flat.bestAsk with
    | none => rfl
    | some price => exact (totalQty_eq hentries .sell price).symm

theorem Represents.levelQueue_eq (hrep : Represents book orders)
    (hentries : orders.map Resting.entry = flat.entries) {fuel : Nat} (hfuel : orders.length ≤ fuel)
    (side : Side) (price : Price) :
    book.levelQueue fuel side price = some (flat.queue side price) := by
  rw [queue_eq hentries, levelQueue]
  cases hlevel : book.level? (side, price) with
  | none =>
      have hchain : onLevel orders (side, price) = [] := by
        by_contra hne
        rw [← chain_eq_nil_iff] at hne
        exact hrep.toListed.level_ne_none.mpr hne hlevel
      simp [hchain]
  | some level =>
      simp only [hrep.toListed.walk_level hfuel hlevel, Option.bind_eq_bind, Option.bind_some, chain,
        List.map_map, Option.pure_def, Option.some.injEq]
      refine List.map_congr_left fun order hmem => ?_
      obtain ⟨href, hqty⟩ := hrep.stored order (List.mem_filter.mp hmem).1
      simp [href, hqty]

theorem Simulates.observes (hsim : Simulates book flat) {fuel : Nat}
    (hfuel : flat.entries.length ≤ fuel) : Observes fuel book flat := by
  obtain ⟨orders, hrep, hentries⟩ := hsim.orders
  rw [← hentries, List.length_map] at hfuel
  have hbids := hrep.toListed.size_levels book.bids_getElem? hentries
  have hasks := hrep.toListed.size_levels book.asks_getElem? hentries
  refine ⟨hrep.trackedOrders_eq hentries, hbids, hasks, ?_, hrep.bbo_eq hsim.best hentries,
    hsim.inSnapshot, hrep.levelQueue_eq hentries hfuel⟩
  rw [flat.isEmpty_entries, empty, Std.TreeMap.isEmpty_eq_size_eq_zero,
    Std.TreeMap.isEmpty_eq_size_eq_zero, hbids, hasks]
  cases flat.prices .buy <;> cases flat.prices .sell <;> rfl

/-- **The refinement**: over every run without replace the book shows what the flat book shows. -/
theorem observes_applyUpdates (tickerId : TickerId) (updates : List MarketUpdate) (fuel : Nat)
    (hreplace : ∀ update ∈ updates, update.type ≠ .replace) (hfuel : updates.length ≤ fuel) :
    ∃ book, (init π tickerId).applyUpdates fuel updates = some book
      ∧ Observes fuel book (updates.foldl FlatBook.applyUpdate (FlatBook.init tickerId)) := by
  have hclean : Run.Along (applyUpdate fuel) RelinksCleanly (init π tickerId) updates :=
    Run.Along.of_forall_mem
      (fun update hmem _ => relinksCleanly_of_ne_replace (hreplace update hmem)) _
  obtain ⟨book, hrun, hsim, hlength⟩ := simulates_applyUpdates (simulates_init tickerId)
    (by simpa [FlatBook.init] using hfuel) hclean
  exact ⟨book, hrun, hsim.observes hlength⟩

/-- A duplicate add, an oversized execution, an update of another ticker and a snapshot. -/
theorem observes_applyUpdates_snapshot :
    ∃ book, (init FreeListPool 7).applyUpdates 6
        [{ type := .add, tickerId := 7, orderRef := 1, price := 100, qty := 5 },
          { type := .add, tickerId := 7, orderRef := 1, price := 101, qty := 6 },
          { type := .snapshotStart },
          { type := .addMpid, tickerId := 7, orderRef := 2, side := .sell, price := 102, qty := 4 },
          { type := .add, tickerId := 8, orderRef := 3, price := 100, qty := 5 },
          { type := .execute, tickerId := 7, orderRef := 2, qty := 9 }] = some book
      ∧ Observes 6 book { tickerId := 7, inSnapshot := true } :=
  observes_applyUpdates 7 _ 6 (by decide) (by decide)

end Observables

end MarketOrderBook

end AlphaTrader
