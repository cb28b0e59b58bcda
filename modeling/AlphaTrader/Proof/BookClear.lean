import AlphaTrader.Proof.BookRepresents

/-!
# Clearing a book

`clear` walks every level of both maps and returns the orders it meets to the pool. On a book that
represents a list of orders the walks end, and together they meet every order once, because the
levels partition the orders. What remains is the empty book with nothing in use in its pool.
-/

namespace AlphaTrader

open Intrusive

namespace MarketOrderBook

variable {π : Type}

/-- The levels of a book, in the order in which `clear` visits them. -/
def levelPtrs (book : MarketOrderBook π) : List LevelPtr :=
  book.bids.keys.map (Side.buy, ·) ++ book.asks.keys.map (Side.sell, ·)

theorem mem_levelPtrs {book : MarketOrderBook π} {ptr : LevelPtr} :
    ptr ∈ book.levelPtrs ↔ book.level? ptr ≠ none := by
  obtain ⟨side, price⟩ := ptr
  cases side <;> simp [levelPtrs, level?, Std.TreeMap.mem_keys]

theorem nodup_levelPtrs (book : MarketOrderBook π) : book.levelPtrs.Nodup := by
  refine List.nodup_append.mpr ⟨?_, ?_, ?_⟩
  · exact Std.TreeMap.nodup_keys.map (Prod.mk_right_injective Side.buy)
  · exact Std.TreeMap.nodup_keys.map (Prod.mk_right_injective Side.sell)
  · intro bid hbid ask hask
    obtain ⟨price, -, rfl⟩ := List.mem_map.mp hbid
    obtain ⟨price', -, rfl⟩ := List.mem_map.mp hask
    simp

section Walks

variable {book : MarketOrderBook π} {orders : List Resting} {fuel : Nat}

theorem length_chain_le (orders : List Resting) (ptr : LevelPtr) :
    (chain orders ptr).length ≤ orders.length := by
  rw [chain, List.length_map]
  exact List.length_filter_le ..

theorem Listed.walk_level (hlisted : Listed book orders none) (hfuel : orders.length ≤ fuel)
    {ptr : LevelPtr} {level : PriceLevel} (hlevel : book.level? ptr = some level) :
    walk (fun order => (book.memory order).next) fuel level.head = some (chain orders ptr) := by
  have hsummary : level = summary orders ptr := by
    rw [hlisted.level] at hlevel
    split at hlevel
    · cases hlevel
    · exact (Option.some.inj hlevel).symm
  rw [hsummary]
  exact walk_segment (hlisted.linked ptr) ((length_chain_le orders ptr).trans hfuel)

theorem Listed.mapM_walk (hlisted : Listed book orders none) (hfuel : orders.length ≤ fuel)
    (side : Side) (entries : List (Price × PriceLevel))
    (hentries : ∀ entry ∈ entries, book.level? (side, entry.1) = some entry.2) :
    (entries.mapM fun entry => walk (fun order => (book.memory order).next) fuel entry.2.head) =
      some ((entries.map Prod.fst).map fun price => chain orders (side, price)) := by
  induction entries with
  | nil => rfl
  | cons entry entries ih =>
      rw [List.mapM_cons, hlisted.walk_level hfuel (hentries entry (by simp)),
        ih fun other hother => hentries other (by simp [hother])]
      rfl

theorem Listed.clearedOrders_eq (hlisted : Listed book orders none)
    (hfuel : orders.length ≤ fuel) :
    book.clearedOrders fuel = some (book.levelPtrs.flatMap (chain orders)) := by
  have hbids := hlisted.mapM_walk hfuel .buy book.bids.toList fun entry hmem =>
    Std.TreeMap.mem_toList_iff_getElem?_eq_some.mp hmem
  have hasks := hlisted.mapM_walk hfuel .sell book.asks.toList fun entry hmem =>
    Std.TreeMap.mem_toList_iff_getElem?_eq_some.mp hmem
  rw [Std.TreeMap.map_fst_toList_eq_keys] at hbids hasks
  rw [clearedOrders, hbids, hasks, levelPtrs, List.flatMap_append, List.flatMap_map,
    List.flatMap_map]
  rfl

theorem Listed.level_ne_none (hlisted : Listed book orders none) {ptr : LevelPtr} :
    book.level? ptr ≠ none ↔ chain orders ptr ≠ [] := by
  rw [hlisted.level]
  by_cases hchain : chain orders ptr = [] <;> simp [hchain]

theorem Listed.mem_cleared (hlisted : Listed book orders none) {a : Addr} :
    a ∈ book.levelPtrs.flatMap (chain orders) ↔ a ∈ orders.map Resting.addr := by
  rw [List.mem_flatMap]
  constructor
  · rintro ⟨ptr, -, hmem⟩
    exact mem_addrs_of_mem_chain hmem
  · intro hmem
    obtain ⟨order, horder, rfl⟩ := List.mem_map.mp hmem
    have hchain : order.addr ∈ chain orders order.ptr := mem_chain.mpr ⟨order, horder, rfl, rfl⟩
    exact ⟨order.ptr, mem_levelPtrs.mpr (hlisted.level_ne_none.mpr (List.ne_nil_of_mem hchain)),
      hchain⟩

theorem Listed.nodup_cleared (hlisted : Listed book orders none) :
    (book.levelPtrs.flatMap (chain orders)).Nodup := by
  refine List.nodup_flatMap.mpr ⟨fun ptr _ => chain_nodup hlisted.addrs ptr, ?_⟩
  refine (nodup_levelPtrs book).imp fun {ptr ptr'} hne a hmem hmem' => ?_
  exact hne (ptr_eq_of_mem_chain hlisted.addrs hmem hmem')

end Walks

variable [ObjectPool π]

/-- Returning orders that are all in use and all different takes exactly them out of use. -/
theorem live_foldl_deallocate {l : List Addr} {pool : π} (hnodup : l.Nodup)
    (hlive : ∀ a ∈ l, ObjectPool.live pool a) (b : Addr) :
    ObjectPool.live (l.foldl ObjectPool.deallocate pool) b ↔ b ∉ l ∧ ObjectPool.live pool b := by
  induction l generalizing pool with
  | nil => simp
  | cons a l ih =>
      obtain ⟨hnotMem, hnodup⟩ := List.nodup_cons.mp hnodup
      have hdealloc := ObjectPool.live_deallocate pool a
      have hrest : ∀ c ∈ l, ObjectPool.live (ObjectPool.deallocate pool a) c := fun c hc =>
        (hdealloc c (hlive a (by simp))).mpr ⟨fun heq => hnotMem (heq ▸ hc), hlive c (by simp [hc])⟩
      rw [List.foldl_cons, ih hnodup hrest, hdealloc b (hlive a (by simp)), List.mem_cons]
      tauto

/-- **Clearing** a book ends with the empty book. -/
theorem represents_clear {book : MarketOrderBook π} {orders : List Resting} {fuel : Nat}
    (hrep : Represents book orders) (hfuel : orders.length ≤ fuel) :
    ∃ book', book.clear fuel = some book' ∧ SameMode book book' ∧ Represents book' []
      ∧ book'.updateBBO = book' := by
  have hcleared := hrep.toListed.clearedOrders_eq hfuel
  let final : MarketOrderBook π := { book with
    orderPool := (book.levelPtrs.flatMap (chain orders)).foldl ObjectPool.deallocate book.orderPool
    bids := {}
    asks := {}
    orderIndex := {}
    bestBid := none
    bestAsk := none
    bbo := {} }
  have hfinal : book.clear fuel = some final := by
    rw [clear, hcleared]
    rfl
  refine ⟨final, hfinal, ⟨rfl, rfl⟩, ⟨listed_nil fun ptr => ?_, List.nodup_nil,
    fun ref location => ?_, fun a => ?_⟩, rfl⟩
  · obtain ⟨side, price⟩ := ptr
    cases side <;> exact Std.TreeMap.getElem?_emptyc
  · simp [final]
  · rw [live_foldl_deallocate hrep.toListed.nodup_cleared fun b hb =>
      (hrep.live b).mpr (hrep.toListed.mem_cleared.mp hb), hrep.live,
      hrep.toListed.mem_cleared]
    simp

end MarketOrderBook

end AlphaTrader
