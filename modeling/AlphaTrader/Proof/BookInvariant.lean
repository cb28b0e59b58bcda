import AlphaTrader.Proof.BookSimulation

/-!
# The representation invariant of the book

What the code relies on when it follows a pointer: each level's list is linked both ways between its
head and its tail, the lists hold the indexed orders and no others, the cached totals and best prices
are those of the lists. Every update keeps this except a replace that moves an order together with a
pointer of its old level, and such a replace always breaks it.
-/

namespace AlphaTrader

open Intrusive

namespace MarketOrderBook

variable {π : Type}

/-- One level of the book, whose list from head to tail is `orders`. -/
structure LevelWellFormed (book : MarketOrderBook π) (ptr : LevelPtr) (level : PriceLevel)
    (orders : List Addr) : Prop where
  nonempty : orders ≠ []
  nodup : orders.Nodup
  head : level.head = orders.head?
  tail : level.tail = orders.getLast?
  linked : Segment book.links none orders none
  indexed : ∀ order ∈ orders,
    book.orderIndex[(book.memory order).orderRef]? = some ⟨ptr.1, ptr, order⟩
  price : level.price = ptr.2
  totalQty : level.totalQty = (orders.map fun order => (book.memory order).qty).sum

/-- The levels, the index and the cached best prices describe the same orders. -/
structure WellFormedBy (book : MarketOrderBook π) (lists : LevelPtr → List Addr) : Prop where
  level : ∀ ptr level, book.level? ptr = some level → LevelWellFormed book ptr level (lists ptr)
  disjoint : ∀ ptr ptr', book.level? ptr ≠ none → book.level? ptr' ≠ none → ptr ≠ ptr' →
    List.Disjoint (lists ptr) (lists ptr')
  index : ∀ ref location, book.orderIndex[ref]? = some location →
    (book.memory location.order).orderRef = ref ∧ location.level.1 = location.side
      ∧ book.level? location.level ≠ none ∧ location.order ∈ lists location.level
  bestBid : book.bestBid = book.bids.toList.head?.map fun entry => (.buy, entry.1)
  bestAsk : book.bestAsk = book.asks.toList.head?.map fun entry => (.sell, entry.1)
  bid : (book.bbo.bidPrice, book.bbo.bidQty) =
    (book.bids.toList.head?.map fun entry => (entry.2.price, entry.2.totalQty)).getD (priceInvalid, 0)
  ask : (book.bbo.askPrice, book.bbo.askQty) =
    (book.asks.toList.head?.map fun entry => (entry.2.price, entry.2.totalQty)).getD (priceInvalid, 0)

def WellFormed (book : MarketOrderBook π) : Prop := ∃ lists, WellFormedBy book lists

/-- The loops of `clear` end and return each tracked order to the pool exactly once. -/
def ClearsOnce (fuel : Nat) (book : MarketOrderBook π) : Prop :=
  ∃ returned, book.clearedOrders fuel = some returned ∧ returned.Nodup
    ∧ ∀ order, order ∈ returned ↔
        ∃ (ref : OrderId) (location : OrderLocation),
          book.orderIndex[ref]? = some location ∧ location.order = order

theorem WellFormed.ends {book : MarketOrderBook π} {level : PriceLevel} (hwf : WellFormed book)
    (ptr : LevelPtr) (hlevel : book.level? ptr = some level) :
    (∀ a, level.tail = some a → book.links.next a = none)
      ∧ ∀ a, level.head = some a → book.links.prev a = none := by
  obtain ⟨lists, hlists⟩ := hwf
  have hok := hlists.level ptr level hlevel
  exact ⟨fun a htail => segment_next_last hok.linked (hok.tail ▸ htail),
    fun a hhead => segment_prev_head hok.linked (hok.head ▸ hhead)⟩

section Invariant

variable [ObjectPool π] {book : MarketOrderBook π} {orders : List Resting}

theorem Represents.levelWellFormed (hrep : Represents book orders) {ptr : LevelPtr}
    {level : PriceLevel} (hlevel : book.level? ptr = some level) :
    LevelWellFormed book ptr level (chain orders ptr) := by
  have hchain : chain orders ptr ≠ [] :=
    hrep.toListed.level_ne_none.mp (by rw [hlevel]; exact Option.some_ne_none _)
  obtain rfl : level = summary orders ptr := by
    rw [hrep.level, if_neg (by simp [hchain])] at hlevel
    exact (Option.some.inj hlevel).symm
  refine ⟨hchain, chain_nodup hrep.addrs ptr, rfl, rfl, hrep.linked ptr, fun a hmem => ?_, rfl, ?_⟩
  · obtain ⟨order, horder, rfl, rfl⟩ := mem_chain.mp hmem
    rw [(hrep.stored order horder).1]
    exact (hrep.index _ _).mpr ⟨order, horder, rfl, rfl⟩
  · rw [chain, List.map_map, summary]
    refine congrArg List.sum (List.map_congr_left fun order hmem => ?_)
    exact (hrep.stored order (List.mem_filter.mp hmem).1).2.symm

theorem Represents.wellFormed (hrep : Represents book orders) (hbest : book.updateBBO = book) :
    WellFormed book := by
  have hbbo : book.bbo = book.updateBBO.bbo := (congrArg MarketOrderBook.bbo hbest).symm
  refine ⟨chain orders, fun ptr level hlevel => hrep.levelWellFormed hlevel, ?_, ?_, ?_, ?_, ?_, ?_⟩
  · intro ptr ptr' _ _ hne a hmem hmem'
    exact hne (ptr_eq_of_mem_chain hrep.addrs hmem hmem')
  · intro ref location hlocation
    obtain ⟨order, hmem, rfl, rfl⟩ := (hrep.index ref location).mp hlocation
    have hchain : order.addr ∈ chain orders order.ptr := mem_chain.mpr ⟨order, hmem, rfl, rfl⟩
    exact ⟨(hrep.stored order hmem).1, rfl,
      hrep.toListed.level_ne_none.mpr (List.ne_nil_of_mem hchain), hchain⟩
  · exact (congrArg MarketOrderBook.bestBid hbest).symm
  · exact (congrArg MarketOrderBook.bestAsk hbest).symm
  · rw [hbbo]
    cases h : book.bids.toList.head? <;> simp [MarketOrderBook.updateBBO, h]
  · rw [hbbo]
    cases h : book.asks.toList.head? <;> simp [MarketOrderBook.updateBBO, h]

theorem Represents.clearsOnce (hrep : Represents book orders) {fuel : Nat}
    (hfuel : orders.length ≤ fuel) : ClearsOnce fuel book := by
  refine ⟨_, hrep.toListed.clearedOrders_eq hfuel, hrep.toListed.nodup_cleared, fun a => ?_⟩
  rw [hrep.toListed.mem_cleared, List.mem_map]
  constructor
  · rintro ⟨order, hmem, rfl⟩
    exact ⟨order.ref, order.location, (hrep.index _ _).mpr ⟨order, hmem, rfl, rfl⟩, rfl⟩
  · rintro ⟨ref, location, hlocation, rfl⟩
    obtain ⟨order, hmem, -, rfl⟩ := (hrep.index ref location).mp hlocation
    exact ⟨order, hmem, rfl⟩

/-- **The invariant along a run**: in every run from the fresh book whose replaces relink cleanly, no
pointer is followed wrongly, the invariant holds at the end, and clearing ends there. -/
theorem wellFormed_applyUpdates (tickerId : TickerId) (updates : List MarketUpdate) (fuel : Nat)
    (hfuel : updates.length ≤ fuel)
    (hclean : Run.Along (applyUpdate fuel) RelinksCleanly (init π tickerId) updates) :
    ∃ book, (init π tickerId).applyUpdates fuel updates = some book ∧ WellFormed book
      ∧ ClearsOnce fuel book := by
  obtain ⟨book, hrun, hsim, hlength⟩ := simulates_applyUpdates (simulates_init tickerId)
    (by simpa [FlatBook.init] using hfuel) hclean
  obtain ⟨orders, hrep, hentries⟩ := hsim.orders
  refine ⟨book, hrun, hrep.wellFormed hsim.best, hrep.clearsOnce ?_⟩
  rwa [← hentries, List.length_map] at hlength

/-- Two orders on one level, of which the last one moves to the end of that same level. -/
theorem wellFormed_applyUpdates_moveLast :
    ∃ book, (init FreeListPool 7).applyUpdates 3
        [{ type := .add, tickerId := 7, orderRef := 1, price := 100, qty := 5 },
          { type := .add, tickerId := 7, orderRef := 2, price := 100, qty := 6 },
          { type := .replace, tickerId := 7, orderRef := 2, newRef := 3, price := 100, qty := 9 }]
        = some book ∧ WellFormed book ∧ ClearsOnce 3 book :=
  wellFormed_applyUpdates 7 _ 3 (by decide) (by decide)

/-- The first of two orders moves to another level and takes its forward pointer along: the list of
the new level runs on into the old level, and clearing returns the second order twice. -/
theorem replace_first_breaks_lists :
    ∃ book, (init FreeListPool 7).applyUpdates 4
        [{ type := .add, tickerId := 7, orderRef := 1, price := 100, qty := 5 },
          { type := .add, tickerId := 7, orderRef := 2, price := 100, qty := 6 },
          { type := .add, tickerId := 7, orderRef := 3, price := 101, qty := 7 },
          { type := .replace, tickerId := 7, orderRef := 1, newRef := 4, price := 101, qty := 9 }]
        = some book ∧ ¬ WellFormed book ∧ book.clearedOrders 4 = some [2, 0, 1, 1] := by
  refine ⟨_, rfl, fun hwf => ?_, by decide⟩
  have hends := hwf.ends (.buy, 101) rfl
  exact absurd (hends.1 0 rfl) (by decide)

/-- **The condition is exact**: in a book that meets the invariant, a replace keeps it if and only if
it relinks cleanly. -/
theorem wellFormed_replace_iff {flat : FlatBook} {update : MarketUpdate} {fuel : Nat}
    (hsim : Simulates book flat) (hfuel : flat.entries.length ≤ fuel)
    (htype : update.type = .replace) :
    (∃ book', book.applyUpdate fuel update = some book' ∧ WellFormed book')
      ↔ book.RelinksCleanly update := by
  constructor
  · rintro ⟨book', happly, hwf⟩ a hmoved
    obtain ⟨orders, hrep, -⟩ := hsim.orders
    obtain ⟨⟨-, hticker, hcontains⟩, location, hlocation, rfl⟩ :
        (update.type = .replace ∧ update.tickerId = book.tickerId
          ∧ book.orderIndex.contains update.newRef = false)
        ∧ ∃ location : OrderLocation,
          book.orderIndex[update.orderRef]? = some location ∧ location.order = a := by
      simpa only [movedOrder?, Option.mem_def, Option.ite_none_right_eq_some, Option.map_eq_some_iff]
        using hmoved
    obtain ⟨order, hmem, href, rfl⟩ := (hrep.index _ _).mp hlocation
    have hnew : ∀ other ∈ orders, other.ref ≠ update.newRef := by
      intro other hother hotherRef
      rw [hrep.index.contains_iff.mpr ⟨other, hother, hotherRef⟩] at hcontains
      cases hcontains
    by_contra hstale
    obtain ⟨book'', level, hreplace, hlevel, htail, hends⟩ :=
      replaceOrder_stale hrep hmem href hnew hstale
    have happly' : book.applyUpdate fuel update = some book''.updateBBO := by
      simp [applyUpdate, htype, hticker, hreplace, refresh]
    obtain rfl := Option.some.inj (happly.symm.trans happly')
    obtain ⟨hnext, hprev⟩ := hwf.ends _ hlevel
    rcases hends with hends | ⟨hhead, hends⟩
    · exact hends (hnext _ htail)
    · exact hends (hprev _ hhead)
  · intro hclean
    obtain ⟨book', happly, hsim'⟩ := simulates_applyUpdate hsim (fun _ => hfuel) hclean
    obtain ⟨orders, hrep, -⟩ := hsim'.orders
    exact ⟨book', happly, hrep.wellFormed hsim'.best⟩

end Invariant

end MarketOrderBook

end AlphaTrader
