import AlphaTrader.Types
import AlphaTrader.Library.LinkedList

/-!
# The market order book

`src/market_order_book.cpp`: two ordered maps of price levels, an intrusive list of orders on each
level, and an index from order references to their place. An operation yields `none` when the code
would read through a dangling level pointer or a null order pointer, or when the loops of `clear`
do not end within the given fuel.
-/

namespace AlphaTrader

/-- What the book relies on in `quantlink::ObjectPool<BookOrder>`: an allocated order is not in use
already, and an order in use leaves use when it is returned. -/
class ObjectPool (π : Type) where
  fresh : π
  live : π → Addr → Prop
  allocate : π → Addr × π
  deallocate : π → Addr → π
  not_live_fresh : ∀ a, ¬ live fresh a
  not_live_allocate : ∀ pool, ¬ live pool (allocate pool).1
  live_allocate : ∀ pool a, live (allocate pool).2 a ↔ a = (allocate pool).1 ∨ live pool a
  live_deallocate : ∀ pool a b, live pool a → (live (deallocate pool a) b ↔ b ≠ a ∧ live pool b)

/-- A pool that hands out returned orders again, last returned first, before it takes new ones. -/
structure FreeListPool where
  next : Addr
  free : List Addr
  nodup : free.Nodup
  bound : ∀ a ∈ free, a < next

def FreeListPool.allocate (pool : FreeListPool) : Addr × FreeListPool :=
  match pool with
  | ⟨next, [], _, _⟩ => (next, ⟨next + 1, [], List.nodup_nil, by simp⟩)
  | ⟨next, a :: free, nodup, bound⟩ =>
      (a, ⟨next, free, (List.nodup_cons.mp nodup).2, fun b hb => bound b (by simp [hb])⟩)

def FreeListPool.deallocate (pool : FreeListPool) (a : Addr) : FreeListPool :=
  if h : a < pool.next ∧ a ∉ pool.free then
    ⟨pool.next, a :: pool.free, List.nodup_cons.mpr ⟨h.2, pool.nodup⟩, by
      intro b hb
      rcases List.mem_cons.mp hb with rfl | hb
      · exact h.1
      · exact pool.bound b hb⟩
  else pool

instance : ObjectPool FreeListPool where
  fresh := ⟨0, [], List.nodup_nil, by simp⟩
  live pool a := a < pool.next ∧ a ∉ pool.free
  allocate := FreeListPool.allocate
  deallocate := FreeListPool.deallocate
  not_live_fresh := by simp
  not_live_allocate := by
    rintro ⟨next, free, nodup, bound⟩
    cases free <;> simp [FreeListPool.allocate]
  live_allocate := by
    rintro ⟨next, free, nodup, bound⟩ a
    cases free with
    | nil =>
        simp only [FreeListPool.allocate, List.not_mem_nil, not_false_eq_true, and_true]
        exact Nat.lt_succ_iff_lt_or_eq.trans or_comm
    | cons b free =>
        have hb : b < next := bound b (by simp)
        have hnotMem : b ∉ free := (List.nodup_cons.mp nodup).1
        by_cases heq : a = b
        · subst heq
          simp [FreeListPool.allocate, hb, hnotMem]
        · simp [FreeListPool.allocate, heq]
  live_deallocate := by
    intro pool a b hlive
    simp only [FreeListPool.deallocate, dif_pos hlive, List.mem_cons, not_or]
    tauto

/-- A `PriceLevel*`: the map node of one side at one price. Nodes of a `std::map` keep their address
while they are in the map, so side and key name the node. -/
abbrev LevelPtr := Side × Price

structure OrderLocation where
  side : Side
  level : LevelPtr
  order : Addr
  deriving DecidableEq, Repr

abbrev Bids := Std.TreeMap Price PriceLevel (fun a b => compare b a)

abbrev Asks := Std.TreeMap Price PriceLevel

/-- The book, with the storage of its pool as a memory from addresses to orders. -/
structure MarketOrderBook (π : Type) where
  tickerId : TickerId
  bids : Bids := {}
  asks : Asks := {}
  orderIndex : Std.TreeMap OrderId OrderLocation := {}
  bbo : BBO := {}
  bestBid : Option LevelPtr := none
  bestAsk : Option LevelPtr := none
  orderPool : π
  memory : Addr → BookOrder := fun _ => {}
  inSnapshot : Bool := false

namespace MarketOrderBook

variable {π : Type} [ObjectPool π]

def init (π : Type) [ObjectPool π] (tickerId : TickerId) : MarketOrderBook π :=
  { tickerId := tickerId, orderPool := ObjectPool.fresh }

/-! ### Levels and orders as memory -/

def level? (book : MarketOrderBook π) : LevelPtr → Option PriceLevel
  | (.buy, price) => book.bids[price]?
  | (.sell, price) => book.asks[price]?

def setLevel (book : MarketOrderBook π) (ptr : LevelPtr) (level : PriceLevel) :
    MarketOrderBook π :=
  match ptr with
  | (.buy, price) => { book with bids := book.bids.insert price level }
  | (.sell, price) => { book with asks := book.asks.insert price level }

/-- A write through a level pointer. -/
def modifyLevel (book : MarketOrderBook π) (ptr : LevelPtr) (f : PriceLevel → PriceLevel) :
    Option (MarketOrderBook π) := do
  let level ← book.level? ptr
  return book.setLevel ptr (f level)

/-- `bids_.erase` or `asks_.erase`, by side. -/
def eraseLevel (book : MarketOrderBook π) (ptr : LevelPtr) : MarketOrderBook π :=
  match ptr with
  | (.buy, price) => { book with bids := book.bids.erase price }
  | (.sell, price) => { book with asks := book.asks.erase price }

/-- A write through an order pointer. -/
def modifyOrder (book : MarketOrderBook π) (order : Addr) (f : BookOrder → BookOrder) :
    MarketOrderBook π :=
  { book with memory := Function.update book.memory order (f (book.memory order)) }

def getOrCreateLevel (book : MarketOrderBook π) (side : Side) (price : Price) :
    LevelPtr × MarketOrderBook π :=
  match side with
  | .buy =>
      ((.buy, price), { book with bids := book.bids.insertIfNew price { price := price } })
  | .sell =>
      ((.sell, price), { book with asks := book.asks.insertIfNew price { price := price } })

def allocateOrder (book : MarketOrderBook π) (orderRef : OrderId) (qty : Quantity) :
    Addr × MarketOrderBook π :=
  let (order, pool) := ObjectPool.allocate book.orderPool
  (order, { book with orderPool := pool }.modifyOrder order fun _ =>
    { orderRef := orderRef, qty := qty, next := none, prev := none })

def deallocateOrder (book : MarketOrderBook π) (order : Addr) : MarketOrderBook π :=
  { book with orderPool := ObjectPool.deallocate book.orderPool order }

/-- A moved order comes here with the pointers of its old level: only `prev` is overwritten, and
only when the new level is not empty. -/
def linkOrder (book : MarketOrderBook π) (ptr : LevelPtr) (order : Addr) :
    Option (MarketOrderBook π) := do
  let level ← book.level? ptr
  let book ← match level.head with
    | none => book.modifyLevel ptr fun level => { level with head := some order, tail := some order }
    | some _ => do
        let tail ← level.tail
        let book := book.modifyOrder order fun o => { o with prev := some tail }
        let book := book.modifyOrder tail fun o => { o with next := some order }
        book.modifyLevel ptr fun level => { level with tail := some order }
  book.modifyLevel ptr fun level =>
    { level with totalQty := level.totalQty + (book.memory order).qty }

/-- The first branch of `unlinkOrder`: what points forward to the order skips it. -/
def unlinkNext (book : MarketOrderBook π) (ptr : LevelPtr) (order : Addr) :
    Option (MarketOrderBook π) :=
  match (book.memory order).prev with
  | some prev => some (book.modifyOrder prev fun o => { o with next := (book.memory order).next })
  | none => book.modifyLevel ptr fun level => { level with head := (book.memory order).next }

/-- The second branch of `unlinkOrder`: what points back to the order skips it. -/
def unlinkPrev (book : MarketOrderBook π) (ptr : LevelPtr) (order : Addr) :
    Option (MarketOrderBook π) :=
  match (book.memory order).next with
  | some next => some (book.modifyOrder next fun o => { o with prev := (book.memory order).prev })
  | none => book.modifyLevel ptr fun level => { level with tail := (book.memory order).prev }

def unlinkOrder (book : MarketOrderBook π) (ptr : LevelPtr) (order : Addr) :
    Option (MarketOrderBook π) := do
  let book ← book.unlinkNext ptr order
  let book ← book.unlinkPrev ptr order
  book.modifyLevel ptr fun level =>
    { level with totalQty := level.totalQty - (book.memory order).qty }

def updateBBO (book : MarketOrderBook π) : MarketOrderBook π :=
  let bid := book.bids.toList.head?
  let ask := book.asks.toList.head?
  { book with
    bestBid := bid.map fun entry => (.buy, entry.1)
    bestAsk := ask.map fun entry => (.sell, entry.1)
    bbo :=
      { bidPrice := (bid.map fun entry => entry.2.price).getD priceInvalid
        bidQty := (bid.map fun entry => entry.2.totalQty).getD 0
        askPrice := (ask.map fun entry => entry.2.price).getD priceInvalid
        askQty := (ask.map fun entry => entry.2.totalQty).getD 0 } }

/-! ### Updates of one order -/

/-- The level an operation emptied leaves its map. -/
def eraseIfEmpty (book : MarketOrderBook π) (side : Side) (ptr : LevelPtr) :
    Option (MarketOrderBook π) := do
  let level ← book.level? ptr
  match level.head with
  | none => return book.eraseLevel (side, level.price)
  | some _ => return book

def eraseOrder (book : MarketOrderBook π) (orderRef : OrderId) :
    Option (Bool × MarketOrderBook π) :=
  match book.orderIndex[orderRef]? with
  | none => some (false, book)
  | some location => do
      let book ← book.unlinkOrder location.level location.order
      let book := book.deallocateOrder location.order
      let book ← book.eraseIfEmpty location.side location.level
      return (true, { book with orderIndex := book.orderIndex.erase orderRef })

def reduceOrder (book : MarketOrderBook π) (update : MarketUpdate) :
    Option (Bool × MarketOrderBook π) :=
  match book.orderIndex[update.orderRef]? with
  | none => some (false, book)
  | some location =>
      if (book.memory location.order).qty ≤ update.qty then
        book.eraseOrder update.orderRef
      else do
        let book := book.modifyOrder location.order fun o => { o with qty := o.qty - update.qty }
        let book ← book.modifyLevel location.level fun level =>
          { level with totalQty := level.totalQty - update.qty }
        return (true, book)

def replaceOrder (book : MarketOrderBook π) (update : MarketUpdate) :
    Option (Bool × MarketOrderBook π) :=
  match book.orderIndex[update.orderRef]? with
  | none => some (false, book)
  | some location =>
      if book.orderIndex.contains update.newRef then
        some (false, book)
      else do
        let book ← book.unlinkOrder location.level location.order
        let book ← book.eraseIfEmpty location.side location.level
        let (newLevel, book) := book.getOrCreateLevel update.side update.price
        let book := book.modifyOrder location.order fun o =>
          { o with orderRef := update.newRef, qty := update.qty }
        let book ← book.linkOrder newLevel location.order
        let index := book.orderIndex.erase update.orderRef
        return (true, { book with
          orderIndex := index.insert update.newRef ⟨update.side, newLevel, location.order⟩ })

def addOrder (book : MarketOrderBook π) (update : MarketUpdate) : Option (MarketOrderBook π) := do
  let (level, book) := book.getOrCreateLevel update.side update.price
  let (order, book) := book.allocateOrder update.orderRef update.qty
  let book ← book.linkOrder level order
  let index := book.orderIndex.insert update.orderRef ⟨update.side, level, order⟩
  return { book with orderIndex := index }

/-! ### Snapshots -/

/-- The orders that the loops of `clear` return to the pool, in that order. Each loop reads the
forward pointer of an order before it returns the order. -/
def clearedOrders (fuel : Nat) (book : MarketOrderBook π) : Option (List Addr) := do
  let next := fun order => (book.memory order).next
  let bids ← book.bids.toList.mapM fun entry => Intrusive.walk next fuel entry.2.head
  let asks ← book.asks.toList.mapM fun entry => Intrusive.walk next fuel entry.2.head
  return bids.flatten ++ asks.flatten

def clear (fuel : Nat) (book : MarketOrderBook π) : Option (MarketOrderBook π) := do
  let orders ← book.clearedOrders fuel
  return { book with
    orderPool := orders.foldl ObjectPool.deallocate book.orderPool
    bids := {}
    asks := {}
    orderIndex := {}
    bestBid := none
    bestAsk := none
    bbo := {} }

def onSnapshotStart (fuel : Nat) (book : MarketOrderBook π) : Option (MarketOrderBook π) := do
  let book ← book.clear fuel
  return { book with inSnapshot := true }

def onSnapshotClear (fuel : Nat) (book : MarketOrderBook π) : Option (MarketOrderBook π) :=
  book.clear fuel

def onSnapshotEnd (book : MarketOrderBook π) : MarketOrderBook π :=
  { book with inSnapshot := false }.updateBBO

/-- `updateBBO` runs only after an operation that reports a change. -/
def refresh (result : Bool × MarketOrderBook π) : MarketOrderBook π :=
  if result.1 then result.2.updateBBO else result.2

def applyUpdate (fuel : Nat) (book : MarketOrderBook π) (update : MarketUpdate) :
    Option (MarketOrderBook π) :=
  match update.type with
  | .snapshotStart => book.onSnapshotStart fuel
  | .snapshotClear =>
      if update.tickerId = book.tickerId then book.onSnapshotClear fuel else some book
  | .snapshotEnd => some book.onSnapshotEnd
  | type =>
      if update.tickerId ≠ book.tickerId then some book
      else
        match type with
        | .add | .addMpid =>
            if book.orderIndex.contains update.orderRef then some book
            else do return (← book.addOrder update).updateBBO
        | .delete => do return refresh (← book.eraseOrder update.orderRef)
        | .cancel | .execute => do return refresh (← book.reduceOrder update)
        | .replace => do return refresh (← book.replaceOrder update)
        | _ => some book

/-- A run of the book over a list of updates. -/
def applyUpdates (fuel : Nat) (book : MarketOrderBook π) (updates : List MarketUpdate) :
    Option (MarketOrderBook π) :=
  updates.foldlM (applyUpdate fuel) book

/-! ### Queries -/

def trackedOrders (book : MarketOrderBook π) : Nat := book.orderIndex.size

def bidLevels (book : MarketOrderBook π) : Nat := book.bids.size

def askLevels (book : MarketOrderBook π) : Nat := book.asks.size

def empty (book : MarketOrderBook π) : Bool := book.bids.isEmpty && book.asks.isEmpty

end MarketOrderBook

end AlphaTrader
