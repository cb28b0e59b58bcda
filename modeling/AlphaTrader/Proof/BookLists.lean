import AlphaTrader.MarketOrderBook

/-!
# The lists of the book

A book in memory stands for a list of resting orders in the order in which they were linked: the
orders of one level are the sublist at its side and price. `Listed` says that the levels and the
pointers of the book are those of such a list. It allows one level to be empty, as a level is between
its creation and the linking of its first order, and between the unlinking of its last order and its
removal.
-/

namespace AlphaTrader

open Intrusive

/-- An order resting in the book, at its address in the pool. -/
structure Resting where
  addr : Addr
  ref : OrderId
  side : Side
  price : Price
  qty : Quantity
  deriving DecidableEq, Repr

namespace Resting

def ptr (order : Resting) : LevelPtr := (order.side, order.price)

def location (order : Resting) : OrderLocation := ⟨order.side, order.ptr, order.addr⟩

end Resting

def onLevel (orders : List Resting) (ptr : LevelPtr) : List Resting :=
  orders.filter fun order => order.ptr = ptr

/-- The addresses of the orders on one level, in linking order. -/
def chain (orders : List Resting) (ptr : LevelPtr) : List Addr :=
  (onLevel orders ptr).map Resting.addr

/-- The level that the orders at `ptr` make up. -/
def summary (orders : List Resting) (ptr : LevelPtr) : PriceLevel :=
  { price := ptr.2
    totalQty := ((onLevel orders ptr).map Resting.qty).sum
    head := (chain orders ptr).head?
    tail := (chain orders ptr).getLast? }

section Lists

variable {orders : List Resting} {order : Resting} {ptr : LevelPtr}

@[simp]
theorem onLevel_nil (ptr : LevelPtr) : onLevel [] ptr = [] := rfl

theorem onLevel_append (orders orders' : List Resting) (ptr : LevelPtr) :
    onLevel (orders ++ orders') ptr = onLevel orders ptr ++ onLevel orders' ptr :=
  List.filter_append ..

theorem onLevel_cons_self (order : Resting) (orders : List Resting) :
    onLevel (order :: orders) order.ptr = order :: onLevel orders order.ptr := by
  simp [onLevel]

theorem onLevel_cons_of_ne (orders : List Resting) (hne : order.ptr ≠ ptr) :
    onLevel (order :: orders) ptr = onLevel orders ptr := by
  simp [onLevel, hne]

@[simp]
theorem chain_nil (ptr : LevelPtr) : chain [] ptr = [] := rfl

theorem chain_append (orders orders' : List Resting) (ptr : LevelPtr) :
    chain (orders ++ orders') ptr = chain orders ptr ++ chain orders' ptr := by
  simp [chain, onLevel_append]

theorem chain_cons_self (order : Resting) (orders : List Resting) :
    chain (order :: orders) order.ptr = order.addr :: chain orders order.ptr := by
  simp [chain, onLevel_cons_self]

theorem chain_cons_of_ne (orders : List Resting) (hne : order.ptr ≠ ptr) :
    chain (order :: orders) ptr = chain orders ptr := by
  simp [chain, onLevel_cons_of_ne orders hne]

theorem mem_chain {a : Addr} :
    a ∈ chain orders ptr ↔ ∃ order ∈ orders, order.ptr = ptr ∧ order.addr = a := by
  simp [chain, onLevel, and_assoc]

theorem mem_addrs_of_mem_chain {a : Addr} (hmem : a ∈ chain orders ptr) :
    a ∈ orders.map Resting.addr := by
  obtain ⟨order, horder, -, rfl⟩ := mem_chain.mp hmem
  exact List.mem_map_of_mem horder

theorem chain_nodup (hnodup : (orders.map Resting.addr).Nodup) (ptr : LevelPtr) :
    (chain orders ptr).Nodup :=
  hnodup.sublist (List.filter_sublist.map _)

theorem eq_of_addr_eq (hnodup : (orders.map Resting.addr).Nodup) {first second : Resting}
    (hfirst : first ∈ orders) (hsecond : second ∈ orders) (haddr : first.addr = second.addr) :
    first = second :=
  List.inj_on_of_nodup_map hnodup hfirst hsecond haddr

theorem ptr_eq_of_mem_chain (hnodup : (orders.map Resting.addr).Nodup) {ptr' : LevelPtr} {a : Addr}
    (hmem : a ∈ chain orders ptr) (hmem' : a ∈ chain orders ptr') : ptr = ptr' := by
  obtain ⟨order, horder, rfl, rfl⟩ := mem_chain.mp hmem
  obtain ⟨order', horder', rfl, haddr⟩ := mem_chain.mp hmem'
  rw [eq_of_addr_eq hnodup horder' horder haddr]

theorem chain_eq_nil_iff : chain orders ptr = [] ↔ onLevel orders ptr = [] := by
  simp [chain]

end Lists

namespace MarketOrderBook

variable {π : Type}

/-- The pointers of the orders in memory. -/
def links (book : MarketOrderBook π) : Links Addr where
  next order := (book.memory order).next
  prev order := (book.memory order).prev

/-! ### What the elementary writes change -/

section Writes

variable (book : MarketOrderBook π) (ptr : LevelPtr) (level : PriceLevel)

theorem level?_setLevel (ptr' : LevelPtr) :
    (book.setLevel ptr level).level? ptr' =
      if ptr' = ptr then some level else book.level? ptr' := by
  obtain ⟨side, price⟩ := ptr
  obtain ⟨side', price'⟩ := ptr'
  by_cases heq : price' = price
  · subst heq
    cases side <;> cases side' <;> simp [setLevel, level?]
  · cases side <;> cases side' <;>
      simp [setLevel, level?, Std.TreeMap.getElem?_insert, heq, Ne.symm heq]

theorem level?_eraseLevel (ptr' : LevelPtr) :
    (book.eraseLevel ptr).level? ptr' = if ptr' = ptr then none else book.level? ptr' := by
  obtain ⟨side, price⟩ := ptr
  obtain ⟨side', price'⟩ := ptr'
  by_cases heq : price' = price
  · subst heq
    cases side <;> cases side' <;> simp [eraseLevel, level?]
  · cases side <;> cases side' <;>
      simp [eraseLevel, level?, Std.TreeMap.getElem?_erase, heq, Ne.symm heq]

theorem level?_getOrCreateLevel (side : Side) (price : Price) (ptr' : LevelPtr) :
    (book.getOrCreateLevel side price).2.level? ptr' =
      if ptr' = (side, price) then some ((book.level? (side, price)).getD { price := price })
      else book.level? ptr' := by
  obtain ⟨side', price'⟩ := ptr'
  by_cases heq : price' = price
  · subst heq
    cases side <;> cases side' <;>
      simp only [getOrCreateLevel, level?, Std.TreeMap.getElem?_insertIfNew, reduceCtorEq,
        Prod.mk.injEq, false_and, if_false, true_and, if_true, Std.ReflCmp.compare_self]
    · by_cases hmem : price' ∈ book.bids <;> simp [hmem]
    · by_cases hmem : price' ∈ book.asks <;> simp [hmem]
  · cases side <;> cases side' <;>
      simp [getOrCreateLevel, level?, Std.TreeMap.getElem?_insertIfNew, heq, Ne.symm heq]

@[simp]
theorem memory_setLevel : (book.setLevel ptr level).memory = book.memory := by
  obtain ⟨side, price⟩ := ptr
  cases side <;> rfl

@[simp]
theorem links_setLevel : (book.setLevel ptr level).links = book.links := by
  simp [links]

@[simp]
theorem level?_modifyOrder (order : Addr) (f : BookOrder → BookOrder) :
    (book.modifyOrder order f).level? = book.level? := by
  funext ⟨side, price⟩
  cases side <;> rfl

theorem links_modifyOrder_next (order : Addr) (q : Option Addr) :
    (book.modifyOrder order fun o => { o with next := q }).links = book.links.setNext order q := by
  simp only [links, modifyOrder, Links.setNext, Links.mk.injEq]
  constructor <;> funext a <;> by_cases heq : a = order <;> simp [heq]

theorem links_modifyOrder_prev (order : Addr) (p : Option Addr) :
    (book.modifyOrder order fun o => { o with prev := p }).links = book.links.setPrev order p := by
  simp only [links, modifyOrder, Links.setPrev, Links.mk.injEq]
  constructor <;> funext a <;> by_cases heq : a = order <;> simp [heq]

end Writes

/-- `book'` has the orders of `book` and its index, with other levels and other pointers. -/
structure Rewired (book book' : MarketOrderBook π) : Prop where
  tickerId : book'.tickerId = book.tickerId
  orderIndex : book'.orderIndex = book.orderIndex
  orderPool : book'.orderPool = book.orderPool
  inSnapshot : book'.inSnapshot = book.inSnapshot
  orderRef : ∀ a, (book'.memory a).orderRef = (book.memory a).orderRef
  qty : ∀ a, (book'.memory a).qty = (book.memory a).qty

namespace Rewired

variable {book book' book'' : MarketOrderBook π}

theorem refl (book : MarketOrderBook π) : Rewired book book :=
  ⟨rfl, rfl, rfl, rfl, fun _ => rfl, fun _ => rfl⟩

theorem trans (h : Rewired book book') (h' : Rewired book' book'') : Rewired book book'' :=
  ⟨h'.tickerId.trans h.tickerId, h'.orderIndex.trans h.orderIndex, h'.orderPool.trans h.orderPool,
    h'.inSnapshot.trans h.inSnapshot, fun a => (h'.orderRef a).trans (h.orderRef a),
    fun a => (h'.qty a).trans (h.qty a)⟩

theorem setLevel (book : MarketOrderBook π) (ptr : LevelPtr) (level : PriceLevel) :
    Rewired book (book.setLevel ptr level) := by
  obtain ⟨side, price⟩ := ptr
  cases side <;> exact ⟨rfl, rfl, rfl, rfl, fun _ => rfl, fun _ => rfl⟩

theorem eraseLevel (book : MarketOrderBook π) (ptr : LevelPtr) :
    Rewired book (book.eraseLevel ptr) := by
  obtain ⟨side, price⟩ := ptr
  cases side <;> exact ⟨rfl, rfl, rfl, rfl, fun _ => rfl, fun _ => rfl⟩

theorem getOrCreateLevel (book : MarketOrderBook π) (side : Side) (price : Price) :
    Rewired book (book.getOrCreateLevel side price).2 := by
  cases side <;> exact ⟨rfl, rfl, rfl, rfl, fun _ => rfl, fun _ => rfl⟩

theorem modifyOrder (book : MarketOrderBook π) (order : Addr) {f : BookOrder → BookOrder}
    (hf : ∀ o, (f o).orderRef = o.orderRef ∧ (f o).qty = o.qty) :
    Rewired book (book.modifyOrder order f) := by
  refine ⟨rfl, rfl, rfl, rfl, fun a => ?_, fun a => ?_⟩
  · by_cases heq : a = order <;> simp [MarketOrderBook.modifyOrder, heq, hf]
  · by_cases heq : a = order <;> simp [MarketOrderBook.modifyOrder, heq, hf]

end Rewired

theorem modifyLevel_eq_some {book : MarketOrderBook π} {ptr : LevelPtr} {level : PriceLevel}
    (hlevel : book.level? ptr = some level) (f : PriceLevel → PriceLevel) :
    book.modifyLevel ptr f = some (book.setLevel ptr (f level)) := by
  simp [modifyLevel, hlevel]

section Unlink

variable {book : MarketOrderBook π} {ptr : LevelPtr} {level : PriceLevel}

theorem unlinkNext_spec (hlevel : book.level? ptr = some level) (order : Addr) :
    ∃ book', book.unlinkNext ptr order = some book' ∧ Rewired book book'
      ∧ book'.links = book.links.unlinkNext order
      ∧ ∀ ptr', book'.level? ptr' =
          if ptr' = ptr then
            some { level with
              head := if book.links.prev order = none then book.links.next order else level.head }
          else book.level? ptr' := by
  have hprev : book.links.prev order = (book.memory order).prev := rfl
  rw [unlinkNext, Links.unlinkNext, hprev]
  cases (book.memory order).prev with
  | none =>
      refine ⟨_, modifyLevel_eq_some hlevel _, Rewired.setLevel .., by simp, fun ptr' => ?_⟩
      simp [level?_setLevel, links]
  | some y =>
      refine ⟨_, rfl, Rewired.modifyOrder _ _ fun _ => ⟨rfl, rfl⟩, links_modifyOrder_next ..,
        fun ptr' => ?_⟩
      by_cases heq : ptr' = ptr <;> simp [heq, hlevel]

theorem unlinkPrev_spec (hlevel : book.level? ptr = some level) (order : Addr) :
    ∃ book', book.unlinkPrev ptr order = some book' ∧ Rewired book book'
      ∧ book'.links = book.links.unlinkPrev order
      ∧ ∀ ptr', book'.level? ptr' =
          if ptr' = ptr then
            some { level with
              tail := if book.links.next order = none then book.links.prev order else level.tail }
          else book.level? ptr' := by
  have hnext : book.links.next order = (book.memory order).next := rfl
  rw [unlinkPrev, Links.unlinkPrev, hnext]
  cases (book.memory order).next with
  | none =>
      refine ⟨_, modifyLevel_eq_some hlevel _, Rewired.setLevel .., by simp, fun ptr' => ?_⟩
      simp [level?_setLevel, links]
  | some z =>
      refine ⟨_, rfl, Rewired.modifyOrder _ _ fun _ => ⟨rfl, rfl⟩, links_modifyOrder_prev ..,
        fun ptr' => ?_⟩
      by_cases heq : ptr' = ptr <;> simp [heq, hlevel]

/-- **Unlinking**: the neighbours are joined, and the level loses the order's quantity. -/
theorem unlinkOrder_spec {order : Addr} (hlevel : book.level? ptr = some level)
    (hself : book.links.prev order ≠ some order) :
    ∃ book', book.unlinkOrder ptr order = some book' ∧ Rewired book book'
      ∧ book'.links = book.links.unlink order
      ∧ ∀ ptr', book'.level? ptr' =
          if ptr' = ptr then
            some { level with
              head := if book.links.prev order = none then book.links.next order else level.head
              tail := if book.links.next order = none then book.links.prev order else level.tail
              totalQty := level.totalQty - (book.memory order).qty }
          else book.level? ptr' := by
  obtain ⟨book₁, hbook₁, hrewired₁, hlinks₁, hlevel₁⟩ := unlinkNext_spec hlevel order
  have hlevelAt₁ := hlevel₁ ptr
  rw [if_pos rfl] at hlevelAt₁
  obtain ⟨book₂, hbook₂, hrewired₂, hlinks₂, hlevel₂⟩ := unlinkPrev_spec hlevelAt₁ order
  have hlevelAt₂ := hlevel₂ ptr
  rw [if_pos rfl] at hlevelAt₂
  have hprev : book₁.links.prev order = book.links.prev order := by
    rw [hlinks₁, Links.unlinkNext]
    split <;> rfl
  have hnext : book₁.links.next order = book.links.next order := by
    rw [hlinks₁, Links.unlinkNext]
    cases hp : book.links.prev order with
    | none => rfl
    | some y =>
        have hne : order ≠ y := fun heq => hself (by rw [hp, heq])
        simp [Links.setNext, hne]
  have hunlink : book.unlinkOrder ptr order = book₂.modifyLevel ptr fun level =>
      { level with totalQty := level.totalQty - (book₂.memory order).qty } := by
    simp only [unlinkOrder, hbook₁, hbook₂, Option.bind_eq_bind, Option.bind_some]
  refine ⟨_, hunlink.trans (modifyLevel_eq_some hlevelAt₂ _),
    (hrewired₁.trans hrewired₂).trans (Rewired.setLevel ..), ?_, ?_⟩
  · rw [links_setLevel, hlinks₂, Links.unlink, hlinks₁]
  · intro ptr'
    rw [level?_setLevel, hlevel₂, hlevel₁, hprev, hnext, hrewired₂.qty, hrewired₁.qty]
    by_cases heq : ptr' = ptr <;> simp [heq]

end Unlink

/-- **Linking**: the order goes behind the last one of the level, whose pointers join it. -/
theorem linkOrder_spec {book : MarketOrderBook π} {ptr : LevelPtr} {level : PriceLevel}
    (hlevel : book.level? ptr = some level) (hends : level.head = none ↔ level.tail = none)
    (order : Addr) :
    ∃ book', book.linkOrder ptr order = some book' ∧ Rewired book book'
      ∧ book'.links = book.links.pushBack level.tail order
      ∧ ∀ ptr', book'.level? ptr' =
          if ptr' = ptr then
            some { level with
              head := level.head.or (some order)
              tail := some order
              totalQty := level.totalQty + (book.memory order).qty }
          else book.level? ptr' := by
  cases hhead : level.head with
  | none =>
      have htail := hends.mp hhead
      have hwrite := modifyLevel_eq_some hlevel fun level =>
        { level with head := some order, tail := some order }
      have hlevelAt := level?_setLevel book ptr
        { level with head := some order, tail := some order } ptr
      rw [if_pos rfl] at hlevelAt
      have hlink : book.linkOrder ptr order =
          (book.setLevel ptr { level with head := some order, tail := some order }).modifyLevel ptr
            fun level' => { level' with totalQty := level'.totalQty + (book.memory order).qty } := by
        simp only [linkOrder, hlevel, hhead, hwrite, Option.bind_eq_bind, Option.bind_some,
          memory_setLevel]
      refine ⟨_, hlink.trans (modifyLevel_eq_some hlevelAt _),
        (Rewired.setLevel ..).trans (Rewired.setLevel ..), ?_, fun ptr' => ?_⟩
      · simp [htail, Links.pushBack]
      · by_cases heq : ptr' = ptr <;> simp [level?_setLevel, heq]
  | some first =>
      obtain ⟨last, htail⟩ := Option.ne_none_iff_exists'.mp
        (fun hnone => Option.some_ne_none first (hhead ▸ hends.mpr hnone))
      let back := (book.modifyOrder order fun o => { o with prev := some last }).modifyOrder last
        fun o => { o with next := some order }
      have hback : Rewired book (book.modifyOrder order fun o => { o with prev := some last }) :=
        Rewired.modifyOrder _ _ fun _ => ⟨rfl, rfl⟩
      have hrewired : Rewired book back := hback.trans (Rewired.modifyOrder _ _ fun _ => ⟨rfl, rfl⟩)
      have hlevelBack : back.level? ptr = some level := by
        simpa [back] using hlevel
      have hwrite := modifyLevel_eq_some hlevelBack fun level => { level with tail := some order }
      have hlevelAt := level?_setLevel back ptr { level with tail := some order } ptr
      rw [if_pos rfl] at hlevelAt
      have hlink : book.linkOrder ptr order =
          (back.setLevel ptr { level with tail := some order }).modifyLevel ptr fun level' =>
            { level' with totalQty := level'.totalQty + (back.memory order).qty } := by
        simp only [linkOrder, hlevel, hhead, htail, Option.bind_eq_bind, Option.bind_some]
        rw [show (book.modifyOrder order fun o => { o with prev := some last }).modifyOrder last
          (fun o => { o with next := some order }) = back from rfl, hwrite, Option.bind_some,
          memory_setLevel, hhead]
      refine ⟨_, hlink.trans (modifyLevel_eq_some hlevelAt _),
        hrewired.trans ((Rewired.setLevel ..).trans (Rewired.setLevel ..)), ?_, fun ptr' => ?_⟩
      · simp only [links_setLevel, htail, Links.pushBack]
        rw [links_modifyOrder_next, links_modifyOrder_prev]
      · rw [level?_setLevel, level?_setLevel, hrewired.qty]
        by_cases heq : ptr' = ptr <;> simp [heq, hhead, back]

end MarketOrderBook

end AlphaTrader
