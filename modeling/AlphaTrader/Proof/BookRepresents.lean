import AlphaTrader.Proof.BookListed

/-!
# Books as lists of resting orders

`Represents` adds the index and the pool to `Listed`: the index locates exactly the resting orders,
and exactly they are in use in the pool. Every operation of the book then acts on the list alone:
adding appends, reducing changes one quantity, erasing removes one order.
-/

namespace AlphaTrader

open Intrusive

namespace MarketOrderBook

variable {π : Type}

def removeRef (orders : List Resting) (ref : OrderId) : List Resting :=
  orders.filter fun order => order.ref ≠ ref

theorem mem_removeRef {orders : List Resting} {ref : OrderId} {order : Resting} :
    order ∈ removeRef orders ref ↔ order ∈ orders ∧ order.ref ≠ ref := by
  simp [removeRef]

def reduceRef (orders : List Resting) (ref : OrderId) (qty : Quantity) : List Resting :=
  orders.map fun order => if order.ref = ref then { order with qty := order.qty - qty } else order

/-- The index locates the listed orders, each under its reference, and nothing else. -/
def Indexes (index : Std.TreeMap OrderId OrderLocation) (orders : List Resting) : Prop :=
  ∀ ref location, index[ref]? = some location ↔
    ∃ order ∈ orders, order.ref = ref ∧ order.location = location

section Indexes

variable {index : Std.TreeMap OrderId OrderLocation} {orders : List Resting}

theorem Indexes.eq_none_iff (hindex : Indexes index orders) {ref : OrderId} :
    index[ref]? = none ↔ ∀ order ∈ orders, order.ref ≠ ref := by
  rw [Option.eq_none_iff_forall_ne_some]
  constructor
  · intro hnone order hmem href
    exact hnone order.location ((hindex ref _).mpr ⟨order, hmem, href, rfl⟩)
  · intro hforall location hlocation
    obtain ⟨order, hmem, href, -⟩ := (hindex ref location).mp hlocation
    exact hforall order hmem href

theorem Indexes.contains_iff (hindex : Indexes index orders) {ref : OrderId} :
    index.contains ref = true ↔ ∃ order ∈ orders, order.ref = ref := by
  rw [Std.TreeMap.contains_eq_isSome_getElem?, Option.isSome_iff_exists]
  constructor
  · rintro ⟨location, hlocation⟩
    obtain ⟨order, hmem, href, -⟩ := (hindex ref location).mp hlocation
    exact ⟨order, hmem, href⟩
  · rintro ⟨order, hmem, href⟩
    exact ⟨order.location, (hindex ref _).mpr ⟨order, hmem, href, rfl⟩⟩

theorem Indexes.erase (hindex : Indexes index orders) (erased : OrderId) :
    Indexes (index.erase erased) (removeRef orders erased) := by
  intro ref location
  rw [Std.TreeMap.getElem?_erase]
  by_cases heq : erased = ref
  · subst heq
    simp only [Std.ReflCmp.compare_self, if_true, reduceCtorEq, false_iff]
    rintro ⟨order, horder, href, -⟩
    exact (mem_removeRef.mp horder).2 href
  · rw [if_neg (by simpa using heq), hindex]
    constructor
    · rintro ⟨order, horder, href, hlocation⟩
      have hne : order.ref ≠ erased := fun h => heq (h.symm.trans href)
      exact ⟨order, mem_removeRef.mpr ⟨horder, hne⟩, href, hlocation⟩
    · rintro ⟨order, horder, href, hlocation⟩
      exact ⟨order, (mem_removeRef.mp horder).1, href, hlocation⟩

theorem Indexes.insert (hindex : Indexes index orders) (new : Resting)
    (hnew : ∀ order ∈ orders, order.ref ≠ new.ref) :
    Indexes (index.insert new.ref new.location) (orders ++ [new]) := by
  intro ref location
  rw [Std.TreeMap.getElem?_insert]
  by_cases heq : new.ref = ref
  · subst heq
    simp only [Std.ReflCmp.compare_self, if_true, Option.some.injEq]
    constructor
    · intro hlocation
      exact ⟨new, by simp, rfl, hlocation⟩
    · rintro ⟨order, horder, href, hlocation⟩
      rcases List.mem_append.mp horder with horder | horder
      · exact absurd href (hnew order horder)
      · rw [← hlocation, List.mem_singleton.mp horder]
  · rw [if_neg (by simpa using heq), hindex]
    constructor
    · rintro ⟨order, horder, href, hlocation⟩
      exact ⟨order, List.mem_append_left _ horder, href, hlocation⟩
    · rintro ⟨order, horder, href, hlocation⟩
      rcases List.mem_append.mp horder with horder | horder
      · exact ⟨order, horder, href, hlocation⟩
      · rw [List.mem_singleton.mp horder] at href
        exact absurd href heq

theorem Indexes.reduceRef (hindex : Indexes index orders) (reduced : OrderId) (qty : Quantity) :
    Indexes index (reduceRef orders reduced qty) := by
  have hsame : ∀ order : Resting,
      (if order.ref = reduced then { order with qty := order.qty - qty } else order).ref = order.ref
        ∧ (if order.ref = reduced then { order with qty := order.qty - qty } else order).location
          = order.location := by
    intro order
    split <;> exact ⟨rfl, rfl⟩
  intro ref location
  rw [hindex]
  simp only [MarketOrderBook.reduceRef, List.mem_map, exists_exists_and_eq_and, hsame]

end Indexes

/-- What an order operation leaves as it was: the ticker and the snapshot flag. -/
structure SameMode (book book' : MarketOrderBook π) : Prop where
  tickerId : book'.tickerId = book.tickerId
  inSnapshot : book'.inSnapshot = book.inSnapshot

variable [ObjectPool π]

/-- The book in memory is the list `orders`: its levels, its pointers, its index and its pool. -/
structure Represents (book : MarketOrderBook π) (orders : List Resting) : Prop
    extends Listed book orders none where
  refs : (orders.map Resting.ref).Nodup
  index : Indexes book.orderIndex orders
  live : ∀ a, ObjectPool.live book.orderPool a ↔ a ∈ orders.map Resting.addr

section Represents

variable {book book' : MarketOrderBook π} {orders before after : List Resting} {order : Resting}
  {ref : OrderId}

theorem eq_of_ref_eq (hrefs : (orders.map Resting.ref).Nodup) {first second : Resting}
    (hfirst : first ∈ orders) (hsecond : second ∈ orders) (href : first.ref = second.ref) :
    first = second :=
  List.inj_on_of_nodup_map hrefs hfirst hsecond href

theorem ref_ne_of_mem_rest (hrefs : ((before ++ order :: after).map Resting.ref).Nodup)
    {other : Resting} (hmem : other ∈ before ++ after) : other.ref ≠ order.ref := by
  intro href
  rw [List.map_append, List.map_cons, List.nodup_middle, List.nodup_cons] at hrefs
  apply hrefs.1
  rw [← List.map_append, ← href]
  exact List.mem_map_of_mem hmem

theorem removeRef_append_cons (hrefs : ((before ++ order :: after).map Resting.ref).Nodup) :
    removeRef (before ++ order :: after) order.ref = before ++ after := by
  have hbefore : removeRef before order.ref = before :=
    List.filter_eq_self.mpr fun other hmem => by
      simpa using ref_ne_of_mem_rest hrefs (List.mem_append_left _ hmem)
  have hafter : removeRef after order.ref = after :=
    List.filter_eq_self.mpr fun other hmem => by
      simpa using ref_ne_of_mem_rest hrefs (List.mem_append_right _ hmem)
  rw [removeRef, List.filter_append, List.filter_cons_of_neg (by simp)]
  exact congrArg₂ (· ++ ·) hbefore hafter

theorem reduceRef_append_cons (hrefs : ((before ++ order :: after).map Resting.ref).Nodup)
    (qty : Quantity) :
    reduceRef (before ++ order :: after) order.ref qty =
      before ++ { order with qty := order.qty - qty } :: after := by
  have hkeep : ∀ rest, (∀ other ∈ rest, other ∈ before ++ after) →
      reduceRef rest order.ref qty = rest := by
    intro rest hsub
    refine (List.map_congr_left fun other hmem => ?_).trans (List.map_id rest)
    rw [if_neg (ref_ne_of_mem_rest hrefs (hsub other hmem))]
    rfl
  have hbefore := hkeep before fun other => List.mem_append_left _
  have hafter := hkeep after fun other => List.mem_append_right _
  rw [reduceRef, List.map_append, List.map_cons, if_pos rfl]
  exact congrArg₂ (fun left right => left ++ _ :: right) hbefore hafter

/-- **Erasing** a tracked order removes it from the list and returns it to the pool. -/
theorem represents_eraseOrder (hrep : Represents book orders) (hmem : order ∈ orders) :
    ∃ book', book.eraseOrder order.ref = some (true, book') ∧ SameMode book book'
      ∧ Represents book' (removeRef orders order.ref) := by
  obtain ⟨before, after, rfl⟩ := List.append_of_mem hmem
  have hlocation : book.orderIndex[order.ref]? = some order.location :=
    (hrep.index _ _).mpr ⟨order, hmem, rfl, rfl⟩
  obtain ⟨unlinked, hunlink, hrewired, hlisted, -, -⟩ := listed_unlinkOrder hrep.toListed
  have hlisted' : Listed (unlinked.deallocateOrder order.addr) (before ++ after) (some order.ptr) :=
    hlisted.congr (by funext ⟨side, price⟩; cases side <;> rfl) fun _ _ => rfl
  obtain ⟨erased, herase, hrewired', hlisted'', -⟩ := listed_eraseIfEmpty hlisted'
  let final : MarketOrderBook π := { erased with orderIndex := erased.orderIndex.erase order.ref }
  have hfinal : book.eraseOrder order.ref = some (true, final) := by
    simp only [eraseOrder, hlocation, Resting.location, hunlink, Option.bind_eq_bind,
      Option.bind_some]
    rw [show order.side = order.ptr.1 from rfl, herase]
    rfl
  have hremove := removeRef_append_cons hrep.refs
  have hindex : final.orderIndex = book.orderIndex.erase order.ref := by
    simp only [final, hrewired'.orderIndex]
    rw [show (unlinked.deallocateOrder order.addr).orderIndex = unlinked.orderIndex from rfl,
      hrewired.orderIndex]
  have hpool : final.orderPool = ObjectPool.deallocate book.orderPool order.addr := by
    simp only [final, hrewired'.orderPool]
    rw [show (unlinked.deallocateOrder order.addr).orderPool
      = ObjectPool.deallocate unlinked.orderPool order.addr from rfl, hrewired.orderPool]
  refine ⟨final, hfinal, ⟨?_, ?_⟩, ?_, ?_, ?_, fun a => ?_⟩
  · simp only [final, hrewired'.tickerId]
    exact hrewired.tickerId
  · simp only [final, hrewired'.inSnapshot]
    exact hrewired.inSnapshot
  · rw [hremove]
    exact hlisted''.congr (by funext ⟨side, price⟩; cases side <;> rfl) fun _ _ => rfl
  · exact hrep.refs.sublist (List.filter_sublist.map _)
  · rw [hindex]
    exact hrep.index.erase order.ref
  · rw [hpool, ObjectPool.live_deallocate _ _ _ ((hrep.live _).mpr (List.mem_map_of_mem hmem)),
      hrep.live, hremove]
    have haddrs := hrep.addrs
    rw [List.map_append, List.map_cons, List.nodup_middle, List.nodup_cons] at haddrs
    simp only [List.map_append, List.map_cons, List.mem_append, List.mem_cons] at haddrs ⊢
    constructor
    · rintro ⟨hne, hbefore | heq | hafter⟩
      · exact Or.inl hbefore
      · exact absurd heq hne
      · exact Or.inr hafter
    · intro hmem'
      refine ⟨fun heq => haddrs.1 (heq ▸ hmem'), ?_⟩
      rcases hmem' with hbefore | hafter
      · exact Or.inl hbefore
      · exact Or.inr (Or.inr hafter)

/-- The order that an add puts at the end, at the address the pool hands out. -/
def added (book : MarketOrderBook π) (update : MarketUpdate) : Resting :=
  ⟨(ObjectPool.allocate book.orderPool).1, update.orderRef, update.side, update.price, update.qty⟩

/-- **Adding** an untracked order appends it. -/
theorem represents_addOrder (hrep : Represents book orders) {update : MarketUpdate}
    (hnew : ∀ order ∈ orders, order.ref ≠ update.orderRef) :
    ∃ book', book.addOrder update = some book' ∧ SameMode book book'
      ∧ Represents book' (orders ++ [added book update]) := by
  have hfresh : (added book update).addr ∉ orders.map Resting.addr := fun hmem =>
    ObjectPool.not_live_allocate book.orderPool ((hrep.live _).mpr hmem)
  let leveled := (book.getOrCreateLevel update.side update.price).2
  let allocated := (leveled.allocateOrder update.orderRef update.qty).2
  have hleveled : Rewired book leveled := Rewired.getOrCreateLevel ..
  have haddr : (leveled.allocateOrder update.orderRef update.qty).1 = (added book update).addr := by
    simp only [allocateOrder, hleveled.orderPool]
    rfl
  have hmemory : allocated.memory = Function.update leveled.memory (added book update).addr
      { orderRef := update.orderRef, qty := update.qty, next := none, prev := none } := by
    simp only [allocated, allocateOrder, modifyOrder, hleveled.orderPool]
    rfl
  have hlisted : Listed allocated orders (some (added book update).ptr) := by
    refine (listed_getOrCreateLevel hrep.toListed update.side update.price).congr ?_ ?_
    · funext ptr
      obtain ⟨side, price⟩ := ptr
      cases side <;> rfl
    · intro order hmem
      have hne : order.addr ≠ (added book update).addr := fun heq =>
        hfresh (heq ▸ List.mem_map_of_mem hmem)
      rw [hmemory, Function.update_of_ne hne]
  obtain ⟨linked, hlink, hrewired, hlisted'⟩ := listed_linkOrder hlisted hfresh
    (by rw [hmemory, Function.update_self]; rfl) (by rw [hmemory, Function.update_self]; rfl)
    (by simp [links, hmemory]) (fun _ => by simp [links, hmemory])
  have hlevelPtr : (book.getOrCreateLevel update.side update.price).1 = (added book update).ptr := by
    simp only [getOrCreateLevel, added, Resting.ptr]
    cases update.side <;> rfl
  let final : MarketOrderBook π := { linked with
    orderIndex := linked.orderIndex.insert update.orderRef (added book update).location }
  have hfinal : book.addOrder update = some final := by
    have hadd : book.addOrder update =
        (allocated.linkOrder (book.getOrCreateLevel update.side update.price).1
          (leveled.allocateOrder update.orderRef update.qty).1).bind fun linked =>
            some { linked with
              orderIndex := linked.orderIndex.insert update.orderRef
                ⟨update.side, (book.getOrCreateLevel update.side update.price).1,
                  (leveled.allocateOrder update.orderRef update.qty).1⟩ } := rfl
    rw [hadd, haddr, hlevelPtr, hlink]
    rfl
  have hindex : final.orderIndex =
      book.orderIndex.insert update.orderRef (added book update).location := by
    simp only [final, hrewired.orderIndex]
    rw [show allocated.orderIndex = leveled.orderIndex from rfl, hleveled.orderIndex]
  have hpool : final.orderPool = (ObjectPool.allocate book.orderPool).2 := by
    simp only [final, hrewired.orderPool]
    rw [show allocated.orderPool = (ObjectPool.allocate leveled.orderPool).2 from rfl,
      hleveled.orderPool]
  refine ⟨final, hfinal, ⟨?_, ?_⟩, ?_, ?_, ?_, fun a => ?_⟩
  · simp only [final, hrewired.tickerId]
    exact hleveled.tickerId
  · simp only [final, hrewired.inSnapshot]
    exact hleveled.inSnapshot
  · refine hlisted'.congr ?_ fun _ _ => rfl
    funext ptr
    obtain ⟨side, price⟩ := ptr
    cases side <;> rfl
  · rw [List.map_append, List.nodup_append]
    refine ⟨hrep.refs, by simp, ?_⟩
    intro ref hmem ref' hmem'
    obtain ⟨order, horder, rfl⟩ := List.mem_map.mp hmem
    obtain rfl : ref' = update.orderRef := by simpa [added] using hmem'
    exact hnew order horder
  · rw [hindex]
    exact hrep.index.insert (added book update) hnew
  · rw [hpool, ObjectPool.live_allocate, hrep.live, List.map_append, List.mem_append, or_comm]
    simp [added]

/-- **Reducing** an order by less than its quantity changes that quantity and its level's total. -/
theorem represents_reduceQty (hrep : Represents book orders) (hmem : order ∈ orders)
    (qty : Quantity) :
    ∃ book', (book.modifyOrder order.addr fun o => { o with qty := o.qty - qty }).modifyLevel order.ptr
        (fun level => { level with totalQty := level.totalQty - qty }) = some book'
      ∧ SameMode book book' ∧ Represents book' (reduceRef orders order.ref qty) := by
  obtain ⟨before, after, rfl⟩ := List.append_of_mem hmem
  let reduced : Resting := { order with qty := order.qty - qty }
  let written := book.modifyOrder order.addr fun o => { o with qty := o.qty - qty }
  have hreduce : reduceRef (before ++ order :: after) order.ref qty = before ++ reduced :: after :=
    reduceRef_append_cons hrep.refs qty
  have hlevel : written.level? order.ptr = some (summary (before ++ order :: after) order.ptr) := by
    simpa [written] using hrep.level_of_mem hmem
  have hlinks : written.links = book.links := by
    simp only [links, written, modifyOrder, Links.mk.injEq]
    constructor <;> funext a <;> by_cases heq : a = order.addr <;> simp [heq]
  have hchain : ∀ ptr, chain (before ++ reduced :: after) ptr = chain (before ++ order :: after) ptr := by
    intro ptr
    by_cases heq : order.ptr = ptr
    · subst heq
      exact (chain_append_cons_self before after reduced).trans
        (chain_append_cons_self before after order).symm
    · rw [chain_append_cons_of_ne before after heq]
      exact chain_append_cons_of_ne before after heq
  have hsummary : summary (before ++ reduced :: after) order.ptr =
      { summary (before ++ order :: after) order.ptr with
        totalQty := (summary (before ++ order :: after) order.ptr).totalQty - qty } := by
    have hon : onLevel (reduced :: after) order.ptr = reduced :: onLevel after order.ptr :=
      onLevel_cons_self reduced after
    simp only [summary, hchain, onLevel_append, onLevel_cons_self, hon, List.map_append,
      List.map_cons, List.sum_append, List.sum_cons, PriceLevel.mk.injEq, true_and, and_true]
    grind
  have haddrs : (before ++ reduced :: after).map Resting.addr =
      (before ++ order :: after).map Resting.addr := by
    simp [reduced]
  have hrefs : (before ++ reduced :: after).map Resting.ref =
      (before ++ order :: after).map Resting.ref := by
    simp [reduced]
  have hmemory : ∀ other ∈ before ++ after, written.memory other.addr = book.memory other.addr := by
    intro other hother
    have hnodup := hrep.addrs
    rw [List.map_append, List.map_cons, List.nodup_middle, List.nodup_cons, ← List.map_append]
      at hnodup
    have hne : other.addr ≠ order.addr := fun heq =>
      hnodup.1 (heq ▸ List.mem_map_of_mem hother)
    simp only [written, modifyOrder, Function.update_of_ne hne]
  refine ⟨_, modifyLevel_eq_some hlevel _, ⟨?_, ?_⟩, ⟨?_, fun ptr => ?_, fun ptr => ?_,
    fun other hother => ?_⟩, ?_, ?_, fun a => ?_⟩
  · exact (Rewired.setLevel ..).tickerId
  · exact (Rewired.setLevel ..).inSnapshot
  · rw [hreduce, haddrs]
    exact hrep.addrs
  · rw [hreduce, level?_setLevel, hchain]
    by_cases heq : ptr = order.ptr
    · subst heq
      have hne : chain (before ++ order :: after) order.ptr ≠ [] := by
        simp [chain_append_cons_self]
      rw [if_pos rfl, if_neg (by simp [hne]), hsummary]
    · rw [if_neg heq, show written.level? = book.level? from level?_modifyOrder .., hrep.level,
        summary_append_cons_of_ne before after (Ne.symm heq),
        summary_append_cons_of_ne before after (show reduced.ptr ≠ ptr from Ne.symm heq)]
  · rw [hreduce, hchain, links_setLevel, hlinks]
    exact hrep.linked ptr
  · rw [hreduce] at hother
    rw [memory_setLevel]
    rcases List.mem_append.mp hother with hbefore | hcons
    · rw [hmemory other (List.mem_append_left _ hbefore)]
      exact hrep.stored other (by simp [hbefore])
    · rcases List.mem_cons.mp hcons with rfl | hafter
      · have hstored := hrep.stored order hmem
        simp only [written, modifyOrder, reduced, Function.update_self, hstored.1, hstored.2,
          and_self]
      · rw [hmemory other (List.mem_append_right _ hafter)]
        exact hrep.stored other (by simp [hafter])
  · rw [hreduce, hrefs]
    exact hrep.refs
  · rw [(Rewired.setLevel ..).orderIndex]
    exact hrep.index.reduceRef order.ref qty
  · rw [hreduce, haddrs, ← hrep.live, (Rewired.setLevel ..).orderPool]
    rfl

end Represents

end MarketOrderBook

end AlphaTrader
