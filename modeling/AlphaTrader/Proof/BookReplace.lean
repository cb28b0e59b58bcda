import AlphaTrader.Proof.BookRepresents

/-!
# Moving an order

`replaceOrder` unlinks an order and links it again, on another level or at the end of its own,
without resetting its pointers. The move is sound when the order was the last of its level and,
unless it was alone there, the target level exists already: the forward pointer is then null, and the
backward pointer is overwritten or null too. In every other case the moved order brings a pointer of
its old level along.
-/

namespace AlphaTrader

open Intrusive

namespace MarketOrderBook

variable {π : Type}

/-- The order after a move: the same address under the new reference. -/
def moved (order : Resting) (update : MarketUpdate) : Resting :=
  ⟨order.addr, update.newRef, update.side, update.price, update.qty⟩

section Replace

variable {book : MarketOrderBook π} {orders before after : List Resting} {order : Resting}
  {update : MarketUpdate}

theorem Listed.chain_rest_ne_nil (hlisted : Listed book (before ++ order :: after) none) {ptr : LevelPtr}
    (hprev : book.links.prev order.addr ≠ none) (hlevel : book.level? ptr ≠ none) :
    chain (before ++ after) ptr ≠ [] := by
  by_cases heq : order.ptr = ptr
  · subst heq
    rw [hlisted.neighbours.1] at hprev
    rw [chain_append]
    intro hnil
    apply hprev
    rw [(List.append_eq_nil_iff.mp hnil).1]
    rfl
  · intro hnil
    apply hlevel
    rw [hlisted.level, chain_append_cons_of_ne before after heq, if_pos ⟨hnil, by simp⟩]

theorem Listed.chain_rest_eq_nil (hlisted : Listed book (before ++ order :: after) none)
    {ptr : LevelPtr} (hlevel : book.level? ptr = none) : chain (before ++ after) ptr = [] := by
  have hchain : chain (before ++ order :: after) ptr = [] := by
    by_contra hne
    rw [hlisted.level, if_neg (by simp [hne])] at hlevel
    cases hlevel
  by_cases heq : order.ptr = ptr
  · subst heq
    simp [chain_append_cons_self] at hchain
  · rwa [chain_append_cons_of_ne before after heq] at hchain

/-- The book just before `replaceOrder` links the order again: the order is off its level, has its
new reference and quantity, and still has the pointers it had on its old level. -/
structure Detached (book detached : MarketOrderBook π) (orders : List Resting) (order : Resting)
    (update : MarketUpdate) : Prop where
  tickerId : detached.tickerId = book.tickerId
  orderIndex : detached.orderIndex = book.orderIndex
  orderPool : detached.orderPool = book.orderPool
  inSnapshot : detached.inSnapshot = book.inSnapshot
  listed : Listed detached orders (some (moved order update).ptr)
  fresh : (moved order update).addr ∉ orders.map Resting.addr
  ref : (detached.memory order.addr).orderRef = update.newRef
  qty : (detached.memory order.addr).qty = update.qty
  next : detached.links.next order.addr = book.links.next order.addr
  prev : detached.links.prev order.addr = book.links.prev order.addr

variable [ObjectPool π]

/-- `replaceOrder` detaches the order, links it again and moves its entry in the index. -/
theorem replaceOrder_detached (hrep : Represents book (before ++ order :: after))
    (href : order.ref = update.orderRef)
    (hnew : ∀ other ∈ before ++ order :: after, other.ref ≠ update.newRef) :
    ∃ detached, Detached book detached (before ++ after) order update
      ∧ book.replaceOrder update =
          (detached.linkOrder (moved order update).ptr order.addr).map fun linked =>
            (true, { linked with
              orderIndex := (linked.orderIndex.erase update.orderRef).insert update.newRef
                (moved order update).location }) := by
  have hlocation : book.orderIndex[update.orderRef]? = some order.location :=
    (hrep.index _ _).mpr ⟨order, by simp, href, rfl⟩
  have hcontains : book.orderIndex.contains update.newRef = false := by
    rw [Bool.eq_false_iff]
    intro hcontains
    obtain ⟨other, hother, hotherRef⟩ := hrep.index.contains_iff.mp hcontains
    exact hnew other hother hotherRef
  obtain ⟨unlinked, hunlink, hrewired₁, hlisted₁, hnext₁, hprev₁⟩ :=
    listed_unlinkOrder hrep.toListed
  obtain ⟨erased, herase, hrewired₂, hlisted₂, hlinks₂⟩ := listed_eraseIfEmpty hlisted₁
  let leveled := (erased.getOrCreateLevel update.side update.price).2
  let detached := leveled.modifyOrder order.addr fun o =>
    { o with orderRef := update.newRef, qty := update.qty }
  have hleveled : erased.getOrCreateLevel update.side update.price =
      ((moved order update).ptr, leveled) := by
    refine Prod.ext ?_ rfl
    simp only [getOrCreateLevel, moved, Resting.ptr]
    cases update.side <;> rfl
  have hrewired : Rewired book leveled :=
    (hrewired₁.trans hrewired₂).trans (Rewired.getOrCreateLevel ..)
  have hmemory : leveled.memory = erased.memory := by
    simp only [leveled, getOrCreateLevel]
    cases update.side <;> rfl
  have hfresh : (moved order update).addr ∉ (before ++ after).map Resting.addr := by
    have hnodup := hrep.addrs
    rw [List.map_append, List.map_cons, List.nodup_middle, List.nodup_cons, ← List.map_append]
      at hnodup
    exact hnodup.1
  have hlisted : Listed detached (before ++ after) (some (moved order update).ptr) := by
    refine (listed_getOrCreateLevel hlisted₂ update.side update.price).congr ?_ ?_
    · exact level?_modifyOrder ..
    · intro other hother
      have hne : other.addr ≠ order.addr := fun heq =>
        hfresh (heq ▸ List.mem_map_of_mem hother)
      simp only [detached, modifyOrder, Function.update_of_ne hne]
      rfl
  have hlinks : detached.links = unlinked.links := by
    rw [← hlinks₂]
    simp only [links, detached, modifyOrder, hmemory, Links.mk.injEq]
    constructor <;> funext a <;> by_cases heq : a = order.addr <;> simp [heq]
  refine ⟨detached, ⟨hrewired.tickerId, hrewired.orderIndex, hrewired.orderPool,
    hrewired.inSnapshot, hlisted, hfresh, ?_, ?_, ?_, ?_⟩, ?_⟩
  · simp [detached, modifyOrder]
  · simp [detached, modifyOrder]
  · rw [hlinks, hnext₁]
  · rw [hlinks, hprev₁]
  · simp only [replaceOrder, hlocation, hcontains, Resting.location, hunlink, Option.bind_eq_bind,
      Option.bind_some, Bool.false_eq_true, if_false]
    rw [show order.side = order.ptr.1 from rfl, herase, Option.bind_some, hleveled,
      Option.map_eq_bind]
    rfl

/-- **Moving** an order with clean pointers takes it out and puts it at the end of its new level. -/
theorem represents_replaceOrder (hrep : Represents book orders) (hmem : order ∈ orders)
    (href : order.ref = update.orderRef)
    (hnew : ∀ other ∈ orders, other.ref ≠ update.newRef)
    (hnext : book.links.next order.addr = none)
    (hprev : book.links.prev order.addr = none ∨
      book.level? (update.side, update.price) ≠ none) :
    ∃ book', book.replaceOrder update = some (true, book') ∧ SameMode book book'
      ∧ Represents book' (removeRef orders order.ref ++ [moved order update]) := by
  obtain ⟨before, after, rfl⟩ := List.append_of_mem hmem
  obtain ⟨detached, hdetached, hreplace⟩ := replaceOrder_detached hrep href hnew
  obtain ⟨linked, hlink, hrewired, hlisted⟩ := listed_linkOrder hdetached.listed hdetached.fresh
    hdetached.ref hdetached.qty (hdetached.next.trans hnext) fun hnil => by
      refine hdetached.prev.trans (by_contra fun hnone => ?_)
      exact hrep.toListed.chain_rest_ne_nil hnone (hprev.resolve_left hnone) hnil
  rw [show (moved order update).addr = order.addr from rfl] at hlink
  rw [hlink] at hreplace
  have hremove := removeRef_append_cons hrep.refs
  have hother : ∀ other ∈ removeRef (before ++ order :: after) order.ref,
      other.ref ≠ update.newRef := fun other hother => hnew other (mem_removeRef.mp hother).1
  refine ⟨_, hreplace, ⟨?_, ?_⟩, ?_, ?_, ?_, fun a => ?_⟩
  · exact hrewired.tickerId.trans hdetached.tickerId
  · exact hrewired.inSnapshot.trans hdetached.inSnapshot
  · rw [hremove]
    exact hlisted.congr (by funext ⟨side, price⟩; cases side <;> rfl) fun _ _ => rfl
  · rw [List.map_append, List.nodup_append]
    refine ⟨hrep.refs.sublist (List.filter_sublist.map _), by simp, ?_⟩
    intro ref hmem ref' hmem'
    obtain ⟨other, horder, rfl⟩ := List.mem_map.mp hmem
    obtain rfl : ref' = update.newRef := by simpa [moved] using hmem'
    exact hother other horder
  · rw [hrewired.orderIndex, hdetached.orderIndex, ← href]
    exact (hrep.index.erase order.ref).insert (moved order update) hother
  · rw [hrewired.orderPool, hdetached.orderPool, hrep.live, hremove]
    simp only [List.map_append, List.map_cons, List.mem_append, List.mem_cons, moved, List.map_nil,
      List.not_mem_nil, or_false]
    tauto

/-- **Moving** an order that brings a pointer along leaves that pointer at an end of its level. -/
theorem replaceOrder_stale (hrep : Represents book orders) (hmem : order ∈ orders)
    (href : order.ref = update.orderRef)
    (hnew : ∀ other ∈ orders, other.ref ≠ update.newRef)
    (hstale : ¬ (book.links.next order.addr = none ∧ (book.links.prev order.addr = none ∨
      book.level? (update.side, update.price) ≠ none))) :
    ∃ book' level, book.replaceOrder update = some (true, book')
      ∧ book'.level? (update.side, update.price) = some level ∧ level.tail = some order.addr
      ∧ (book'.links.next order.addr ≠ none
        ∨ level.head = some order.addr ∧ book'.links.prev order.addr ≠ none) := by
  obtain ⟨before, after, rfl⟩ := List.append_of_mem hmem
  obtain ⟨detached, hdetached, hreplace⟩ := replaceOrder_detached hrep href hnew
  have hends : (summary (before ++ after) (moved order update).ptr).head = none ↔
      (summary (before ++ after) (moved order update).ptr).tail = none := by
    simp [summary]
  obtain ⟨linked, hlink, hrewired, hlinks, hlevel⟩ :=
    linkOrder_spec hdetached.listed.level_of_spare hends order.addr
  rw [hlink] at hreplace
  have hlevelAt := hlevel (moved order update).ptr
  rw [if_pos rfl] at hlevelAt
  refine ⟨_, _, hreplace, hlevelAt, rfl, ?_⟩
  by_cases hnext : book.links.next order.addr = none
  · right
    obtain ⟨hprev, hlevelNone⟩ : book.links.prev order.addr ≠ none
        ∧ book.level? (update.side, update.price) = none := by
      simpa [hnext] using hstale
    have hchain : chain (before ++ after) (moved order update).ptr = [] :=
      hrep.toListed.chain_rest_eq_nil hlevelNone
    refine ⟨by simp [summary, hchain], ?_⟩
    change linked.links.prev order.addr ≠ none
    rw [hlinks, show (summary (before ++ after) (moved order update).ptr).tail = none by
      simp [summary, hchain], Links.pushBack, hdetached.prev]
    exact hprev
  · left
    change linked.links.next order.addr ≠ none
    rw [hlinks, Links.pushBack_next_self, hdetached.next]
    · exact hnext
    · intro htail
      exact hdetached.fresh (mem_addrs_of_mem_chain (List.mem_of_getLast? htail))

end Replace

end MarketOrderBook

end AlphaTrader
