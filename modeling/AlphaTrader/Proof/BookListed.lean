import AlphaTrader.Proof.BookLists

/-!
# The operations on listed books

Each pointer operation of the book acts on the list of resting orders: unlinking takes an order out,
linking puts one at the end. Linking an order that keeps an old forward pointer would leave the new
level without an end, so `listed_linkOrder` asks for clean pointers; a fresh order has them, a moved
one need not.
-/

namespace AlphaTrader

open Intrusive

namespace MarketOrderBook

variable {π : Type}

/-- The levels and pointers of the book are those of `orders`. The level `spare` exists even when
it has no orders. -/
structure Listed (book : MarketOrderBook π) (orders : List Resting) (spare : Option LevelPtr) :
    Prop where
  addrs : (orders.map Resting.addr).Nodup
  level : ∀ ptr, book.level? ptr =
    if chain orders ptr = [] ∧ spare ≠ some ptr then none else some (summary orders ptr)
  linked : ∀ ptr, Segment book.links none (chain orders ptr) none
  stored : ∀ order ∈ orders, (book.memory order.addr).orderRef = order.ref
    ∧ (book.memory order.addr).qty = order.qty

section Listed

variable {book book' : MarketOrderBook π} {orders before after : List Resting} {order : Resting}
  {ptr : LevelPtr} {spare : Option LevelPtr}

theorem Listed.level_of_spare (hlisted : Listed book orders (some ptr)) :
    book.level? ptr = some (summary orders ptr) := by
  rw [hlisted.level, if_neg (by simp)]

theorem Listed.level_of_mem (hlisted : Listed book orders spare) (hmem : order ∈ orders) :
    book.level? order.ptr = some (summary orders order.ptr) := by
  have hchain : chain orders order.ptr ≠ [] :=
    List.ne_nil_of_mem (mem_chain.mpr ⟨order, hmem, rfl, rfl⟩)
  rw [hlisted.level, if_neg (by simp [hchain])]

/-- Only the memory of listed orders matters, and the levels. -/
theorem Listed.congr (hlisted : Listed book orders spare)
    (hlevel : book'.level? = book.level?)
    (hmemory : ∀ order ∈ orders, book'.memory order.addr = book.memory order.addr) :
    Listed book' orders spare := by
  refine ⟨hlisted.addrs, fun ptr => by rw [hlevel, hlisted.level], fun ptr => ?_,
    fun order hmem => by rw [hmemory order hmem]; exact hlisted.stored order hmem⟩
  have hsame : ∀ a ∈ chain orders ptr, book'.memory a = book.memory a := by
    intro a ha
    obtain ⟨order, hmem, -, rfl⟩ := mem_chain.mp ha
    exact hmemory order hmem
  refine (segment_congr ?_ ?_ none none).mpr (hlisted.linked ptr)
  · intro a ha
    simp [links, hsame a ha]
  · intro a ha
    simp [links, hsame a ha]

theorem listed_nil (hlevel : ∀ ptr, book.level? ptr = none) : Listed book [] none :=
  ⟨by simp, fun ptr => by simp [hlevel], fun _ => trivial, by simp⟩

theorem summary_of_chain_eq_nil (hchain : chain orders ptr = []) :
    summary orders ptr = { price := ptr.2 } := by
  simp [summary, hchain, chain_eq_nil_iff.mp hchain]

theorem listed_getOrCreateLevel (hlisted : Listed book orders none) (side : Side) (price : Price) :
    Listed (book.getOrCreateLevel side price).2 orders (some (side, price)) := by
  have hmemory : (book.getOrCreateLevel side price).2.memory = book.memory := by
    cases side <;> rfl
  refine ⟨hlisted.addrs, fun ptr => ?_, fun ptr => ?_, fun order hmem => ?_⟩
  · rw [level?_getOrCreateLevel]
    by_cases heq : ptr = (side, price)
    · subst heq
      rw [if_pos rfl, if_neg (by simp), hlisted.level]
      by_cases hchain : chain orders (side, price) = []
      · simp [hchain, summary_of_chain_eq_nil hchain]
      · simp [hchain]
    · rw [if_neg heq, hlisted.level]
      simp [Ne.symm heq]
  · simpa [links, hmemory] using hlisted.linked ptr
  · rw [hmemory]
    exact hlisted.stored order hmem

theorem summary_append_singleton (orders : List Resting) (order : Resting) :
    summary (orders ++ [order]) order.ptr =
      { summary orders order.ptr with
        head := (summary orders order.ptr).head.or (some order.addr)
        tail := some order.addr
        totalQty := (summary orders order.ptr).totalQty + order.qty } := by
  simp [summary, chain_append, chain_cons_self, onLevel_append, onLevel_cons_self]

theorem summary_append_of_ne (orders : List Resting) (hne : order.ptr ≠ ptr) :
    summary (orders ++ [order]) ptr = summary orders ptr := by
  simp [summary, chain_append, chain_cons_of_ne [] hne, onLevel_append, onLevel_cons_of_ne [] hne]

/-- **Linking** an order whose own pointers are clean puts it at the end of its level. -/
theorem listed_linkOrder (hlisted : Listed book orders (some order.ptr))
    (hfresh : order.addr ∉ orders.map Resting.addr)
    (href : (book.memory order.addr).orderRef = order.ref)
    (hqty : (book.memory order.addr).qty = order.qty)
    (hnext : book.links.next order.addr = none)
    (hprev : chain orders order.ptr = [] → book.links.prev order.addr = none) :
    ∃ book', book.linkOrder order.ptr order.addr = some book' ∧ Rewired book book'
      ∧ Listed book' (orders ++ [order]) none := by
  have hends : (summary orders order.ptr).head = none ↔ (summary orders order.ptr).tail = none := by
    simp [summary]
  obtain ⟨book', hlink, hrewired, hlinks, hlevel⟩ :=
    linkOrder_spec hlisted.level_of_spare hends order.addr
  have hnotMem : ∀ ptr, order.addr ∉ chain orders ptr :=
    fun ptr hmem => hfresh (mem_addrs_of_mem_chain hmem)
  refine ⟨book', hlink, hrewired, ?_, fun ptr => ?_, fun ptr => ?_, fun other hmem => ?_⟩
  · simpa [List.nodup_append] using ⟨hlisted.addrs, by simpa using hfresh⟩
  · rw [hlevel]
    by_cases heq : ptr = order.ptr
    · subst heq
      have hchain : chain (orders ++ [order]) order.ptr ≠ [] := by
        simp [chain_append, chain_cons_self]
      rw [if_pos rfl, if_neg (by simp [hchain]), summary_append_singleton, hqty]
    · have hne : order.ptr ≠ ptr := Ne.symm heq
      rw [if_neg heq, hlisted.level, summary_append_of_ne orders hne, chain_append,
        chain_cons_of_ne [] hne, chain_nil, List.append_nil]
      simp [hne]
  · rw [hlinks, chain_append]
    by_cases heq : ptr = order.ptr
    · subst heq
      rw [chain_cons_self, chain_nil]
      exact segment_pushBack (hlisted.linked _) (chain_nodup hlisted.addrs _) (hnotMem _) hnext hprev
    · rw [chain_cons_of_ne [] (Ne.symm heq), chain_nil, List.append_nil]
      refine (segment_pushBack_of_disjoint ?_ (hnotMem ptr)).mpr (hlisted.linked ptr)
      intro t ht hmem
      exact heq (ptr_eq_of_mem_chain hlisted.addrs hmem (List.mem_of_getLast? ht))
  · rw [hrewired.orderRef, hrewired.qty]
    rcases List.mem_append.mp hmem with hmem | hmem
    · exact hlisted.stored other hmem
    · rw [List.mem_singleton.mp hmem]
      exact ⟨href, hqty⟩

/-! ### Taking an order out -/

theorem chain_append_cons_self (before after : List Resting) (order : Resting) :
    chain (before ++ order :: after) order.ptr =
      chain before order.ptr ++ order.addr :: chain after order.ptr := by
  rw [chain_append, chain_cons_self]

theorem chain_append_cons_of_ne (before after : List Resting) (hne : order.ptr ≠ ptr) :
    chain (before ++ order :: after) ptr = chain (before ++ after) ptr := by
  rw [chain_append, chain_cons_of_ne after hne, ← chain_append]

theorem summary_append_cons_of_ne (before after : List Resting) (hne : order.ptr ≠ ptr) :
    summary (before ++ order :: after) ptr = summary (before ++ after) ptr := by
  simp [summary, chain_append_cons_of_ne before after hne, onLevel_append,
    onLevel_cons_of_ne after hne]

theorem Listed.neighbours (hlisted : Listed book (before ++ order :: after) spare) :
    book.links.prev order.addr = (chain before order.ptr).getLast?
      ∧ book.links.next order.addr = (chain after order.ptr).head? := by
  have hseg := hlisted.linked order.ptr
  rw [chain_append_cons_self] at hseg
  exact segment_neighbours hseg

theorem summary_unlink (before after : List Resting) (order : Resting) :
    summary (before ++ after) order.ptr =
      { summary (before ++ order :: after) order.ptr with
        head := if (chain before order.ptr).getLast? = none then (chain after order.ptr).head?
          else (summary (before ++ order :: after) order.ptr).head
        tail := if (chain after order.ptr).head? = none then (chain before order.ptr).getLast?
          else (summary (before ++ order :: after) order.ptr).tail
        totalQty := (summary (before ++ order :: after) order.ptr).totalQty - order.qty } := by
  simp only [summary, chain_append, chain_cons_self, onLevel_append, onLevel_cons_self,
    List.map_append, List.map_cons, List.sum_append, List.sum_cons, PriceLevel.mk.injEq, true_and]
  refine ⟨?_, ?_, ?_⟩
  · grind
  · cases hbefore : chain before order.ptr <;> simp
  · cases hafter : chain after order.ptr <;> simp

/-- **Unlinking** takes the order out of its level and leaves its own pointers as they were. -/
theorem listed_unlinkOrder (hlisted : Listed book (before ++ order :: after) none) :
    ∃ book', book.unlinkOrder order.ptr order.addr = some book' ∧ Rewired book book'
      ∧ Listed book' (before ++ after) (some order.ptr)
      ∧ book'.links.next order.addr = book.links.next order.addr
      ∧ book'.links.prev order.addr = book.links.prev order.addr := by
  obtain ⟨hprev, hnext⟩ := hlisted.neighbours
  have hnodup := chain_nodup hlisted.addrs order.ptr
  have hseg := hlisted.linked order.ptr
  rw [chain_append_cons_self] at hnodup hseg
  have hnotBefore : order.addr ∉ chain before order.ptr := fun hmem =>
    List.disjoint_of_nodup_append hnodup hmem (by simp)
  have hnotAfter : order.addr ∉ chain after order.ptr :=
    (List.nodup_cons.mp hnodup.of_append_right).1
  have hself : book.links.prev order.addr ≠ some order.addr := by
    rw [hprev]
    exact fun heq => hnotBefore (List.mem_of_getLast? heq)
  have hselfNext : book.links.next order.addr ≠ some order.addr := by
    rw [hnext]
    exact fun heq => hnotAfter (List.mem_of_head? heq)
  obtain ⟨book', hunlink, hrewired, hlinks, hlevel⟩ :=
    unlinkOrder_spec (hlisted.level_of_mem (List.mem_append_right _ List.mem_cons_self)) hself
  have hsublist : (before ++ after).Sublist (before ++ order :: after) :=
    (List.sublist_cons_self order after).append_left before
  refine ⟨book', hunlink, hrewired, ⟨?_, fun ptr => ?_, fun ptr => ?_, fun other hmem => ?_⟩, ?_, ?_⟩
  · exact hlisted.addrs.sublist (hsublist.map _)
  · rw [hlevel]
    by_cases heq : ptr = order.ptr
    · subst heq
      rw [if_pos rfl, hprev, hnext, (hlisted.stored order (by simp)).2,
        ← summary_unlink before after order, if_neg (by simp)]
    · rw [if_neg heq, hlisted.level, chain_append_cons_of_ne before after (Ne.symm heq),
        summary_append_cons_of_ne before after (Ne.symm heq)]
      simp [Ne.symm heq]
  · rw [hlinks]
    by_cases heq : ptr = order.ptr
    · subst heq
      rw [chain_append]
      exact segment_unlink hseg hnodup
    · rw [segment_unlink_of_disjoint hseg ?_]
      · rw [← chain_append_cons_of_ne before after (Ne.symm heq)]
        exact hlisted.linked ptr
      · intro a ha hmem
        rw [← chain_append_cons_of_ne before after (Ne.symm heq)] at ha
        rw [← chain_append_cons_self] at hmem
        exact heq (ptr_eq_of_mem_chain hlisted.addrs ha hmem)
  · rw [hrewired.orderRef, hrewired.qty]
    exact hlisted.stored other (hsublist.subset hmem)
  · rw [hlinks]
    exact Links.unlink_next_self hself
  · rw [hlinks]
    exact Links.unlink_prev_self hself hselfNext

theorem listed_eraseIfEmpty (hlisted : Listed book orders (some ptr)) :
    ∃ book', book.eraseIfEmpty ptr.1 ptr = some book' ∧ Rewired book book'
      ∧ Listed book' orders none ∧ book'.links = book.links := by
  have hlevel := hlisted.level_of_spare
  by_cases hchain : chain orders ptr = []
  · have herase : book.eraseIfEmpty ptr.1 ptr = some (book.eraseLevel ptr) := by
      simp [eraseIfEmpty, hlevel, summary, hchain]
    have hmemory : (book.eraseLevel ptr).memory = book.memory := by
      obtain ⟨side, price⟩ := ptr
      cases side <;> rfl
    refine ⟨_, herase, Rewired.eraseLevel .., ⟨hlisted.addrs, fun ptr' => ?_, fun ptr' => ?_,
      fun order hmem => ?_⟩, by simp [links, hmemory]⟩
    · rw [level?_eraseLevel]
      by_cases heq : ptr' = ptr
      · subst heq
        simp [hchain]
      · rw [if_neg heq, hlisted.level]
        simp [Ne.symm heq]
    · simpa [links, hmemory] using hlisted.linked ptr'
    · rw [hmemory]
      exact hlisted.stored order hmem
  · have hkeep : book.eraseIfEmpty ptr.1 ptr = some book := by
      obtain ⟨a, rest, hcons⟩ := List.exists_cons_of_ne_nil hchain
      simp [eraseIfEmpty, hlevel, summary, hcons]
    refine ⟨book, hkeep, Rewired.refl book, ⟨hlisted.addrs, fun ptr' => ?_, hlisted.linked,
      hlisted.stored⟩, rfl⟩
    rw [hlisted.level]
    by_cases heq : ptr' = ptr
    · subst heq
      simp [hchain]
    · simp [Ne.symm heq]

end Listed

end MarketOrderBook

end AlphaTrader
