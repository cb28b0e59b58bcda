import AlphaTrader.Types

/-!
# The flat reference book

What an order book is for, without its data structures: the resting orders in order of arrival.
Every observable is computed from that list from scratch.
-/

namespace AlphaTrader

structure FlatEntry where
  ref : OrderId
  side : Side
  price : Price
  qty : Quantity
  deriving DecidableEq, Repr

structure FlatBook where
  tickerId : TickerId
  entries : List FlatEntry := []
  inSnapshot : Bool := false

namespace FlatBook

def init (tickerId : TickerId) : FlatBook := { tickerId := tickerId }

def tracks (book : FlatBook) (ref : OrderId) : Bool := book.entries.any fun entry => entry.ref = ref

def append (book : FlatBook) (entry : FlatEntry) : FlatBook :=
  { book with entries := book.entries ++ [entry] }

def remove (book : FlatBook) (ref : OrderId) : FlatBook :=
  { book with entries := book.entries.filter fun entry => entry.ref ≠ ref }

/-- A reduction by at least what is left removes the order. -/
def reduce (book : FlatBook) (ref : OrderId) (qty : Quantity) : FlatBook :=
  { book with
    entries := book.entries.filterMap fun entry =>
      if entry.ref = ref then
        if entry.qty ≤ qty then none else some { entry with qty := entry.qty - qty }
      else some entry }

def applyUpdate (book : FlatBook) (update : MarketUpdate) : FlatBook :=
  match update.type with
  | .snapshotStart => { book with entries := [], inSnapshot := true }
  | .snapshotClear =>
      if update.tickerId = book.tickerId then { book with entries := [] } else book
  | .snapshotEnd => { book with inSnapshot := false }
  | type =>
      if update.tickerId ≠ book.tickerId then book
      else
        match type with
        | .add | .addMpid =>
            if book.tracks update.orderRef then book
            else book.append ⟨update.orderRef, update.side, update.price, update.qty⟩
        | .delete => book.remove update.orderRef
        | .cancel | .execute => book.reduce update.orderRef update.qty
        | .replace =>
            if book.tracks update.orderRef ∧ ¬ book.tracks update.newRef then
              (book.remove update.orderRef).append
                ⟨update.newRef, update.side, update.price, update.qty⟩
            else book
        | _ => book

/-! ### Observables -/

def trackedOrders (book : FlatBook) : Nat := book.entries.length

/-- The orders at one price, in order of arrival. -/
def queue (book : FlatBook) (side : Side) (price : Price) : List (OrderId × Quantity) :=
  (book.entries.filter fun entry => entry.side = side ∧ entry.price = price).map fun entry =>
    (entry.ref, entry.qty)

/-- The distinct prices at which orders of one side rest. -/
def prices (book : FlatBook) (side : Side) : List Price :=
  ((book.entries.filter fun entry => entry.side = side).map FlatEntry.price).dedup

def totalQty (book : FlatBook) (side : Side) (price : Price) : Quantity :=
  ((book.queue side price).map Prod.snd).sum

def bestBid (book : FlatBook) : Option Price := (book.prices .buy).max?

def bestAsk (book : FlatBook) : Option Price := (book.prices .sell).min?

def bbo (book : FlatBook) : BBO where
  bidPrice := book.bestBid.getD priceInvalid
  bidQty := (book.bestBid.map (book.totalQty .buy)).getD 0
  askPrice := book.bestAsk.getD priceInvalid
  askQty := (book.bestAsk.map (book.totalQty .sell)).getD 0

theorem mem_append {book : FlatBook} {new entry : FlatEntry} :
    entry ∈ (book.append new).entries ↔ entry ∈ book.entries ∨ entry = new := by
  simp [append]

theorem mem_remove {book : FlatBook} {ref : OrderId} {entry : FlatEntry} :
    entry ∈ (book.remove ref).entries ↔ entry ∈ book.entries ∧ entry.ref ≠ ref := by
  simp [remove]

theorem mem_reduce {book : FlatBook} {ref : OrderId} {qty : Quantity} {entry : FlatEntry} :
    entry ∈ (book.reduce ref qty).entries ↔
      (entry ∈ book.entries ∧ entry.ref ≠ ref) ∨
        ∃ old ∈ book.entries, old.ref = ref ∧ ¬ old.qty ≤ qty
          ∧ entry = { old with qty := old.qty - qty } := by
  simp only [reduce, List.mem_filterMap]
  constructor
  · rintro ⟨old, hmem, heq⟩
    split at heq
    case isTrue href =>
        split at heq
        case isTrue => cases heq
        case isFalse hlt => exact Or.inr ⟨old, hmem, href, hlt, (Option.some.inj heq).symm⟩
    case isFalse href =>
        obtain rfl := Option.some.inj heq
        exact Or.inl ⟨hmem, href⟩
  · rintro (⟨hmem, href⟩ | ⟨old, hmem, href, hlt, rfl⟩)
    · exact ⟨entry, hmem, by rw [if_neg href]⟩
    · exact ⟨old, hmem, by rw [if_pos href, if_neg hlt]⟩

theorem isEmpty_entries (book : FlatBook) :
    book.entries.isEmpty = ((book.prices .buy).isEmpty && (book.prices .sell).isEmpty) := by
  rw [Bool.eq_iff_iff, Bool.and_eq_true, List.isEmpty_iff, List.isEmpty_iff, List.isEmpty_iff]
  simp only [prices, List.dedup_eq_nil, List.map_eq_nil_iff, List.filter_eq_nil_iff,
    decide_eq_true_eq]
  constructor
  · intro hnil
    simp [hnil]
  · rintro ⟨hbuy, hsell⟩
    refine List.eq_nil_iff_forall_not_mem.mpr fun entry hmem => ?_
    cases hside : entry.side with
    | buy => exact hbuy entry hmem hside
    | sell => exact hsell entry hmem hside

theorem tickerId_applyUpdate (book : FlatBook) (update : MarketUpdate) :
    (book.applyUpdate update).tickerId = book.tickerId := by
  unfold applyUpdate
  cases update.type <;> simp only [] <;> repeat' split
  all_goals rfl

theorem length_applyUpdate_le (book : FlatBook) (update : MarketUpdate) :
    (book.applyUpdate update).entries.length ≤ book.entries.length + 1 := by
  have hremove : ∀ ref, (book.remove ref).entries.length ≤ book.entries.length := fun ref =>
    List.length_filter_le ..
  have hreduce : ∀ ref qty, (book.reduce ref qty).entries.length ≤ book.entries.length :=
    fun ref qty => List.length_filterMap_le ..
  unfold applyUpdate
  split
  case h_1 => simp
  case h_2 => split <;> simp
  case h_3 => simp
  case h_4 =>
      by_cases hticker : update.tickerId ≠ book.tickerId
      · simp [hticker]
      · rw [if_neg hticker]
        split
        · split <;> simp [append]
        · split <;> simp [append]
        · exact (hremove _).trans (Nat.le_succ _)
        · exact (hreduce _ _).trans (Nat.le_succ _)
        · exact (hreduce _ _).trans (Nat.le_succ _)
        · split
          · simpa [append] using hremove update.orderRef
          · simp
        · simp

end FlatBook

end AlphaTrader
