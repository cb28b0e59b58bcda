import AlphaTrader.FlatBook
import AlphaTrader.Library.Run
import AlphaTrader.Proof.BookReplace
import AlphaTrader.Proof.BookClear

/-!
# The book simulates the flat book

Every update acts on the represented list of orders as the flat book prescribes, provided that a
moved order is relinked with clean pointers. This is one lemma for one update and, by the simulation
rule, one for every run.
-/

namespace AlphaTrader

def Resting.entry (order : Resting) : FlatEntry := ⟨order.ref, order.side, order.price, order.qty⟩

namespace MarketOrderBook

variable {π : Type}

/-- The order that a replace moves: the update must be for this book, the old reference tracked and
the new one not. -/
def movedOrder? (book : MarketOrderBook π) (update : MarketUpdate) : Option Addr :=
  if update.type = .replace ∧ update.tickerId = book.tickerId
      ∧ book.orderIndex.contains update.newRef = false then
    book.orderIndex[update.orderRef]?.map OrderLocation.order
  else none

/-- A moved order is the last of its level, and alone on it unless its new level exists already. -/
def RelinksCleanly (book : MarketOrderBook π) (update : MarketUpdate) : Prop :=
  ∀ order ∈ book.movedOrder? update, (book.memory order).next = none ∧
    ((book.memory order).prev = none ∨ book.level? (update.side, update.price) ≠ none)

instance (book : MarketOrderBook π) (update : MarketUpdate) :
    Decidable (book.RelinksCleanly update) :=
  inferInstanceAs (Decidable (∀ order ∈ book.movedOrder? update, _))

theorem relinksCleanly_of_ne_replace {book : MarketOrderBook π} {update : MarketUpdate}
    (htype : update.type ≠ .replace) : book.RelinksCleanly update := by
  simp [RelinksCleanly, movedOrder?, htype]

section Entries

variable {book : MarketOrderBook π} {flat : FlatBook} {orders : List Resting} {ref : OrderId}

theorem tracks_iff (hentries : orders.map Resting.entry = flat.entries) :
    flat.tracks ref = true ↔ ∃ order ∈ orders, order.ref = ref := by
  rw [FlatBook.tracks, ← hentries, List.any_map, List.any_eq_true]
  exact exists_congr fun order => and_congr_right fun _ => decide_eq_true_iff

theorem contains_eq_tracks (hindex : Indexes book.orderIndex orders)
    (hentries : orders.map Resting.entry = flat.entries) :
    book.orderIndex.contains ref = flat.tracks ref := by
  rw [Bool.eq_iff_iff, hindex.contains_iff, tracks_iff hentries]

theorem map_entry_removeRef (hentries : orders.map Resting.entry = flat.entries) :
    (removeRef orders ref).map Resting.entry = (flat.remove ref).entries := by
  rw [removeRef, FlatBook.remove, ← hentries, List.filter_map]
  rfl

theorem entries_of_untracked (hentries : orders.map Resting.entry = flat.entries)
    (hnone : ∀ order ∈ orders, order.ref ≠ ref) (qty : Quantity) :
    flat.remove ref = flat ∧ flat.reduce ref qty = flat := by
  have hne : ∀ entry ∈ flat.entries, entry.ref ≠ ref := by
    intro entry hmem
    rw [← hentries] at hmem
    obtain ⟨order, horder, rfl⟩ := List.mem_map.mp hmem
    exact hnone order horder
  have hfilter : (flat.remove ref).entries = flat.entries :=
    List.filter_eq_self.mpr fun entry hmem => by simpa using hne entry hmem
  have hfilterMap : (flat.reduce ref qty).entries = flat.entries := by
    refine (List.filterMap_congr fun entry hmem => ?_).trans List.filterMap_some
    rw [if_neg (hne entry hmem)]
  exact ⟨congrArg (FlatBook.mk flat.tickerId · flat.inSnapshot) hfilter,
    congrArg (FlatBook.mk flat.tickerId · flat.inSnapshot) hfilterMap⟩

theorem map_entry_reduce (hentries : orders.map Resting.entry = flat.entries)
    (hrefs : (orders.map Resting.ref).Nodup) {order : Resting} (hmem : order ∈ orders)
    (qty : Quantity) :
    (flat.reduce order.ref qty).entries =
      if order.qty ≤ qty then (removeRef orders order.ref).map Resting.entry
      else (reduceRef orders order.ref qty).map Resting.entry := by
  have hsame : ∀ other ∈ orders, other.ref = order.ref → other = order :=
    fun other hother href => eq_of_ref_eq hrefs hother hmem href
  rw [FlatBook.reduce, ← hentries, List.filterMap_map]
  split
  case isTrue hle =>
      rw [removeRef, ← List.filterMap_eq_filter, List.map_filterMap]
      refine List.filterMap_congr fun other hother => ?_
      by_cases href : other.ref = order.ref
      · obtain rfl := hsame other hother href
        simp [Resting.entry, hle]
      · simp [Resting.entry, href]
  case isFalse hlt =>
      rw [reduceRef, List.map_map, ← List.filterMap_eq_map]
      refine List.filterMap_congr fun other hother => ?_
      by_cases href : other.ref = order.ref
      · obtain rfl := hsame other hother href
        simp [Resting.entry, hlt]
      · simp [Resting.entry, href]

end Entries

variable [ObjectPool π]

/-- The book in memory and the flat book hold the same orders, and the best prices are current. -/
structure Simulates (book : MarketOrderBook π) (flat : FlatBook) : Prop where
  tickerId : book.tickerId = flat.tickerId
  inSnapshot : book.inSnapshot = flat.inSnapshot
  best : book.updateBBO = book
  orders : ∃ orders, Represents book orders ∧ orders.map Resting.entry = flat.entries

theorem Represents.updateBBO {book : MarketOrderBook π} {orders : List Resting}
    (hrep : Represents book orders) : Represents book.updateBBO orders where
  toListed := hrep.toListed.congr (by funext ⟨side, price⟩; cases side <;> rfl) fun _ _ => rfl
  refs := hrep.refs
  index := hrep.index
  live := hrep.live

theorem simulates_init (tickerId : TickerId) :
    Simulates (init π tickerId) (FlatBook.init tickerId) where
  tickerId := rfl
  inSnapshot := rfl
  best := rfl
  orders := by
    refine ⟨[], ⟨listed_nil fun ptr => ?_, List.nodup_nil, fun ref location => ?_, fun a => ?_⟩, rfl⟩
    · obtain ⟨side, price⟩ := ptr
      cases side <;> exact Std.TreeMap.getElem?_emptyc
    · simp [init]
    · exact iff_of_false (ObjectPool.not_live_fresh a) (by simp)

/-! ### One update -/

section Step

variable {book : MarketOrderBook π} {flat : FlatBook} {update : MarketUpdate} {fuel : Nat}

theorem simulates_refresh (hsim : Simulates book flat) {book' : MarketOrderBook π}
    {orders' : List Resting} {flat' : FlatBook} (hmode : SameMode book book')
    (hrep : Represents book' orders') (hticker : flat'.tickerId = flat.tickerId)
    (hsnapshot : flat'.inSnapshot = flat.inSnapshot)
    (hentries : orders'.map Resting.entry = flat'.entries) : Simulates book'.updateBBO flat' where
  tickerId := (hmode.tickerId.trans hsim.tickerId).trans hticker.symm
  inSnapshot := (hmode.inSnapshot.trans hsim.inSnapshot).trans hsnapshot.symm
  best := rfl
  orders := ⟨orders', hrep.updateBBO, hentries⟩

theorem simulates_addOrder (hsim : Simulates book flat)
    (hnew : flat.tracks update.orderRef = false) :
    ∃ book', book.addOrder update = some book' ∧ Simulates book'.updateBBO
      (flat.append ⟨update.orderRef, update.side, update.price, update.qty⟩) := by
  obtain ⟨orders, hrep, hentries⟩ := hsim.orders
  have hforall : ∀ order ∈ orders, order.ref ≠ update.orderRef := by
    intro order hmem href
    rw [(tracks_iff hentries).mpr ⟨order, hmem, href⟩] at hnew
    cases hnew
  obtain ⟨book', hadd, hmode, hrep'⟩ := represents_addOrder hrep hforall
  refine ⟨book', hadd, simulates_refresh hsim hmode hrep' rfl rfl ?_⟩
  rw [List.map_append, hentries]
  rfl

theorem simulates_eraseOrder (hsim : Simulates book flat) (ref : OrderId) :
    ∃ result, book.eraseOrder ref = some result ∧ Simulates (refresh result) (flat.remove ref) := by
  obtain ⟨orders, hrep, hentries⟩ := hsim.orders
  by_cases htracked : ∃ order ∈ orders, order.ref = ref
  · obtain ⟨order, hmem, rfl⟩ := htracked
    obtain ⟨book', herase, hmode, hrep'⟩ := represents_eraseOrder hrep hmem
    exact ⟨_, herase, simulates_refresh hsim hmode hrep' rfl rfl (map_entry_removeRef hentries)⟩
  · have hnone : ∀ order ∈ orders, order.ref ≠ ref := fun order hmem href =>
      htracked ⟨order, hmem, href⟩
    refine ⟨(false, book), ?_, ?_⟩
    · rw [eraseOrder, hrep.index.eq_none_iff.mpr hnone]
    · rw [(entries_of_untracked hentries hnone 0).1]
      exact hsim

theorem simulates_reduceOrder (hsim : Simulates book flat) (update : MarketUpdate) :
    ∃ result, book.reduceOrder update = some result
      ∧ Simulates (refresh result) (flat.reduce update.orderRef update.qty) := by
  obtain ⟨orders, hrep, hentries⟩ := hsim.orders
  by_cases htracked : ∃ order ∈ orders, order.ref = update.orderRef
  · obtain ⟨order, hmem, href⟩ := htracked
    have hlocation : book.orderIndex[update.orderRef]? = some order.location :=
      (hrep.index _ _).mpr ⟨order, hmem, href, rfl⟩
    have hreduce := map_entry_reduce hentries hrep.refs hmem update.qty
    have hqty : (book.memory order.location.order).qty = order.qty := (hrep.stored order hmem).2
    rw [href] at hreduce
    by_cases hle : order.qty ≤ update.qty
    · obtain ⟨book', herase, hmode, hrep'⟩ := represents_eraseOrder hrep hmem
      rw [href] at herase hrep'
      rw [if_pos hle] at hreduce
      refine ⟨(true, book'), ?_, simulates_refresh hsim hmode hrep' rfl rfl hreduce.symm⟩
      simp only [reduceOrder, hlocation]
      rw [if_pos (hqty ▸ hle), herase]
    · obtain ⟨book', hmodify, hmode, hrep'⟩ := represents_reduceQty hrep hmem update.qty
      rw [href] at hrep'
      rw [if_neg hle] at hreduce
      refine ⟨(true, book'), ?_, simulates_refresh hsim hmode hrep' rfl rfl hreduce.symm⟩
      simp only [reduceOrder, hlocation]
      rw [if_neg (hqty ▸ hle)]
      change (Option.bind (modifyLevel _ order.ptr _) _) = _
      rw [show order.location.order = order.addr from rfl, hmodify]
      rfl
  · have hnone : ∀ order ∈ orders, order.ref ≠ update.orderRef := fun order hmem href =>
      htracked ⟨order, hmem, href⟩
    refine ⟨(false, book), ?_, ?_⟩
    · rw [reduceOrder, hrep.index.eq_none_iff.mpr hnone]
    · rw [(entries_of_untracked hentries hnone update.qty).2]
      exact hsim

theorem simulates_replaceOrder (hsim : Simulates book flat) (htype : update.type = .replace)
    (hticker : update.tickerId = book.tickerId) (hclean : book.RelinksCleanly update) :
    ∃ result, book.replaceOrder update = some result ∧ Simulates (refresh result)
      (if flat.tracks update.orderRef ∧ ¬ flat.tracks update.newRef then
        (flat.remove update.orderRef).append ⟨update.newRef, update.side, update.price, update.qty⟩
      else flat) := by
  obtain ⟨orders, hrep, hentries⟩ := hsim.orders
  have htracks : flat.tracks update.orderRef = true ↔ _ := tracks_iff hentries
  have hcontains : book.orderIndex.contains update.newRef = flat.tracks update.newRef :=
    contains_eq_tracks hrep.index hentries
  by_cases htracked : ∃ order ∈ orders, order.ref = update.orderRef
  · obtain ⟨order, hmem, href⟩ := htracked
    have hlocation : book.orderIndex[update.orderRef]? = some order.location :=
      (hrep.index _ _).mpr ⟨order, hmem, href, rfl⟩
    cases hnewTracked : flat.tracks update.newRef with
    | true =>
        refine ⟨(false, book), ?_, by simpa [refresh] using hsim⟩
        simp [replaceOrder, hlocation, hcontains, hnewTracked]
    | false =>
        have hmoved : book.movedOrder? update = some order.addr := by
          simp only [movedOrder?, hcontains, hlocation]
          rw [if_pos ⟨htype, hticker, hnewTracked⟩]
          rfl
        obtain ⟨hnext, hprev⟩ := hclean order.addr hmoved
        have hforall : ∀ other ∈ orders, other.ref ≠ update.newRef := by
          intro other hother hotherRef
          rw [(tracks_iff hentries).mpr ⟨other, hother, hotherRef⟩] at hnewTracked
          cases hnewTracked
        obtain ⟨book', hreplace, hmode, hrep'⟩ :=
          represents_replaceOrder hrep hmem href hforall hnext hprev
        refine ⟨(true, book'), hreplace, ?_⟩
        rw [if_pos ⟨htracks.mpr ⟨order, hmem, href⟩, by simp⟩]
        refine simulates_refresh hsim hmode hrep' rfl rfl ?_
        rw [List.map_append, map_entry_removeRef hentries, href]
        rfl
  · have hnone : ∀ order ∈ orders, order.ref ≠ update.orderRef := fun order hmem href =>
      htracked ⟨order, hmem, href⟩
    refine ⟨(false, book), ?_, ?_⟩
    · rw [replaceOrder, hrep.index.eq_none_iff.mpr hnone]
    · rw [if_neg fun h => htracked (htracks.mp h.1)]
      exact hsim

theorem simulates_clear (hsim : Simulates book flat) (hfuel : flat.entries.length ≤ fuel) :
    ∃ book', book.clear fuel = some book' ∧ Simulates book' { flat with entries := [] } := by
  obtain ⟨orders, hrep, hentries⟩ := hsim.orders
  rw [← hentries, List.length_map] at hfuel
  obtain ⟨book', hclear, hmode, hrep', hbest⟩ := represents_clear hrep hfuel
  exact ⟨book', hclear, hmode.tickerId.trans hsim.tickerId,
    hmode.inSnapshot.trans hsim.inSnapshot, hbest, [], hrep', rfl⟩

theorem Simulates.setInSnapshot (hsim : Simulates book flat) (flag : Bool) :
    Simulates { book with inSnapshot := flag } { flat with inSnapshot := flag } := by
  obtain ⟨orders, hrep, hentries⟩ := hsim.orders
  refine ⟨hsim.tickerId, rfl, ?_, orders, ?_, hentries⟩
  · exact congrArg (fun b : MarketOrderBook π => { b with inSnapshot := flag }) hsim.best
  · exact ⟨hrep.toListed.congr (by funext ⟨side, price⟩; cases side <;> rfl) fun _ _ => rfl,
      hrep.refs, hrep.index, hrep.live⟩

theorem applyUpdate_of_ne (hticker : update.tickerId ≠ book.tickerId)
    (hstart : update.type ≠ .snapshotStart) (hend : update.type ≠ .snapshotEnd) :
    book.applyUpdate fuel update = some book := by
  cases htype : update.type <;> simp_all [applyUpdate]

theorem flat_applyUpdate_of_ne (hticker : update.tickerId ≠ flat.tickerId)
    (hstart : update.type ≠ .snapshotStart) (hend : update.type ≠ .snapshotEnd) :
    flat.applyUpdate update = flat := by
  cases htype : update.type <;> simp_all [FlatBook.applyUpdate]

theorem simulates_add (hsim : Simulates book flat) (update : MarketUpdate) :
    ∃ book', (if book.orderIndex.contains update.orderRef then some book
        else do return (← book.addOrder update).updateBBO) = some book'
      ∧ Simulates book' (if flat.tracks update.orderRef then flat
          else flat.append ⟨update.orderRef, update.side, update.price, update.qty⟩) := by
  have hcontains : book.orderIndex.contains update.orderRef = flat.tracks update.orderRef := by
    obtain ⟨orders, hrep, hentries⟩ := hsim.orders
    exact contains_eq_tracks hrep.index hentries
  cases htracked : flat.tracks update.orderRef with
  | true => exact ⟨book, by simp [hcontains, htracked], by simpa using hsim⟩
  | false =>
      obtain ⟨book', hadd, hsim'⟩ := simulates_addOrder hsim htracked
      exact ⟨book'.updateBBO, by simp [hcontains, htracked, hadd], by simpa using hsim'⟩

/-- **One update** of the book is one update of the flat book. -/
theorem simulates_applyUpdate (hsim : Simulates book flat)
    (hfuel : update.type = .snapshotStart ∨ update.type = .snapshotClear →
      flat.entries.length ≤ fuel)
    (hclean : book.RelinksCleanly update) :
    ∃ book', book.applyUpdate fuel update = some book' ∧ Simulates book' (flat.applyUpdate update) := by
  by_cases hstart : update.type = .snapshotStart
  · obtain ⟨cleared, hclear, hsim'⟩ := simulates_clear hsim (hfuel (Or.inl hstart))
    refine ⟨{ cleared with inSnapshot := true }, ?_, ?_⟩
    · simp [applyUpdate, onSnapshotStart, hstart, hclear]
    · simpa [FlatBook.applyUpdate, hstart] using hsim'.setInSnapshot true
  by_cases hend : update.type = .snapshotEnd
  · refine ⟨book.onSnapshotEnd, by simp [applyUpdate, hend], ?_⟩
    have hflag := hsim.setInSnapshot false
    rw [onSnapshotEnd, hflag.best]
    simpa [FlatBook.applyUpdate, hend] using hflag
  by_cases hticker : update.tickerId = book.tickerId
  · have hticker' : update.tickerId = flat.tickerId := hticker.trans hsim.tickerId
    cases htype : update.type with
    | snapshotStart => exact absurd htype hstart
    | snapshotEnd => exact absurd htype hend
    | snapshotClear =>
        obtain ⟨cleared, hclear, hsim'⟩ := simulates_clear hsim (hfuel (Or.inr htype))
        refine ⟨cleared, ?_, ?_⟩
        · simp [applyUpdate, onSnapshotClear, htype, hticker, hclear]
        · simpa [FlatBook.applyUpdate, htype, hticker'] using hsim'
    | add =>
        simp only [applyUpdate, FlatBook.applyUpdate, htype]
        rw [if_neg (not_not.mpr hticker), if_neg (not_not.mpr hticker')]
        exact simulates_add hsim update
    | addMpid =>
        simp only [applyUpdate, FlatBook.applyUpdate, htype]
        rw [if_neg (not_not.mpr hticker), if_neg (not_not.mpr hticker')]
        exact simulates_add hsim update
    | delete =>
        obtain ⟨result, herase, hsim'⟩ := simulates_eraseOrder hsim update.orderRef
        refine ⟨refresh result, ?_, ?_⟩
        · simp [applyUpdate, htype, hticker, herase]
        · simpa [FlatBook.applyUpdate, htype, hticker'] using hsim'
    | cancel =>
        obtain ⟨result, hreduce, hsim'⟩ := simulates_reduceOrder hsim update
        refine ⟨refresh result, ?_, ?_⟩
        · simp [applyUpdate, htype, hticker, hreduce]
        · simpa [FlatBook.applyUpdate, htype, hticker'] using hsim'
    | execute =>
        obtain ⟨result, hreduce, hsim'⟩ := simulates_reduceOrder hsim update
        refine ⟨refresh result, ?_, ?_⟩
        · simp [applyUpdate, htype, hticker, hreduce]
        · simpa [FlatBook.applyUpdate, htype, hticker'] using hsim'
    | replace =>
        obtain ⟨result, hreplace, hsim'⟩ := simulates_replaceOrder hsim htype hticker hclean
        refine ⟨refresh result, ?_, ?_⟩
        · simp [applyUpdate, htype, hticker, hreplace]
        · simpa [FlatBook.applyUpdate, htype, hticker'] using hsim'
  · refine ⟨book, applyUpdate_of_ne hticker hstart hend, ?_⟩
    rw [flat_applyUpdate_of_ne (hsim.tickerId ▸ hticker) hstart hend]
    exact hsim

end Step

/-- **Every run** of cleanly relinking updates succeeds and is a run of the flat book. -/
theorem simulates_applyUpdates {book : MarketOrderBook π} {flat : FlatBook}
    {updates : List MarketUpdate} {fuel : Nat} (hsim : Simulates book flat)
    (hfuel : flat.entries.length + updates.length ≤ fuel)
    (hclean : Run.Along (applyUpdate fuel) RelinksCleanly book updates) :
    ∃ book', book.applyUpdates fuel updates = some book'
      ∧ Simulates book' (updates.foldl FlatBook.applyUpdate flat)
      ∧ (updates.foldl FlatBook.applyUpdate flat).entries.length ≤ fuel := by
  let R : Nat → MarketOrderBook π → FlatBook → Prop := fun n book flat =>
    Simulates book flat ∧ flat.entries.length + n ≤ fuel
  have hstep : ∀ n book flat update, R (n + 1) book flat → book.RelinksCleanly update →
      ∃ book', book.applyUpdate fuel update = some book' ∧ R n book' (flat.applyUpdate update) := by
    intro n book flat update hrel hclean
    have hbound := hrel.2
    have henough : flat.entries.length ≤ fuel := by omega
    obtain ⟨book', happly, hsim'⟩ := simulates_applyUpdate hrel.1 (fun _ => henough) hclean
    refine ⟨book', happly, hsim', ?_⟩
    have hlength := flat.length_applyUpdate_le update
    omega
  exact Run.simulation FlatBook.applyUpdate (R := R) hstep ⟨hsim, hfuel⟩ hclean

end MarketOrderBook

end AlphaTrader
