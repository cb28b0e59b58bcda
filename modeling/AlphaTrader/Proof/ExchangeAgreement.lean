import AlphaTrader.Proof.BookReplication

/-!
# The engine agrees with the exchange

The exchange publishes numbered updates, and a snapshot stands for its books after the updates up to some
number. If that is what reaches the consumer, then behind the flag, and with the queue drained, the books
of the engine are those of the exchange as of the last number that the consumer has taken, whatever was
lost, repeated, replayed or covered by snapshots on the way.

A snapshot may list the orders of different prices in any order. It is read as a book with the same queues,
and books with the same queues stay so under every update.
-/

namespace AlphaTrader

/-! ### Books with the same queues -/

namespace FlatBook

/-- Two books that differ at most in how orders of different prices follow each other. -/
structure Agrees (a b : FlatBook) : Prop where
  tickerId : a.tickerId = b.tickerId
  inSnapshot : a.inSnapshot = b.inSnapshot
  queue : ∀ side price, a.queue side price = b.queue side price

variable {a b : FlatBook}

theorem Agrees.refl (a : FlatBook) : Agrees a a := ⟨rfl, rfl, fun _ _ => rfl⟩

theorem count_entries (book : FlatBook) (entry : FlatEntry) :
    book.entries.count entry = (book.queue entry.side entry.price).count (entry.ref, entry.qty) := by
  rw [queue, List.count, List.count, List.countP_map, List.countP_filter]
  refine List.countP_congr fun other _ => ?_
  obtain ⟨ref, side, price, qty⟩ := entry
  obtain ⟨ref', side', price', qty'⟩ := other
  simp only [beq_iff_eq, FlatEntry.mk.injEq, Function.comp_apply, Prod.mk.injEq, Bool.and_eq_true,
    decide_eq_true_eq]
  tauto

theorem Agrees.perm (hagrees : Agrees a b) : a.entries.Perm b.entries := by
  rw [List.perm_iff_count]
  intro entry
  rw [count_entries, count_entries, hagrees.queue]

theorem Agrees.tracks (hagrees : Agrees a b) (ref : OrderId) : a.tracks ref = b.tracks ref := by
  rw [Bool.eq_iff_iff, FlatBook.tracks, FlatBook.tracks, List.any_eq_true, List.any_eq_true]
  simp only [hagrees.perm.mem_iff]

theorem Agrees.prices_perm (hagrees : Agrees a b) (side : Side) : (a.prices side).Perm (b.prices side) :=
  ((hagrees.perm.filter _).map _).dedup

theorem Agrees.bestBid (hagrees : Agrees a b) : a.bestBid = b.bestBid := by
  ext price
  rw [FlatBook.bestBid, FlatBook.bestBid, List.max?_eq_some_iff, List.max?_eq_some_iff]
  simp only [(hagrees.prices_perm .buy).mem_iff]

theorem Agrees.bestAsk (hagrees : Agrees a b) : a.bestAsk = b.bestAsk := by
  ext price
  rw [FlatBook.bestAsk, FlatBook.bestAsk, List.min?_eq_some_iff, List.min?_eq_some_iff]
  simp only [(hagrees.prices_perm .sell).mem_iff]

theorem Agrees.bbo (hagrees : Agrees a b) : a.bbo = b.bbo := by
  have htotal : ∀ side, a.totalQty side = b.totalQty side := by
    intro side
    funext price
    rw [totalQty, totalQty, hagrees.queue]
  unfold FlatBook.bbo
  rw [hagrees.bestBid, hagrees.bestAsk, htotal, htotal]

theorem queue_append (book : FlatBook) (entry : FlatEntry) (side : Side) (price : Price) :
    (book.append entry).queue side price = book.queue side price
      ++ if entry.side = side ∧ entry.price = price then [(entry.ref, entry.qty)] else [] := by
  rw [queue, queue, append, List.filter_append, List.map_append]
  split
  case isTrue hlevel => rw [List.filter_cons_of_pos (by simpa using hlevel), List.filter_nil, List.map_singleton]
  case isFalse hlevel =>
      rw [List.filter_cons_of_neg (by simpa using hlevel), List.filter_nil, List.map_nil]

theorem queue_remove (book : FlatBook) (ref : OrderId) (side : Side) (price : Price) :
    (book.remove ref).queue side price = (book.queue side price).filter fun order => order.1 ≠ ref := by
  rw [queue, queue, remove, List.filter_map, List.filter_filter, List.filter_filter]
  refine congrArg (List.map _) (List.filter_congr fun entry _ => ?_)
  exact Bool.and_comm ..

theorem queue_reduce (book : FlatBook) (ref : OrderId) (qty : Quantity) (side : Side) (price : Price) :
    (book.reduce ref qty).queue side price = (book.queue side price).filterMap fun order =>
      if order.1 = ref then if order.2 ≤ qty then none else some (order.1, order.2 - qty) else some order := by
  rw [queue, queue, reduce, List.filter_filterMap, List.map_filterMap, List.filterMap_map,
    List.filterMap_filter]
  refine List.filterMap_congr fun entry _ => ?_
  by_cases href : entry.ref = ref <;> by_cases hqty : entry.qty ≤ qty <;>
    by_cases hside : entry.side = side <;> by_cases hprice : entry.price = price <;>
    simp [href, hqty, hside, hprice]

theorem Agrees.append (hagrees : Agrees a b) (entry : FlatEntry) : Agrees (a.append entry) (b.append entry) where
  tickerId := hagrees.tickerId
  inSnapshot := hagrees.inSnapshot
  queue side price := by rw [queue_append, queue_append, hagrees.queue]

theorem Agrees.remove (hagrees : Agrees a b) (ref : OrderId) : Agrees (a.remove ref) (b.remove ref) where
  tickerId := hagrees.tickerId
  inSnapshot := hagrees.inSnapshot
  queue side price := by rw [queue_remove, queue_remove, hagrees.queue]

theorem Agrees.reduce (hagrees : Agrees a b) (ref : OrderId) (qty : Quantity) :
    Agrees (a.reduce ref qty) (b.reduce ref qty) where
  tickerId := hagrees.tickerId
  inSnapshot := hagrees.inSnapshot
  queue side price := by rw [queue_reduce, queue_reduce, hagrees.queue]

/-- Updates keep the agreement. -/
theorem Agrees.applyUpdate (hagrees : Agrees a b) (update : MarketUpdate) :
    Agrees (a.applyUpdate update) (b.applyUpdate update) := by
  unfold FlatBook.applyUpdate
  simp only [hagrees.tickerId, hagrees.tracks]
  cases update.type <;> dsimp only
  case snapshotStart => exact Agrees.refl _
  case snapshotEnd => exact ⟨rfl, rfl, hagrees.queue⟩
  case snapshotClear =>
      split
      · exact ⟨rfl, hagrees.inSnapshot, fun _ _ => rfl⟩
      · exact hagrees
  all_goals split
  any_goals exact hagrees
  case delete => exact hagrees.remove _
  case cancel => exact hagrees.reduce _ _
  case execute => exact hagrees.reduce _ _
  case replace =>
      split
      · exact (hagrees.remove _).append _
      · exact hagrees
  all_goals split
  any_goals exact hagrees
  all_goals exact hagrees.append _

theorem Agrees.foldl (hagrees : Agrees a b) (updates : List MarketUpdate) :
    Agrees (updates.foldl FlatBook.applyUpdate a) (updates.foldl FlatBook.applyUpdate b) := by
  induction updates generalizing a b with
  | nil => exact hagrees
  | cons update updates ih => exact ih (hagrees.applyUpdate update)

end FlatBook

/-- A book shows no more of the flat book than its queues. -/
theorem MarketOrderBook.Observes.congr {π : Type} [ObjectPool π] {fuel : Nat} {book : MarketOrderBook π}
    {a b : FlatBook} (hobserves : book.Observes fuel a) (hagrees : FlatBook.Agrees a b) :
    book.Observes fuel b where
  trackedOrders := hobserves.trackedOrders.trans hagrees.perm.length_eq
  bidLevels := hobserves.bidLevels.trans (hagrees.prices_perm .buy).length_eq
  askLevels := hobserves.askLevels.trans (hagrees.prices_perm .sell).length_eq
  empty := hobserves.empty.trans hagrees.perm.isEmpty_eq
  bbo := hobserves.bbo.trans hagrees.bbo
  inSnapshot := hobserves.inSnapshot.trans hagrees.inSnapshot
  queue side price := by rw [hobserves.queue, hagrees.queue]

/-! ### The exchange -/

/-- The updates of an exchange, numbered from 1. -/
abbrev Publication := Nat → MarketUpdate

/-- The book of a ticker after the first updates. -/
def Publication.book (published : Publication) (ticker : TickerId) (count : Nat) : FlatBook :=
  FlatBook.after ticker ((List.range' 1 count).map published)

/-- Increments are the updates of their numbers, and snapshots stand for the books of the exchange. -/
inductive Honest (published : Publication) : List Arrival → Prop
  | nil : Honest published []
  | increment {updates : List Arrival} {arrival : Arrival} (hhonest : Honest published updates)
      (hfeed : arrival.frame.kind = .feed)
      (hupdate : arrival.update = published arrival.update.seqNum.toNat) :
      Honest published (updates ++ [arrival])
  | snapshot {updates snapshot : List Arrival} {last : SeqNum} (hhonest : Honest published updates)
      (hsnapshot : IsSnapshot last snapshot)
      (hbooks : ∀ ticker, (FlatBook.after ticker (snapshot.map Arrival.update)).Agrees
        (published.book ticker last.toNat)) :
      Honest published (updates ++ snapshot)

section Exchange

variable {published : Publication} {last last' : SeqNum} {snapshot snapshot' before increments : List Arrival}

/-- A snapshot has its only opening marker in front. -/
theorem IsSnapshot.eq_nil_of_append (hsnapshot : IsSnapshot last snapshot)
    (hsnapshot' : IsSnapshot last' snapshot') {front : List Arrival} (heq : snapshot = front ++ snapshot') :
    front = [] := by
  obtain ⟨opening, entries, closing, rfl, -, -, hentries, -, hclosing, -⟩ := hsnapshot
  obtain ⟨opening', entries', closing', rfl, -, hopening', -⟩ := hsnapshot'
  cases front with
  | nil => rfl
  | cons first front =>
      have hmem : opening' ∈ entries ++ [closing] := by
        rw [(List.cons.inj heq).2]
        simp
      rcases List.mem_append.mp hmem with hentry | hlast
      · exact absurd hopening' (hentries opening' hentry).2.1
      · rw [List.mem_singleton.mp hlast, hclosing] at hopening'
        cases hopening'

theorem IsSnapshot.eq_of_append_eq (hsnapshot : IsSnapshot last snapshot)
    (hsnapshot' : IsSnapshot last' snapshot') {before' : List Arrival}
    (heq : before ++ snapshot = before' ++ snapshot') : snapshot = snapshot' := by
  rcases List.append_eq_append_iff.mp heq with ⟨front, -, hfront⟩ | ⟨front, -, hfront⟩
  · rw [hfront, hsnapshot.eq_nil_of_append hsnapshot' hfront, List.nil_append]
  · rw [hfront, hsnapshot'.eq_nil_of_append hsnapshot hfront, List.nil_append]

theorem IsSnapshot.getLast? (hsnapshot : IsSnapshot last snapshot) :
    ∃ closing, snapshot.getLast? = some closing ∧ closing.frame.kind = .snapshot
      ∧ closing.update.orderRef = last := by
  obtain ⟨opening, entries, closing, rfl, -, -, -, hkind, -, hlast⟩ := hsnapshot
  exact ⟨closing, by rw [← List.cons_append, List.getLast?_concat], hkind, hlast⟩

theorem IsSnapshot.last_unique (hsnapshot : IsSnapshot last snapshot) (hsnapshot' : IsSnapshot last' snapshot) :
    last = last' := by
  obtain ⟨closing, hclosing, -, rfl⟩ := hsnapshot.getLast?
  obtain ⟨closing', hclosing', -, rfl⟩ := hsnapshot'.getLast?
  rw [hclosing, Option.some.injEq] at hclosing'
  rw [hclosing']

/-- A snapshot does not end in a frame of the feed. -/
theorem IsSnapshot.append_ne (hsnapshot : IsSnapshot last snapshot) {arrival : Arrival}
    (hfeed : arrival.frame.kind = .feed) (updates : List Arrival) :
    before ++ snapshot ≠ updates ++ [arrival] := by
  intro heq
  obtain ⟨closing, hclosing, hkind, -⟩ := hsnapshot.getLast?
  have hgetLast := congrArg List.getLast? heq
  rw [List.getLast?_append, hclosing, Option.some_or, List.getLast?_concat, Option.some.injEq] at hgetLast
  rw [hgetLast, hfeed] at hkind
  cases hkind

/-- The last snapshot of honest updates is one of the exchange. -/
theorem Honest.snapshot_agrees (hhonest : Honest published (before ++ snapshot))
    (hsnapshot : IsSnapshot last snapshot) (ticker : TickerId) :
    (FlatBook.after ticker (snapshot.map Arrival.update)).Agrees (published.book ticker last.toNat) := by
  generalize hupdates : before ++ snapshot = updates at hhonest
  cases hhonest with
  | nil => exact absurd (List.append_eq_nil_iff.mp hupdates).2 hsnapshot.ne_nil
  | increment hhonest hfeed hupdate => exact absurd hupdates (hsnapshot.append_ne hfeed _)
  | snapshot hhonest hsnapshot' hbooks =>
      obtain rfl := hsnapshot.eq_of_append_eq hsnapshot' hupdates
      rw [hsnapshot.last_unique hsnapshot']
      exact hbooks ticker

/-- Increments at the end of honest updates are updates of the exchange. -/
theorem Honest.increments_published (hhonest : Honest published (before ++ increments))
    (hfeed : ∀ arrival ∈ increments, arrival.frame.kind = .feed) :
    Honest published before
      ∧ increments.map Arrival.update =
        (increments.map fun arrival => arrival.update.seqNum.toNat).map published := by
  -- From the last increment to the first: each one has been appended on its own.
  induction increments using List.reverseRecOn with
  | nil => exact ⟨by simpa using hhonest, rfl⟩
  | append_singleton increments arrival ih =>
      have harrival : arrival.frame.kind = .feed := hfeed arrival (by simp)
      rw [← List.append_assoc] at hhonest
      generalize hupdates : before ++ increments ++ [arrival] = updates at hhonest
      cases hhonest with
      | nil => simp at hupdates
      | snapshot hhonest hsnapshot' hbooks => exact absurd hupdates.symm (hsnapshot'.append_ne harrival _)
      | increment hhonest _ hupdate =>
          rw [← List.concat_eq_append, ← List.concat_eq_append, List.concat_inj] at hupdates
          obtain ⟨rfl, rfl⟩ := hupdates
          obtain ⟨hbefore, hincrements⟩ := ih hhonest fun arrival hmem => hfeed arrival (by simp [hmem])
          refine ⟨hbefore, ?_⟩
          rw [List.map_append, List.map_append, List.map_append, hincrements, List.map_singleton,
            List.map_singleton, List.map_singleton, ← hupdate]

/-- A snapshot of the exchange, continued by its increments, is the book of the exchange. -/
theorem Honest.agrees (hhonest : Honest published (before ++ (snapshot ++ increments)))
    (hsnapshot : IsSnapshot last snapshot) (hnumbered : Numbered (last.toNat + 1) increments) (ticker : TickerId) :
    (FlatBook.after ticker ((snapshot ++ increments).map Arrival.update)).Agrees
      (published.book ticker (last.toNat + increments.length)) := by
  rw [← List.append_assoc] at hhonest
  obtain ⟨hbefore, hincrements⟩ := hhonest.increments_published hnumbered.feed
  have hbook : published.book ticker (last.toNat + increments.length) =
      (increments.map Arrival.update).foldl FlatBook.applyUpdate (published.book ticker last.toNat) := by
    rw [hincrements, hnumbered.seqNums]
    unfold Publication.book FlatBook.after
    rw [← List.foldl_append, ← List.map_append, Nat.add_comm last.toNat 1, List.range'_append_1]
  rw [hbook, FlatBook.after, List.map_append, List.foldl_append]
  exact (hbefore.snapshot_agrees hsnapshot ticker).foldl _

end Exchange

namespace TradingSystem

open MarketDataConsumer TradeEngine

variable {S F π : Type} {cap : Capacity} [FeatureEngine F] [ObjectPool π] [Strategy S F cap]
  {sys : TradingSystem S F π cap}

/-- **Drained behind the flag, the books are those of the exchange** as of the last number taken. -/
theorem books_agree_with_exchange (published : Publication) (strategy : S)
    (slotCount maxSlots requestCapacity : Nat) (preparations : List (Preparation S)) (events : List Event)
    (hfirst : Run.Along step SnapshotFirst (start
      (prepared strategy slotCount maxSlots requestCapacity preparations : TradeEngine S F π cap)) events)
    (hrun : events.foldlM step
      (start (prepared strategy slotCount maxSlots requestCapacity preparations)) = some sys)
    (hclean : sys.CleanReplaces) (hflag : sys.consumer.marketDataSynchronized = true)
    (hdrained : sys.marketUpdates = []) (hhonest : Honest published sys.consumer.incomingMdUpdates) :
    ∀ ticker book, sys.engine.book ticker = some book → book.Observes book.trackedOrders
      (published.book ticker (sys.consumer.nextExpIncSeqNum.toNat - 1)) := by
  obtain ⟨before, last, snapshot, increments, hincoming, hsnapshot, hnumbered, hnext, hbooks⟩ :=
    drained_simulates strategy slotCount maxSlots requestCapacity preparations hfirst hrun hclean hflag hdrained
  intro ticker book hbook
  have hcount : sys.consumer.nextExpIncSeqNum.toNat - 1 = last.toNat + increments.length := by omega
  have hsim := hbooks ticker book hbook
  rw [hincoming] at hhonest
  rw [hcount]
  exact (hsim.observes hsim.trackedOrders.ge).congr (hhonest.agrees hsnapshot hnumbered ticker)

/-- Two bids and an offer of ticker 7. -/
def threeOrders : Publication := fun number =>
  match number with
  | 1 => { seqNum := 1, tickerId := 7, type := .add, side := .buy, price := 100, qty := 9, orderRef := 1 }
  | 2 => { seqNum := 2, tickerId := 7, type := .add, side := .sell, price := 101, qty := 1, orderRef := 2 }
  | _ => { seqNum := 3, tickerId := 7, type := .add, side := .buy, price := 100, qty := 1, orderRef := 3 }

/-- A snapshot up to number 2 that lists the offer first, and the third update behind it. -/
def agreedRun : List Event :=
  .tcp (.data 68 ((markerMsg 0xBB 0).tail ++ offerMsg 2 1 ++ addMsg 1 9 ++ markerMsg 0xEE 2))
    :: List.replicate 6 .engine ++ [.incremental (feedFrame 3 (addMsg 3 1)), .engine, .engine]

/-- The snapshot of that run. -/
def agreedSnapshot : List Arrival :=
  [⟨{ type := .snapshotStart }, ⟨.snapshot, markerMsg 0xBB 0⟩⟩,
    ⟨{ tickerId := 7, side := .sell, price := 101, qty := 1, orderRef := 2 }, ⟨.snapshot, offerMsg 2 1⟩⟩,
    ⟨{ tickerId := 7, price := 100, qty := 9, orderRef := 1 }, ⟨.snapshot, addMsg 1 9⟩⟩,
    ⟨{ type := .snapshotEnd, orderRef := 2 }, ⟨.snapshot, markerMsg 0xEE 2⟩⟩]

theorem isSnapshot_agreedSnapshot : IsSnapshot 2 agreedSnapshot :=
  ⟨_, agreedSnapshot.tail.take 2, _, rfl, rfl, rfl, by unfold Entries; decide, rfl, rfl, rfl⟩

theorem agrees_agreedSnapshot (ticker : TickerId) :
    (FlatBook.after ticker (agreedSnapshot.map Arrival.update)).Agrees (threeOrders.book ticker 2) := by
  by_cases hticker : 7 = ticker
  · subst hticker
    refine ⟨rfl, rfl, fun side price => ?_⟩
    -- The two orders rest on different sides.
    cases side <;> rfl
  · have hsame : FlatBook.after ticker (agreedSnapshot.map Arrival.update) = threeOrders.book ticker 2 := by
      simp [Publication.book, FlatBook.after, agreedSnapshot, threeOrders, List.range', FlatBook.applyUpdate,
        FlatBook.init, hticker]
    rw [hsame]
    exact FlatBook.Agrees.refl _

theorem honest_agreedRun :
    Honest threeOrders (agreedSnapshot ++ [⟨threeOrders 3, ⟨.feed, feedFrame 3 (addMsg 3 1)⟩⟩]) :=
  .increment (.snapshot .nil isSnapshot_agreedSnapshot agrees_agreedSnapshot) rfl rfl

theorem books_agree_with_exchange_agreedRun :
    ∃ sys book, agreedRun.foldlM step (start mainEngine) = some sys
      ∧ sys.consumer.nextExpIncSeqNum = 4 ∧ sys.engine.book 7 = some book
      ∧ book.Observes book.trackedOrders (threeOrders.book 7 (sys.consumer.nextExpIncSeqNum.toNat - 1)) := by
  have hrun : (agreedRun.foldlM step (start mainEngine)).any (fun sys =>
      sys.consumer.marketDataSynchronized && sys.marketUpdates.isEmpty
        && sys.consumer.incomingMdUpdates.all (·.update.type ≠ .replace)
        && sys.consumer.incomingMdUpdates = agreedSnapshot
          ++ [⟨threeOrders 3, ⟨.feed, feedFrame 3 (addMsg 3 1)⟩⟩]
        && sys.consumer.nextExpIncSeqNum = 4 && (sys.engine.book 7).isSome) = true := by decide +kernel
  have hfirst : Run.Along step SnapshotFirst (start mainEngine) agreedRun := by decide +kernel
  obtain ⟨sys, hrun, hcheck⟩ := (Option.any_eq_true _ _).mp hrun
  simp only [Bool.and_eq_true, List.isEmpty_iff, decide_eq_true_eq] at hcheck
  obtain ⟨⟨⟨⟨⟨hflag, hdrained⟩, hreplace⟩, hincoming⟩, hnext⟩, hbook⟩ := hcheck
  obtain ⟨book, hbook⟩ := Option.isSome_iff_exists.mp hbook
  have hclean : sys.CleanReplaces := cleanReplaces_of_no_replace (by simpa using hreplace)
  exact ⟨sys, book, hrun, hnext, hbook, books_agree_with_exchange threeOrders _ 1 4 16 oneTicker agreedRun
    hfirst hrun hclean hflag hdrained (hincoming ▸ honest_agreedRun) 7 book hbook⟩

end TradingSystem

end AlphaTrader
