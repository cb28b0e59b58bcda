import AlphaTrader.Proof.EngineSlots
import AlphaTrader.Proof.ExchangeAgreement
import AlphaTrader.Proof.SentOrders

/-!
# Where orders come from

From the packets of the exchange to the orders of the liquidity taker. An order is sent on the book that
the updates popped so far have made, and if a snapshot is among them that book is one the exchange has had:
the order takes the best opposite quote of the exchange as of a number that the exchange has published, with
the imbalance of that very book beyond the threshold. What the consumer pushes before its first snapshot is
the exception, as nothing says which orders rested when the feed began.
-/

namespace AlphaTrader

/-! ### Pieces of the stream -/

section Pieces

variable {last : SeqNum} {snapshot seen updates : List Arrival} {ticker : TickerId}

theorem Numbered.of_append {first : Nat} {more : List Arrival} (hnumbered : Numbered first (updates ++ more)) :
    Numbered first updates where
  seqNums := by
    have hseqNums := hnumbered.seqNums
    rw [List.map_append, List.length_append, ← List.range'_append_1] at hseqNums
    exact List.append_inj_left hseqNums (by simp)
  feed arrival hmem := hnumbered.feed arrival (List.mem_append_left _ hmem)

/-- A piece from the front of a snapshot is empty, open or all of it. -/
theorem IsSnapshot.cases_of_front (hsnapshot : IsSnapshot last snapshot) (hseen : seen <+: snapshot) :
    seen = [] ∨ OpenSnapshot seen ∨ seen = snapshot := by
  obtain ⟨opening, entries, closing, rfl, hkind, hopening, hentries, -⟩ := hsnapshot
  cases seen with
  | nil => exact Or.inl rfl
  | cons first seen =>
      obtain ⟨rfl, hrest⟩ := List.cons_prefix_cons.mp hseen
      rcases List.prefix_concat_iff.mp hrest with hall | hfront
      · exact Or.inr (Or.inr (by rw [hall]))
      · refine Or.inr (Or.inl ⟨first, seen, rfl, hkind, hopening, fun arrival hmem => ?_⟩)
        exact hentries arrival (hfront.subset hmem)

/-- The book of a ticker after the updates is outside a snapshot. -/
def Outside (ticker : TickerId) (updates : List Arrival) : Prop :=
  (FlatBook.after ticker (updates.map Arrival.update)).inSnapshot = false

theorem FlatBook.inSnapshot_applyUpdate (book : FlatBook) (update : MarketUpdate) :
    (book.applyUpdate update).inSnapshot = MarketOrderBook.flagAfter update.type book.inSnapshot := by
  unfold FlatBook.applyUpdate
  cases update.type <;> simp only [MarketOrderBook.flagAfter] <;> repeat' split
  all_goals rfl

theorem inSnapshot_entries (flat : FlatBook) {entries : List Arrival} (hentries : Entries entries) :
    ((entries.map Arrival.update).foldl FlatBook.applyUpdate flat).inSnapshot = flat.inSnapshot := by
  induction entries generalizing flat with
  | nil => rfl
  | cons entry entries ih =>
      obtain ⟨⟨-, hstart, hend⟩, hrest⟩ := List.forall_mem_cons.mp hentries
      rw [List.map_cons, List.foldl_cons, ih _ hrest, FlatBook.inSnapshot_applyUpdate]
      unfold MarketOrderBook.flagAfter
      split
      · exact absurd ‹_› hstart
      · exact absurd ‹_› hend
      · rfl

theorem OpenSnapshot.not_outside (hopen : OpenSnapshot seen) (before : List Arrival) :
    ¬ Outside ticker (before ++ seen) := by
  obtain ⟨opening, entries, rfl, -, hopening, hentries⟩ := hopen
  rw [Outside, List.map_append, List.map_cons, FlatBook.after_of_snapshotStart hopening, FlatBook.after,
    List.foldl_cons, inSnapshot_entries _ hentries, FlatBook.applyUpdate, hopening]
  simp

theorem Anchored.append {next : Nat} (hanchored : Anchored seen next) (before : List Arrival) :
    Anchored (before ++ seen) next := by
  obtain ⟨earlier, last, snapshot, increments, rfl, hrest⟩ := hanchored
  exact ⟨before ++ earlier, last, snapshot, increments, by rw [List.append_assoc], hrest⟩

/-- A front of two lists is one of the first, or goes on into the second. -/
theorem front_append_cases {α : Type} {front first second : List α} (hfront : front <+: first ++ second) :
    front <+: first ∨ ∃ rest, front = first ++ rest ∧ rest <+: second := by
  obtain ⟨tail, htail⟩ := hfront
  rcases List.append_eq_append_iff.mp htail with ⟨more, hfirst, -⟩ | ⟨rest, hfront, hsecond⟩
  · exact Or.inl ⟨more, hfirst.symm⟩
  · exact Or.inr ⟨rest, hfront, ⟨tail, hsecond.symm⟩⟩

namespace Segment

variable {segment : Segment}

theorem anchored_of_front (hseen : seen <+: segment.updates) (hsnapshot : HasSnapshot seen)
    (houtside : Outside ticker seen) : ∃ next, Anchored seen next := by
  have hopens : segment.snapshot ≠ [] := by
    intro hnil
    obtain ⟨arrival, hmem, hkind⟩ := hsnapshot
    have hincrement := hseen.subset hmem
    rw [Segment.updates, hnil, List.nil_append] at hincrement
    rw [segment.numbered.feed arrival hincrement] at hkind
    cases hkind
  obtain ⟨last, hlast, hfirst⟩ := segment.opens.resolve_left hopens
  have hnumbered := segment.numbered
  rw [hfirst] at hnumbered
  rcases front_append_cases hseen with hfront | ⟨increments, rfl, more, hmore⟩
  · rcases hlast.cases_of_front hfront with rfl | hopen | rfl
    · obtain ⟨arrival, hmem, -⟩ := hsnapshot
      cases hmem
    · exact absurd houtside (hopen.not_outside [])
    · exact ⟨_, [], last, segment.snapshot, [], by simp, hlast, numbered_nil _, rfl⟩
  · rw [← hmore] at hnumbered
    exact ⟨_, [], last, segment.snapshot, increments, rfl, hlast, hnumbered.of_append, rfl⟩

/-- The first update of a segment that has a snapshot opens it. -/
theorem exists_opening (hopens : segment.snapshot ≠ []) {more : List Arrival}
    (hseen : seen <+: segment.updates ++ more) (hne : seen ≠ []) :
    ∃ opening rest, seen = opening :: rest ∧ opening.frame.kind = .snapshot
      ∧ opening.update.type = .snapshotStart := by
  obtain ⟨last, ⟨opening, entries, closing, hsnapshot, hkind, hopening, -⟩, -⟩ :=
    segment.opens.resolve_left hopens
  obtain ⟨first, rest, rfl⟩ := List.exists_cons_of_ne_nil hne
  rw [Segment.updates, hsnapshot, List.cons_append, List.cons_append] at hseen
  obtain ⟨rfl, -⟩ := List.cons_prefix_cons.mp hseen
  exact ⟨first, rest, rfl, hkind, hopening⟩

end Segment

/-- **Any front of the stream** that holds a snapshot and ends outside one is a snapshot and its increments,
behind something. -/
theorem anchored_of_segments {segments : List Segment}
    (hopens : ∀ segment ∈ segments.tail, segment.snapshot ≠ [])
    (hseen : seen <+: segments.flatMap Segment.updates) (hsnapshot : HasSnapshot seen)
    (houtside : Outside ticker seen) : ∃ next, Anchored seen next := by
  induction segments generalizing seen with
  | nil =>
      obtain ⟨arrival, hmem, -⟩ := hsnapshot
      cases hseen.subset hmem
  | cons segment segments ih =>
      rcases front_append_cases hseen with hfront | ⟨rest, rfl, hrest⟩
      · exact Segment.anchored_of_front hfront hsnapshot houtside
      by_cases hnil : rest = []
      · subst hnil
        rw [List.append_nil] at hsnapshot houtside ⊢
        exact Segment.anchored_of_front List.prefix_rfl hsnapshot houtside
      -- What reaches into the next segment has the opening of its snapshot.
      have hfirst : ∃ opening tail, rest = opening :: tail ∧ opening.frame.kind = .snapshot
          ∧ opening.update.type = .snapshotStart := by
        cases segments with
        | nil => exact absurd (List.prefix_nil.mp hrest) hnil
        | cons next segments => exact Segment.exists_opening (hopens next (by simp)) hrest hnil
      obtain ⟨opening, tail, rfl, hkind, hopening⟩ := hfirst
      have hlater : Outside ticker (opening :: tail) := by
        rw [Outside, List.map_append, List.map_cons, FlatBook.after_of_snapshotStart hopening] at houtside
        exact houtside
      obtain ⟨next, hanchored⟩ := ih (fun segment hmem => hopens segment (List.mem_of_mem_tail hmem)) hrest
        ⟨opening, List.mem_cons_self, hkind⟩ hlater
      exact ⟨next, hanchored.append _⟩

theorem Segmented.anchored_of_front {next : Nat} (hsegmented : Segmented updates next) (hseen : seen <+: updates)
    (hsnapshot : HasSnapshot seen) (houtside : Outside ticker seen) : ∃ next, Anchored seen next := by
  obtain ⟨earlier, current, rfl, hopens, -⟩ := hsegmented
  refine anchored_of_segments hopens ?_ hsnapshot houtside
  rwa [List.flatMap_append, List.flatMap_singleton]

/-- What is honest is honest up to any point outside a snapshot. -/
theorem Honest.of_front {published : Publication} (hhonest : Honest published updates) (hseen : seen <+: updates)
    (houtside : Outside ticker seen) : Honest published seen := by
  induction hhonest generalizing seen with
  | nil =>
      rw [List.prefix_nil.mp hseen]
      exact .nil
  | increment hhonest hfeed hupdate ih =>
      rcases List.prefix_concat_iff.mp hseen with rfl | hfront
      · exact .increment hhonest hfeed hupdate
      · exact ih hfront houtside
  | snapshot hhonest hsnapshot hbooks ih =>
      rcases front_append_cases hseen with hfront | ⟨rest, rfl, hrest⟩
      · exact ih hfront houtside
      · rcases hsnapshot.cases_of_front hrest with rfl | hopen | rfl
        · rwa [List.append_nil]
        · exact absurd houtside (hopen.not_outside _)
        · exact .snapshot hhonest hsnapshot hbooks

end Pieces

/-! ### The orders on the queue -/

namespace TradingSystem

open MarketDataConsumer TradeEngine

variable {π : Type} {cap : Capacity} [ObjectPool π]
  {sys sys' : TradingSystem LiquidityTaker TradingFeatures π cap} {event : Event} {request : OrderRequest}

/-- The request is what a slot makes of the book behind the updates. -/
def Prompted (sys : TradingSystem LiquidityTaker TradingFeatures π cap) (request : OrderRequest)
    (seen : List Arrival) : Prop :=
  request.tickerId ∈ sys.engine.bookTickers ∧ ∃ book : MarketOrderBook π,
    (seen.map Arrival.update).foldlM (MarketOrderBook.receive request.tickerId)
      (MarketOrderBook.init π request.tickerId) = some book
    ∧ Caused sys.engine.profiles ⟨request.tickerId, book⟩ request

/-- Every request on the queue has been prompted by a front of what the engine has popped. -/
structure Explained (sys : TradingSystem LiquidityTaker TradingFeatures π cap) : Prop where
  replicates : sys.Replicates
  prompted : ∀ request ∈ sys.engine.orderRequests,
    ∃ seen, seen <+: sys.consumer.incomingMdUpdates.take sys.popped ∧ sys.Prompted request seen

/-- A step that sends nothing. -/
theorem Explained.of_kept (hexplained : sys.Explained) (hreplicates : sys'.Replicates)
    (hpopped : sys.consumer.incomingMdUpdates.take sys.popped
      <+: sys'.consumer.incomingMdUpdates.take sys'.popped)
    (hbooks : sys'.engine.bookTickers = sys.engine.bookTickers)
    (hprofiles : sys'.engine.profiles = sys.engine.profiles)
    (hrequests : ∀ request ∈ sys'.engine.orderRequests, request ∈ sys.engine.orderRequests) :
    sys'.Explained where
  replicates := hreplicates
  prompted request hmem := by
    obtain ⟨seen, hseen, hprompted⟩ := hexplained.prompted request (hrequests request hmem)
    refine ⟨seen, hseen.trans hpopped, ?_⟩
    rw [Prompted, hbooks, hprofiles]
    exact hprompted

theorem Explained.engineStep (hexplained : sys.Explained) (hstep : sys.engineStep = some sys') :
    sys'.Explained := by
  have hreplicates := hexplained.replicates.engineStep hstep
  unfold TradingSystem.engineStep at hstep
  split at hstep
  case h_1 =>
      obtain rfl := Option.some.inj hstep
      by_cases hflag : sys.consumer.marketDataSynchronized = true
      · rw [if_pos hflag] at hreplicates ⊢
        exact hexplained.of_kept hreplicates List.prefix_rfl rfl rfl fun _ hmem => hmem
      · rw [if_neg hflag]
        exact hexplained
  case h_2 =>
      split at hstep
      case h_1 =>
          obtain rfl := Option.some.inj hstep
          exact hexplained.of_kept hreplicates List.prefix_rfl rfl rfl fun _ hmem => hmem
      case h_2 response rest _ =>
          obtain rfl := Option.some.inj hstep
          obtain ⟨htickers, hprofiles, -⟩ := sys.engine.processResponse_kept response
          refine hexplained.of_kept hreplicates List.prefix_rfl
            (congrArg (List.map TickerBook.tickerId) htickers) hprofiles fun request hmem => ?_
          rwa [(sys.engine.processResponse_shared response).2] at hmem
  case h_3 =>
      split at hstep
      case h_1 =>
          obtain rfl := Option.some.inj hstep
          exact hexplained.of_kept hreplicates List.prefix_rfl rfl rfl fun _ hmem => hmem
      case h_2 update rest hqueue =>
          obtain ⟨engine, hprocess, hrest⟩ := Option.bind_eq_some_iff.mp hstep
          obtain rfl := Option.some.inj hrest
          have hupdated := processUpdate_spec hprocess
          have hemits := hupdated.emits
          obtain ⟨sent, hrequests, -, hsent⟩ := hemits.sent
          have hgrows : sys.consumer.incomingMdUpdates.take sys.popped
              <+: sys.consumer.incomingMdUpdates.take (sys.popped + 1) :=
            List.take_prefix_take_left (Nat.le_succ _)
          refine ⟨hreplicates, fun request hmem => ?_⟩
          dsimp only at hmem
          rw [hrequests] at hmem
          rcases List.mem_append.mp hmem with hold | hnew
          · obtain ⟨seen, hseen, hprompted⟩ := hexplained.prompted request hold
            refine ⟨seen, hseen.trans hgrows, ?_⟩
            rw [Prompted, hupdated.books, hemits.profiles]
            exact hprompted
          · obtain ⟨ticker, hticker, hcaused⟩ := hsent request hnew
            have hid : request.tickerId = ticker.tickerId := hcaused.2.1
            refine ⟨_, List.prefix_rfl, ?_, ticker.book, ?_, ?_⟩
            · rw [hid]
              exact List.mem_map_of_mem hticker
            · have hbook : engine.book ticker.tickerId = some ticker.book := by
                rw [book_eq_lookup, (Table.lookup_eq_some_iff hreplicates.follows.books).mpr ⟨hticker, rfl⟩]
                rfl
              rw [hid]
              exact hreplicates.follows.book _ _ hbook
            · rw [hid, hemits.profiles]
              exact hcaused

theorem Explained.step (hexplained : sys.Explained) (hstep : sys.step event = some sys') : sys'.Explained := by
  have hreplicates := hexplained.replicates.step hstep
  have hconsumer : ∀ {consumer : MarketDataConsumer},
      sys.consumer.incomingMdUpdates <+: consumer.incomingMdUpdates →
      sys.consumer.incomingMdUpdates.take sys.popped <+: consumer.incomingMdUpdates.take sys.popped :=
    fun hgrows => hgrows.take _
  cases event with
  | incremental data =>
      obtain ⟨⟨consumer, arrival?⟩, hoffer, hrest⟩ := Option.bind_eq_some_iff.mp hstep
      obtain rfl := Option.some.inj hrest
      exact hexplained.of_kept hreplicates (hconsumer (prefix_offer hoffer)) rfl rfl fun _ hmem => hmem
  | tcp received =>
      obtain ⟨consumer, hread, hrest⟩ := Option.bind_eq_some_iff.mp hstep
      obtain rfl := Option.some.inj hrest
      exact hexplained.of_kept hreplicates (hconsumer (prefix_step_tcp hread)) rfl rfl fun _ hmem => hmem
  | engine => exact hexplained.engineStep hstep
  | respond response =>
      obtain rfl := Option.some.inj hstep
      exact hexplained.of_kept hreplicates List.prefix_rfl rfl rfl fun _ hmem => hmem
  | takeRequest =>
      obtain rfl := Option.some.inj hstep
      exact hexplained.of_kept hreplicates List.prefix_rfl rfl rfl fun _ hmem => List.mem_of_mem_drop hmem

theorem explained_run (taker : LiquidityTaker) (slotCount maxSlots requestCapacity : Nat)
    (preparations : List (Preparation LiquidityTaker)) {events : List Event}
    (hrun : events.foldlM step
      (start (prepared taker slotCount maxSlots requestCapacity preparations)) = some sys) :
    sys.Explained := by
  have hstart : Explained (start (prepared taker slotCount maxSlots requestCapacity preparations) :
      TradingSystem LiquidityTaker TradingFeatures π cap) := by
    refine ⟨⟨Nat.zero_le _, follows_prepared ..⟩, fun request hmem => ?_⟩
    rw [start, (unused_prepared ..).requests] at hmem
    cases hmem
  exact Run.invariant (P := fun _ _ => True) (fun _ _ _ hexplained _ hstep => hexplained.step hstep) hstart
    (Run.Along.of_forall_mem (fun _ _ _ => trivial) _) hrun

section Front

variable {seen : List Arrival} {ticker : TickerId} {book : MarketOrderBook π}
  (hclean : sys.CleanReplaces) (hticker : ticker ∈ sys.engine.bookTickers)
  (hfront : seen <+: sys.consumer.incomingMdUpdates)
  (hbook : (seen.map Arrival.update).foldlM (MarketOrderBook.receive ticker)
    (MarketOrderBook.init π ticker) = some book)

include hclean hticker hfront hbook

/-- The book behind a front of the stream shows what the front says. -/
theorem observes_front :
    book.Observes book.trackedOrders (FlatBook.after ticker (seen.map Arrival.update)) := by
  obtain ⟨rest, hrest⟩ := hfront
  have halong := hclean _ hticker
  rw [← hrest, List.map_append, Run.along_append] at halong
  obtain ⟨simulating, hsimulating, hsim⟩ := MarketOrderBook.exists_foldlM_receive _ halong.1
  obtain rfl := Option.some.inj (hbook.symm.trans hsimulating)
  exact hsim.observes hsim.trackedOrders.ge

/-- Behind a snapshot it shows a book that the exchange has had. -/
theorem observes_published {published : Publication} (hopen : book.inSnapshot = false)
    (hordered : sys.consumer.Ordered) (hhonest : Honest published sys.consumer.incomingMdUpdates)
    (hsnapshot : HasSnapshot seen) :
    ∃ number, Anchored seen (number + 1)
      ∧ book.Observes book.trackedOrders (published.book ticker number) := by
  have hobserves := observes_front hclean hticker hfront hbook
  have houtside : Outside ticker seen := hobserves.inSnapshot.symm.trans hopen
  obtain ⟨next, before, last, snapshot, increments, rfl, hlast, hnumbered, rfl⟩ :=
    hordered.segmented.anchored_of_front hfront hsnapshot houtside
  have hagrees := (hhonest.of_front hfront houtside).agrees hlast hnumbered ticker
  refine ⟨last.toNat + increments.length, ⟨before, last, snapshot, increments, rfl, hlast, hnumbered, ?_⟩, ?_⟩
  · omega
  · refine hobserves.congr ?_
    obtain ⟨opening, entries, closing, rfl, -, hopening, -⟩ := hlast
    rw [List.map_append, List.cons_append, List.map_cons, FlatBook.after_of_snapshotStart hopening]
    exact hagrees

end Front

/-- **Orders follow the exchange.** Every order is made of the book behind a front of the updates popped.
With clean replaces that book is what the front says, and behind an honest snapshot it is the exchange's. -/
theorem orders_follow_exchange (taker : LiquidityTaker) (slotCount maxSlots requestCapacity : Nat)
    (preparations : List (Preparation LiquidityTaker)) (events : List Event)
    (hrun : events.foldlM step (start (prepared taker slotCount maxSlots requestCapacity preparations :
      TradeEngine LiquidityTaker TradingFeatures π cap)) = some sys) :
    ∀ request ∈ sys.engine.orderRequests, ∃ (seen : List Arrival) (profile : Profile) (book : MarketOrderBook π),
      seen <+: sys.consumer.incomingMdUpdates.take sys.popped
        ∧ profile ∈ sys.engine.profiles ∧ request.tickerId ∈ profile.tickers
        ∧ (∃ counter, request.clientOrderId = OrderIdAllocator.makeId profile.number counter)
        ∧ (seen.map Arrival.update).foldlM (MarketOrderBook.receive request.tickerId)
          (MarketOrderBook.init π request.tickerId) = some book
        ∧ profile.taker.Warrants book request
        ∧ (sys.CleanReplaces →
          book.Observes book.trackedOrders (FlatBook.after request.tickerId (seen.map Arrival.update))
          ∧ ∀ published, Honest published sys.consumer.incomingMdUpdates →
            Run.Along step NumbersFit (start (prepared taker slotCount maxSlots requestCapacity preparations :
              TradeEngine LiquidityTaker TradingFeatures π cap)) events → HasSnapshot seen →
            ∃ number, Anchored seen (number + 1)
              ∧ book.Observes book.trackedOrders (published.book request.tickerId number)) := by
  intro request hmem
  obtain ⟨seen, hseen, hticker, book, hbook, hopen, -, profile, hprofile, htickers, hid, hwarrants⟩ :=
    (explained_run taker slotCount maxSlots requestCapacity preparations hrun).prompted request hmem
  have hfront : seen <+: sys.consumer.incomingMdUpdates := hseen.trans (List.take_prefix ..)
  refine ⟨seen, profile, book, hseen, hprofile, htickers, hid, hbook, hwarrants, fun hclean => ?_⟩
  refine ⟨observes_front hclean hticker hfront hbook, fun published hhonest hfit hsnapshot => ?_⟩
  exact observes_published hclean hticker hfront hbook hopen (ordered_run _ hfit hrun) hhonest hsnapshot

/-- The engine of `main` with the features that are read. -/
def readingEngine : TradeEngine LiquidityTaker TradingFeatures FreeListPool ⟨16, 64, 256⟩ :=
  prepared { orderQty := 10, entryImbalance := 300000 } 1 4 16 oneTicker

theorem orders_follow_exchange_agreedRun :
    ∃ sys request, agreedRun.foldlM step (start readingEngine) = some sys
      ∧ sys.engine.orderRequests.head? = some request ∧ request.price = 101
      ∧ ∃ (seen : List Arrival) (profile : Profile) (book : MarketOrderBook FreeListPool), HasSnapshot seen
        ∧ profile.taker.Warrants book request ∧ ∃ number, Anchored seen (number + 1)
          ∧ book.Observes book.trackedOrders (threeOrders.book request.tickerId number) := by
  have hrun : (agreedRun.foldlM step (start readingEngine)).any (fun sys =>
      sys.consumer.incomingMdUpdates.all (·.update.type ≠ .replace)
        && sys.consumer.incomingMdUpdates = agreedSnapshot
          ++ [⟨threeOrders 3, ⟨.feed, feedFrame 3 (addMsg 3 1)⟩⟩]
        && sys.engine.orderRequests.head?.any (fun request => request.price = 101)) = true := by decide +kernel
  have hfit : Run.Along step NumbersFit (start readingEngine) agreedRun := by decide +kernel
  obtain ⟨sys, hrun, hcheck⟩ := (Option.any_eq_true _ _).mp hrun
  simp only [Bool.and_eq_true, decide_eq_true_eq] at hcheck
  obtain ⟨⟨hreplace, hincoming⟩, hrequest⟩ := hcheck
  obtain ⟨request, hrequest, hprice⟩ := (Option.any_eq_true _ _).mp hrequest
  have hclean : sys.CleanReplaces := cleanReplaces_of_no_replace (by simpa using hreplace)
  obtain ⟨seen, profile, book, hseen, -, -, -, -, hwarrants, hrest⟩ :=
    orders_follow_exchange _ 1 4 16 oneTicker agreedRun hrun request (List.mem_of_head? hrequest)
  obtain ⟨hobserves, hexchange⟩ := hrest hclean
  have hsnapshot : HasSnapshot seen := by
    cases seen with
    | nil =>
        have hbid : book.bbo.bidPrice = priceInvalid := by
          rw [hobserves.bbo]
          rfl
        exact absurd hbid hwarrants.quoted.1
    | cons first rest =>
        have hfront := hseen.trans (List.take_prefix ..)
        rw [hincoming] at hfront
        obtain ⟨rfl, -⟩ := List.cons_prefix_cons.mp hfront
        exact ⟨_, List.mem_cons_self, rfl⟩
  exact ⟨sys, request, hrun, hrequest, of_decide_eq_true hprice, seen, profile, book, hsnapshot, hwarrants,
    hexchange threeOrders (hincoming ▸ honest_agreedRun) hfit hsnapshot⟩

end TradingSystem

end AlphaTrader
