import AlphaTrader.Proof.EngineBooks
import AlphaTrader.Proof.FeatureArithmetic
import AlphaTrader.Proof.SyncGate
import AlphaTrader.Proof.Synchronized
import AlphaTrader.Trading.Features

/-!
# The engine's books replicate what the consumer delivers

The consumer pushes updates while the engine pops them, and the two interleave as they like. Whatever the
strategies do meanwhile, the books of the engine are at every moment those of the updates popped so far,
and so are the features of every slot. Where the flag stands for a snapshot, the drained books are the
ones of that snapshot and all increments behind it.
-/

namespace AlphaTrader

/-! ### The consumer only appends -/

namespace MarketDataConsumer

variable {c c' : MarketDataConsumer} {turn : Turn} {arrival : Arrival}

theorem prefix_push (c : MarketDataConsumer) (updates : List Arrival) :
    c.incomingMdUpdates <+: (c.push updates).incomingMdUpdates :=
  List.prefix_append _ _

theorem prefix_processIncremental (c : MarketDataConsumer) (arrival : Arrival) :
    c.incomingMdUpdates <+: (c.processIncremental arrival).incomingMdUpdates := by
  unfold processIncremental
  dsimp only
  split
  · exact List.prefix_rfl
  split
  · exact c.prefix_push [arrival]
  split
  · exact c.prefix_push [arrival]
  split
  · unfold detectGap
    dsimp only
    repeat' split
    all_goals exact List.prefix_rfl
  · exact List.prefix_rfl

theorem prefix_finishReplaySync (c : MarketDataConsumer) :
    c.incomingMdUpdates <+: c.finishReplaySync.incomingMdUpdates := by
  unfold finishReplaySync
  dsimp only
  split
  · exact List.prefix_rfl
  · exact c.prefix_push _

theorem prefix_processSnapshot (c : MarketDataConsumer) (arrival : Arrival) :
    c.incomingMdUpdates <+: (c.processSnapshot arrival).incomingMdUpdates := by
  unfold processSnapshot
  split
  · exact List.prefix_rfl
  split
  · exact List.prefix_rfl
  split
  · exact List.prefix_rfl
  dsimp only
  split
  · unfold finishSnapshotSync
    dsimp only
    split
    · exact List.prefix_rfl
    · exact List.prefix_append _ _
  · exact List.prefix_rfl

theorem Accepted.incoming {kind : FrameKind} {data : List UInt8}
    (haccepted : Accepted c kind data arrival c') : c'.incomingMdUpdates = c.incomingMdUpdates := by
  obtain ⟨decoder, -, rfl⟩ := haccepted.decoded
  rfl

theorem prefix_takes (htakes : Takes c turn c') : c.incomingMdUpdates <+: c'.incomingMdUpdates := by
  cases htakes with
  | live haccepted => exact haccepted.incoming ▸ prefix_processIncremental ..
  | snapshot _ haccepted => exact haccepted.incoming ▸ prefix_processSnapshot ..
  | replay _ _ haccepted => exact haccepted.incoming ▸ List.prefix_rfl
  | disordered _ _ haccepted => exact haccepted.incoming ▸ List.prefix_rfl
  | finishReplay => exact prefix_finishReplaySync c
  | current => exact prefix_finishReplaySync c.closeSocket
  | retry => exact List.prefix_rfl
  | escalate => exact List.prefix_rfl
  | abort => exact List.prefix_rfl

theorem prefix_step_tcp {received : TcpRead} (hstep : c.step (.tcp received) = some c') :
    c.incomingMdUpdates <+: c'.incomingMdUpdates := by
  let Inv : MarketDataConsumer → Prop := fun c' => c.incomingMdUpdates <+: c'.incomingMdUpdates
  have htakes : ∀ c turn c', Inv c → True → Takes c turn c' → Inv c' :=
    fun c turn c' hgrows _ htakes => hgrows.trans (prefix_takes htakes)
  exact invariant_step (fun _ _ _ _ _ _ hgrows => hgrows) htakes c (.tcp received) c' List.prefix_rfl
    (fun _ => tcpGuarded_of_forall (fun _ _ => trivial) c received) hstep

theorem prefix_offer {data : List UInt8} {arrival? : Option Arrival}
    (hoffer : c.offer .feed data = some (c', arrival?)) :
    c.incomingMdUpdates <+: (arrival?.elim c' c'.processIncremental).incomingMdUpdates := by
  cases arrival? with
  | none =>
      obtain ⟨size, more, rfl⟩ := resting_of_offer hoffer
      exact List.prefix_rfl
  | some arrival => exact prefix_takes (.live (accepted_of_offer hoffer))

end MarketDataConsumer

/-! ### Books on their own -/

/-- The flat book of a ticker after some updates. -/
def FlatBook.after (ticker : TickerId) (updates : List MarketUpdate) : FlatBook :=
  updates.foldl applyUpdate (init ticker)

theorem FlatBook.tickerId_after (ticker : TickerId) (updates : List MarketUpdate) :
    (FlatBook.after ticker updates).tickerId = ticker := by
  unfold FlatBook.after
  induction updates using List.reverseRecOn with
  | nil => rfl
  | append_singleton updates update ih =>
      rw [List.foldl_append, List.foldl_cons, List.foldl_nil, tickerId_applyUpdate, ih]

/-- The begin of a snapshot makes everything before it irrelevant. -/
theorem FlatBook.after_of_snapshotStart {ticker : TickerId} {opening : MarketUpdate}
    (hopening : opening.type = .snapshotStart) (before updates : List MarketUpdate) :
    FlatBook.after ticker (before ++ opening :: updates) = FlatBook.after ticker (opening :: updates) := by
  have hcleared : ∀ book : FlatBook, book.tickerId = ticker →
      book.applyUpdate opening = { tickerId := ticker, entries := [], inSnapshot := true } := by
    rintro book rfl
    rw [applyUpdate, hopening]
  have hbefore : (before.foldl applyUpdate (init ticker)).tickerId = ticker := tickerId_after ticker before
  rw [after, List.foldl_append, List.foldl_cons, hcleared _ hbefore, after, List.foldl_cons, hcleared _ rfl]

namespace MarketOrderBook

variable {π : Type} [ObjectPool π] {book : MarketOrderBook π} {flat : FlatBook} {update : MarketUpdate}

theorem Simulates.trackedOrders (hsim : Simulates book flat) :
    book.trackedOrders = flat.entries.length := by
  obtain ⟨orders, hrep, hentries⟩ := hsim.orders
  exact hrep.trackedOrders_eq hentries

theorem exists_applyUpdate (hsim : Simulates book flat) (hclean : book.RelinksCleanly update) :
    ∃ book', book.applyUpdate book.trackedOrders update = some book'
      ∧ Simulates book' (flat.applyUpdate update) :=
  simulates_applyUpdate hsim (fun _ => hsim.trackedOrders.ge) hclean

theorem exists_receive (hsim : Simulates book flat) (hclean : book.RelinksCleanly update) :
    ∃ book', book.receive flat.tickerId update = some book' ∧ Simulates book' (flat.applyUpdate update) := by
  unfold receive
  by_cases hreach : update.Reaches flat.tickerId
  · rw [if_pos hreach]
    exact exists_applyUpdate hsim hclean
  · obtain ⟨hmarker, hticker⟩ := not_or.mp hreach
    have hstart : update.type ≠ .snapshotStart := fun htype => hmarker (by simp [htype, TradeEngine.isMarker])
    have hend : update.type ≠ .snapshotEnd := fun htype => hmarker (by simp [htype, TradeEngine.isMarker])
    rw [if_neg hreach, flat_applyUpdate_of_ne hticker hstart hend]
    exact ⟨book, rfl, hsim⟩

/-- A book on its own whose replaces relink cleanly simulates the flat book. -/
theorem exists_foldlM_receive (ticker : TickerId) {updates : List MarketUpdate}
    (hclean : Run.Along (receive ticker) RelinksCleanly (init π ticker) updates) :
    ∃ book, updates.foldlM (receive ticker) (init π ticker) = some book
      ∧ Simulates book (FlatBook.after ticker updates) := by
  let R : Nat → MarketOrderBook π → FlatBook → Prop :=
    fun _ book flat => Simulates book flat ∧ flat.tickerId = ticker
  have hstep : ∀ n book flat update, R (n + 1) book flat → book.RelinksCleanly update →
      ∃ book', book.receive ticker update = some book' ∧ R n book' (flat.applyUpdate update) := by
    rintro n book flat update ⟨hsim, rfl⟩ hclean
    obtain ⟨book', hreceive, hsim'⟩ := exists_receive hsim hclean
    exact ⟨book', hreceive, hsim', flat.tickerId_applyUpdate update⟩
  obtain ⟨book, hrun, hsim, -⟩ := Run.simulation FlatBook.applyUpdate hstep
    (t := FlatBook.init ticker) ⟨simulates_init ticker, rfl⟩ hclean
  exact ⟨book, hrun, hsim⟩

end MarketOrderBook

/-! ### The engine follows -/

namespace TradingSystem

open TradeEngine (Preparation prepared)
open MarketDataConsumer (addMsg feedFrame)

variable {S F π : Type} {cap : Capacity} [ObjectPool π] [FeatureEngine F] [Strategy S F cap]
  {sys sys' : TradingSystem S F π cap} {event : Event}

/-- The updates that the engine has popped. -/
def delivered (sys : TradingSystem S F π cap) : List MarketUpdate :=
  (sys.consumer.incomingMdUpdates.take sys.popped).map Arrival.update

structure Replicates (sys : TradingSystem S F π cap) : Prop where
  popped : sys.popped ≤ sys.consumer.incomingMdUpdates.length
  follows : sys.engine.Follows sys.delivered

omit [Strategy S F cap] in
/-- What the consumer pushes does not change what has been popped. -/
theorem Replicates.consumer (hreplicates : sys.Replicates) {consumer : MarketDataConsumer}
    (hgrows : sys.consumer.incomingMdUpdates <+: consumer.incomingMdUpdates) :
    Replicates { sys with consumer := consumer } := by
  obtain ⟨pushed, hpushed⟩ := hgrows
  refine ⟨?_, ?_⟩
  · rw [← hpushed, List.length_append]
    exact Nat.le_add_right_of_le hreplicates.popped
  · have hdelivered : delivered { sys with consumer := consumer } = sys.delivered := by
      rw [delivered, ← hpushed, List.take_append_of_le_length hreplicates.popped]
      rfl
    rw [hdelivered]
    exact hreplicates.follows

theorem Replicates.engineStep (hreplicates : sys.Replicates) (hstep : sys.engineStep = some sys') :
    sys'.Replicates := by
  have hsame : ∀ engine : TradeEngine S F π cap, engine.tickers = sys.engine.tickers →
      engine.slots = sys.engine.slots → engine.Follows sys.delivered := by
    intro engine htickers hslots
    apply hreplicates.follows.of_same htickers
    intro index
    rw [TradeEngine.entries, hslots]
    rfl
  unfold TradingSystem.engineStep at hstep
  split at hstep
  case h_1 =>
      obtain rfl := Option.some.inj hstep
      split
      · exact ⟨hreplicates.popped, hsame _ rfl rfl⟩
      · exact hreplicates
  case h_2 =>
      split at hstep
      case h_1 =>
          obtain rfl := Option.some.inj hstep
          exact ⟨hreplicates.popped, hreplicates.follows⟩
      case h_2 response rest _ =>
          obtain rfl := Option.some.inj hstep
          exact ⟨hreplicates.popped, hreplicates.follows.processResponse response⟩
  case h_3 =>
      split at hstep
      case h_1 =>
          obtain rfl := Option.some.inj hstep
          exact ⟨hreplicates.popped, hreplicates.follows⟩
      case h_2 update rest hqueue =>
          obtain ⟨engine, hprocess, hrest⟩ := Option.bind_eq_some_iff.mp hstep
          obtain rfl := Option.some.inj hrest
          -- the update at the head of the queue is the next one after those popped
          obtain ⟨arrival, more, hdrop, rfl, -⟩ := List.map_eq_cons_iff.mp hqueue
          have hlt : sys.popped < sys.consumer.incomingMdUpdates.length := by
            by_contra hge
            rw [List.drop_eq_nil_of_le (not_lt.mp hge)] at hdrop
            cases hdrop
          have hnext : sys.consumer.incomingMdUpdates.take (sys.popped + 1) =
              sys.consumer.incomingMdUpdates.take sys.popped ++ [arrival] := by
            rw [List.take_add, hdrop]
            rfl
          refine ⟨hlt, ?_⟩
          rw [delivered, hnext, List.map_append]
          exact hreplicates.follows.processUpdate hprocess

theorem Replicates.step (hreplicates : sys.Replicates) (hstep : sys.step event = some sys') :
    sys'.Replicates := by
  cases event with
  | incremental data =>
      obtain ⟨⟨consumer, arrival?⟩, hoffer, hrest⟩ := Option.bind_eq_some_iff.mp hstep
      obtain rfl := Option.some.inj hrest
      exact hreplicates.consumer (MarketDataConsumer.prefix_offer hoffer)
  | tcp received =>
      obtain ⟨consumer, hconsumer, hrest⟩ := Option.bind_eq_some_iff.mp hstep
      obtain rfl := Option.some.inj hrest
      exact hreplicates.consumer (MarketDataConsumer.prefix_step_tcp hconsumer)
  | engine => exact hreplicates.engineStep hstep
  | respond response =>
      obtain rfl := Option.some.inj hstep
      exact ⟨hreplicates.popped, hreplicates.follows⟩
  | takeRequest =>
      obtain rfl := Option.some.inj hstep
      exact ⟨hreplicates.popped, hreplicates.follows.of_same rfl fun _ => rfl⟩

theorem replicates_run (strategy : S) (slotCount maxSlots requestCapacity : Nat)
    (preparations : List (Preparation S)) {events : List Event}
    (hrun : events.foldlM step
      (start (prepared strategy slotCount maxSlots requestCapacity preparations)) = some sys) :
    sys.Replicates := by
  have hstart : Replicates
      (start (prepared strategy slotCount maxSlots requestCapacity preparations) :
        TradingSystem S F π cap) :=
    ⟨Nat.zero_le _, TradeEngine.follows_prepared ..⟩
  exact Run.invariant (P := fun _ _ => True) (fun _ _ _ hreplicates _ hstep => hreplicates.step hstep)
    hstart (Run.Along.of_forall_mem (fun _ _ _ => trivial) _) hrun

/-- **Followers.** In every interleaving of the consumer, the engine and the gateway, and whatever the
strategies do, what a slot has for a ticker is what a follower of that ticker has after the updates that
the engine has popped. -/
theorem followers_in_step (strategy : S) (slotCount maxSlots requestCapacity : Nat)
    (preparations : List (Preparation S)) (events : List Event)
    (hrun : events.foldlM step
      (start (prepared strategy slotCount maxSlots requestCapacity preparations)) = some sys) :
    (∀ ticker book, sys.engine.book ticker = some book →
        sys.delivered.foldlM (MarketOrderBook.receive ticker) (MarketOrderBook.init π ticker) = some book)
      ∧ ∀ index ticker features, sys.engine.features index ticker = some features →
        ∃ book, sys.engine.book ticker = some book
          ∧ sys.delivered.foldlM (Follower.receive ticker) (Follower.init F π ticker) =
            some ⟨book, features⟩ := by
  have hreplicates := replicates_run strategy slotCount maxSlots requestCapacity preparations hrun
  exact ⟨hreplicates.follows.book, hreplicates.follows.features⟩

/-- What `main` does before the engine runs, with one ticker. -/
def oneTicker : List (Preparation LiquidityTaker) := [.registerTicker 0 7 ⟨100, 10, 100000000⟩]

def mainEngine : TradeEngine LiquidityTaker MainFeatures FreeListPool ⟨16, 64, 256⟩ :=
  prepared { orderQty := 10, entryImbalance := 300000 } 1 4 16 oneTicker

theorem followers_in_step_inOrderRun :
    ∃ sys features, inOrderRun.foldlM step (start mainEngine) = some sys ∧ sys.delivered.length = 5
      ∧ sys.engine.features 0 7 = some features
      ∧ ∃ book, sys.engine.book 7 = some book
        ∧ sys.delivered.foldlM (Follower.receive 7) (Follower.init MainFeatures FreeListPool 7) =
          some ⟨book, features⟩ := by
  have hrun : (inOrderRun.foldlM step (start mainEngine)).any (fun sys =>
      sys.delivered.length = 5 && (sys.engine.features 0 7).isSome) = true := by decide +kernel
  obtain ⟨sys, hrun, hcheck⟩ := (Option.any_eq_true _ _).mp hrun
  obtain ⟨hlength, hfeatures⟩ := by simpa using hcheck
  obtain ⟨features, hfeatures⟩ := Option.isSome_iff_exists.mp hfeatures
  exact ⟨sys, features, hrun, hlength, hfeatures,
    (followers_in_step _ 1 4 16 oneTicker inOrderRun hrun).2 0 7 features hfeatures⟩

/-! ### Books as flat books -/

/-- Every replace that the consumer has pushed relinks its order cleanly in the book of its ticker, as all
do if there are none. -/
def CleanReplaces (sys : TradingSystem S F π cap) : Prop :=
  ∀ ticker ∈ sys.engine.bookTickers, Run.Along (MarketOrderBook.receive ticker)
    MarketOrderBook.RelinksCleanly (MarketOrderBook.init π ticker)
    (sys.consumer.incomingMdUpdates.map Arrival.update)

omit [FeatureEngine F] [Strategy S F cap] in
theorem cleanReplaces_of_no_replace
    (hreplace : ∀ arrival ∈ sys.consumer.incomingMdUpdates, arrival.update.type ≠ .replace) :
    sys.CleanReplaces := by
  intro ticker _
  apply Run.Along.of_forall_mem
  intro update hmem book
  obtain ⟨arrival, harrival, rfl⟩ := List.mem_map.mp hmem
  exact MarketOrderBook.relinksCleanly_of_ne_replace (hreplace arrival harrival)

omit [ObjectPool π] [FeatureEngine F] [Strategy S F cap] in
theorem pushed_eq (sys : TradingSystem S F π cap) :
    sys.consumer.incomingMdUpdates.map Arrival.update = sys.delivered ++ sys.marketUpdates := by
  rw [delivered, marketUpdates, ← List.map_append, List.take_append_drop]

omit [Strategy S F cap] in
theorem Replicates.simulates (hreplicates : sys.Replicates) (hclean : sys.CleanReplaces)
    {ticker : TickerId} {book : MarketOrderBook π} (hbook : sys.engine.book ticker = some book) :
    MarketOrderBook.Simulates book (FlatBook.after ticker sys.delivered)
      ∧ ∀ update ∈ sys.marketUpdates.head?, book.RelinksCleanly update := by
  have hmem : ticker ∈ sys.engine.bookTickers := TradeEngine.isSome_book_iff.mp (hbook ▸ rfl)
  have halong := hclean ticker hmem
  rw [pushed_eq, Run.along_append] at halong
  obtain ⟨hpopped, hqueued⟩ := halong
  have hrun := hreplicates.follows.book ticker book hbook
  obtain ⟨simulating, hsimulating, hsim⟩ := MarketOrderBook.exists_foldlM_receive ticker hpopped
  obtain rfl := Option.some.inj (hrun.symm.trans hsimulating)
  refine ⟨hsim, fun update hhead => ?_⟩
  obtain ⟨rest, hrest⟩ := List.head?_eq_some_iff.mp hhead
  have hnext := hqueued _ hrun
  rw [hrest] at hnext
  exact hnext.1

/-- The engine does not get stuck. -/
theorem Replicates.exists_engineStep (hreplicates : sys.Replicates) (hclean : sys.CleanReplaces) :
    ∃ sys', sys.engineStep = some sys' := by
  unfold TradingSystem.engineStep
  split
  case h_1 => exact ⟨_, rfl⟩
  case h_2 => split <;> exact ⟨_, rfl⟩
  case h_3 =>
      split
      case h_1 => exact ⟨_, rfl⟩
      case h_2 update rest hqueue =>
          have hbooks : ∀ source ∈ sys.engine.tickers,
              ∃ book', source.book.applyUpdate source.book.trackedOrders update = some book' := by
            intro source hmem
            have hbook : sys.engine.book source.tickerId = some source.book := by
              rw [TradeEngine.book_eq_lookup,
                (Table.lookup_eq_some_iff hreplicates.follows.books).mpr ⟨hmem, rfl⟩]
              rfl
            obtain ⟨hsim, hnext⟩ := hreplicates.simulates hclean hbook
            obtain ⟨book', happly, -⟩ :=
              MarketOrderBook.exists_applyUpdate hsim (hnext update (by simp [hqueue]))
            exact ⟨book', happly⟩
          obtain ⟨engine, hprocess⟩ := TradeEngine.exists_processUpdate hbooks
          exact ⟨_, by rw [hprocess]; rfl⟩

/-- **The books are those of the updates popped.** As long as replaces relink cleanly, the engine can
always take its next step, and every book shows what the flat book of its ticker shows. -/
theorem books_observe_delivered (strategy : S) (slotCount maxSlots requestCapacity : Nat)
    (preparations : List (Preparation S)) (events : List Event)
    (hrun : events.foldlM step
      (start (prepared strategy slotCount maxSlots requestCapacity preparations)) = some sys)
    (hclean : sys.CleanReplaces) :
    (∃ sys', sys.step .engine = some sys')
      ∧ ∀ ticker book, sys.engine.book ticker = some book →
        book.Observes book.trackedOrders (FlatBook.after ticker sys.delivered) := by
  have hreplicates := replicates_run strategy slotCount maxSlots requestCapacity preparations hrun
  refine ⟨hreplicates.exists_engineStep hclean, fun ticker book hbook => ?_⟩
  have hsim := (hreplicates.simulates hclean hbook).1
  exact hsim.observes hsim.trackedOrders.ge

theorem books_observe_delivered_inOrderRun :
    ∃ sys book, inOrderRun.foldlM step (start mainEngine) = some sys ∧ sys.delivered.length = 5
      ∧ sys.engine.book 7 = some book ∧ book.trackedOrders = 3
      ∧ book.Observes book.trackedOrders (FlatBook.after 7 sys.delivered) := by
  have hrun : (inOrderRun.foldlM step (start mainEngine)).any (fun sys =>
      sys.delivered.length = 5 && sys.consumer.incomingMdUpdates.all (·.update.type ≠ .replace)
        && (sys.engine.book 7).any (·.trackedOrders = 3)) = true := by decide +kernel
  obtain ⟨sys, hrun, hcheck⟩ := (Option.any_eq_true _ _).mp hrun
  simp only [Bool.and_eq_true, decide_eq_true_eq] at hcheck
  obtain ⟨⟨hlength, hreplace⟩, hbook⟩ := hcheck
  obtain ⟨book, hbook, htracked⟩ := (Option.any_eq_true _ _).mp hbook
  have hclean : sys.CleanReplaces := cleanReplaces_of_no_replace (by simpa using hreplace)
  exact ⟨sys, book, hrun, hlength, hbook, of_decide_eq_true htracked,
    (books_observe_delivered _ 1 4 16 oneTicker inOrderRun hrun hclean).2 7 book hbook⟩

/-! ### Drained books -/

section Meets

variable (G : MarketDataConsumer → MarketDataConsumer.Turn → Prop)

/-- The turns that the consumer takes meet a condition, whichever thread steps in between. -/
def Meets (sys : TradingSystem S F π cap) : Event → Prop
  | .incremental data => ∀ arrival ∈ sys.consumer.accepted? .feed data, G sys.consumer (.live arrival)
  | .tcp received => sys.consumer.Guarded G (.tcp received)
  | _ => True

instance [∀ c turn, Decidable (G c turn)] (sys : TradingSystem S F π cap) :
    ∀ event, Decidable (sys.Meets G event)
  | .incremental _ => inferInstanceAs (Decidable (∀ arrival ∈ _, _))
  | .tcp received => inferInstanceAs (Decidable (sys.consumer.Guarded G (.tcp received)))
  | .engine | .respond _ | .takeRequest => isTrue trivial

variable {G}

/-- What every turn preserves, every step of the system does. -/
theorem consumer_invariant {Inv : MarketDataConsumer → Prop}
    (hrest : ∀ c size more statusRead inbound tcp, Inv c →
      Inv (c.resting size more statusRead inbound tcp))
    (htakes : ∀ c turn c', Inv c → G c turn → MarketDataConsumer.Takes c turn c' → Inv c')
    (sys : TradingSystem S F π cap) (event : Event) (sys' : TradingSystem S F π cap)
    (hinv : Inv sys.consumer) (hmeets : sys.Meets G event) (hstep : sys.step event = some sys') :
    Inv sys'.consumer := by
  cases event with
  | incremental data =>
      obtain ⟨⟨consumer, arrival?⟩, hoffer, hrest'⟩ := Option.bind_eq_some_iff.mp hstep
      obtain rfl := Option.some.inj hrest'
      cases arrival? with
      | none =>
          obtain ⟨size, more, rfl⟩ := MarketDataConsumer.resting_of_offer hoffer
          exact hrest _ _ _ _ _ _ hinv
      | some arrival =>
          exact htakes _ _ _ hinv (hmeets arrival (MarketDataConsumer.mem_accepted?_of_offer hoffer))
            (.live (MarketDataConsumer.accepted_of_offer hoffer))
  | tcp received =>
      obtain ⟨consumer, hconsumer, hrest'⟩ := Option.bind_eq_some_iff.mp hstep
      obtain rfl := Option.some.inj hrest'
      exact MarketDataConsumer.invariant_step hrest htakes _ (.tcp received) _ hinv hmeets hconsumer
  | engine => exact consumer_engineStep hstep ▸ hinv
  | respond response => exact Option.some.inj hstep ▸ hinv
  | takeRequest => exact Option.some.inj hstep ▸ hinv

end Meets

/-- Sequence numbers have room for the next one. -/
def NumbersFit (sys : TradingSystem S F π cap) (event : Event) : Prop :=
  sys.Meets MarketDataConsumer.InRange event
  deriving Decidable

/-- A gap leads to a replay only behind a delivered snapshot, and sequence numbers have room. -/
def SnapshotFirst (sys : TradingSystem S F π cap) (event : Event) : Prop :=
  sys.Meets MarketDataConsumer.SnapshotFirst event
  deriving Decidable

theorem ordered_run (engine : TradeEngine S F π cap) {events : List Event}
    (hfit : Run.Along step NumbersFit (start engine) events)
    (hrun : events.foldlM step (start engine) = some sys) : sys.consumer.Ordered := by
  have hkept : ∀ (sys : TradingSystem S F π cap) event sys', sys.consumer.Ordered →
      sys.NumbersFit event → sys.step event = some sys' → sys'.consumer.Ordered :=
    consumer_invariant (fun _ _ _ _ _ _ h => h.resting ..) MarketDataConsumer.ordered_takes
  exact Run.invariant hkept MarketDataConsumer.ordered_start hfit hrun

/-- What stands behind the flag. -/
theorem founded_run (engine : TradeEngine S F π cap) {events : List Event}
    (hfirst : Run.Along step SnapshotFirst (start engine) events)
    (hrun : events.foldlM step (start engine) = some sys) :
    sys.consumer.Ordered ∧ sys.consumer.Backed := by
  have htakes : ∀ c turn c', c.Ordered ∧ c.Backed → c.SnapshotFirst turn →
      MarketDataConsumer.Takes c turn c' → c'.Ordered ∧ c'.Backed :=
    fun c turn c' h hfirst htakes =>
      ⟨MarketDataConsumer.ordered_takes c turn c' h.1 hfirst.inRange htakes,
        MarketDataConsumer.backed_takes c turn c' h.2 hfirst htakes⟩
  have hstart : (start engine).consumer.Backed := fun hset => by
    simp [start, MarketDataConsumer.start, MarketDataConsumer.startSnapshotSync] at hset
  have hkept : ∀ (sys : TradingSystem S F π cap) event sys', sys.consumer.Ordered ∧ sys.consumer.Backed →
      sys.SnapshotFirst event → sys.step event = some sys' →
        sys'.consumer.Ordered ∧ sys'.consumer.Backed :=
    consumer_invariant (fun _ _ _ _ _ _ h => ⟨h.1.resting .., h.2⟩) htakes
  exact Run.invariant hkept ⟨MarketDataConsumer.ordered_start, hstart⟩ hfirst hrun

/-- Drained behind the flag, a book is that of the last snapshot and of all increments behind it. -/
theorem drained_simulates (strategy : S) (slotCount maxSlots requestCapacity : Nat)
    (preparations : List (Preparation S)) {events : List Event}
    (hfirst : Run.Along step SnapshotFirst (start
      (prepared strategy slotCount maxSlots requestCapacity preparations : TradeEngine S F π cap)) events)
    (hrun : events.foldlM step
      (start (prepared strategy slotCount maxSlots requestCapacity preparations)) = some sys)
    (hclean : sys.CleanReplaces) (hflag : sys.consumer.marketDataSynchronized = true)
    (hdrained : sys.marketUpdates = []) :
    ∃ before last snapshot increments, sys.consumer.incomingMdUpdates = before ++ (snapshot ++ increments)
      ∧ IsSnapshot last snapshot ∧ Numbered (last.toNat + 1) increments
      ∧ sys.consumer.nextExpIncSeqNum.toNat = last.toNat + 1 + increments.length
      ∧ ∀ ticker book, sys.engine.book ticker = some book → MarketOrderBook.Simulates book
          (FlatBook.after ticker ((snapshot ++ increments).map Arrival.update)) := by
  obtain ⟨hordered, hbacked⟩ := founded_run _ hfirst hrun
  obtain ⟨before, last, snapshot, increments, hincoming, hsnapshot, hnumbered, hnext⟩ :=
    hordered.segmented.anchored (hbacked (Or.inr hflag))
  refine ⟨before, last, snapshot, increments, hincoming, hsnapshot, hnumbered, hnext,
    fun ticker book hbook => ?_⟩
  have hdelivered : sys.delivered =
      before.map Arrival.update ++ (snapshot ++ increments).map Arrival.update := by
    have hpushed := sys.pushed_eq
    rw [hdrained, List.append_nil, hincoming, List.map_append] at hpushed
    exact hpushed.symm
  obtain ⟨opening, entries, closing, rfl, -, hopening, -⟩ := hsnapshot
  have hsim := ((replicates_run strategy slotCount maxSlots requestCapacity preparations hrun).simulates
    hclean hbook).1
  rw [hdelivered, List.cons_append, List.map_cons, FlatBook.after_of_snapshotStart hopening] at hsim
  exact hsim

/-- **Drained behind the flag**, the books are those of the last snapshot pushed and of all increments
behind it. -/
theorem drained_books_authoritative (strategy : S) (slotCount maxSlots requestCapacity : Nat)
    (preparations : List (Preparation S)) (events : List Event)
    (hfirst : Run.Along step SnapshotFirst (start
      (prepared strategy slotCount maxSlots requestCapacity preparations : TradeEngine S F π cap)) events)
    (hrun : events.foldlM step
      (start (prepared strategy slotCount maxSlots requestCapacity preparations)) = some sys)
    (hclean : sys.CleanReplaces) (hflag : sys.consumer.marketDataSynchronized = true)
    (hdrained : sys.marketUpdates = []) :
    ∃ before last snapshot increments, sys.consumer.incomingMdUpdates = before ++ (snapshot ++ increments)
      ∧ IsSnapshot last snapshot ∧ Numbered (last.toNat + 1) increments
      ∧ sys.consumer.nextExpIncSeqNum.toNat = last.toNat + 1 + increments.length
      ∧ ∀ ticker book, sys.engine.book ticker = some book → book.Observes book.trackedOrders
          (FlatBook.after ticker ((snapshot ++ increments).map Arrival.update)) := by
  obtain ⟨before, last, snapshot, increments, hincoming, hsnapshot, hnumbered, hnext, hbooks⟩ :=
    drained_simulates strategy slotCount maxSlots requestCapacity preparations hfirst hrun hclean hflag hdrained
  refine ⟨before, last, snapshot, increments, hincoming, hsnapshot, hnumbered, hnext,
    fun ticker book hbook => ?_⟩
  have hsim := hbooks ticker book hbook
  exact hsim.observes hsim.trackedOrders.ge

/-- A first snapshot is taken and drained, the next update follows, and is drained too. -/
def drainedRun : List Event :=
  drainingRun ++ [.engine, .incremental (feedFrame 1 (addMsg 3 1)), .engine, .engine]

theorem drained_books_authoritative_drainedRun :
    ∃ sys book, drainedRun.foldlM step (start mainEngine) = some sys
      ∧ sys.consumer.marketDataSynchronized = true ∧ sys.marketUpdates = []
      ∧ sys.engine.book 7 = some book ∧ book.trackedOrders = 3
      ∧ ∃ before last snapshot increments,
        sys.consumer.incomingMdUpdates = before ++ (snapshot ++ increments)
        ∧ IsSnapshot last snapshot ∧ Numbered (last.toNat + 1) increments
        ∧ sys.consumer.nextExpIncSeqNum.toNat = last.toNat + 1 + increments.length
        ∧ book.Observes book.trackedOrders
          (FlatBook.after 7 ((snapshot ++ increments).map Arrival.update)) := by
  have hrun : (drainedRun.foldlM step (start mainEngine)).any (fun sys =>
      sys.consumer.marketDataSynchronized && sys.marketUpdates.isEmpty
        && sys.consumer.incomingMdUpdates.all (·.update.type ≠ .replace)
        && (sys.engine.book 7).any (·.trackedOrders = 3)) = true := by decide +kernel
  have hfirst : Run.Along step SnapshotFirst (start mainEngine) drainedRun := by decide +kernel
  obtain ⟨sys, hrun, hcheck⟩ := (Option.any_eq_true _ _).mp hrun
  simp only [Bool.and_eq_true, List.isEmpty_iff] at hcheck
  obtain ⟨⟨⟨hflag, hdrained⟩, hreplace⟩, hbook⟩ := hcheck
  obtain ⟨book, hbook, htracked⟩ := (Option.any_eq_true _ _).mp hbook
  have hclean : sys.CleanReplaces := cleanReplaces_of_no_replace (by simpa using hreplace)
  obtain ⟨before, last, snapshot, increments, hincoming, hsnapshot, hnumbered, hnext, hbooks⟩ :=
    drained_books_authoritative _ 1 4 16 oneTicker drainedRun hfirst hrun hclean hflag hdrained
  exact ⟨sys, book, hrun, hflag, hdrained, hbook, of_decide_eq_true htracked, before, last, snapshot,
    increments, hincoming, hsnapshot, hnumbered, hnext, hbooks 7 book hbook⟩

end TradingSystem

/-! ### The features of `main` -/

/-- The four features after some updates have reached them, given the top of the book behind the last. -/
def MainFeatures.shown (bbo : BBO) (updates : List MarketUpdate) : MainFeatures :=
  if updates = [] then {}
  else
    { mktPrice := bbo.mktPrice
      spread := bbo.spread
      imbalance := bbo.imbalance
      aggTradeRatio :=
        if executedQty .sell updates < 2 ^ 63 ∧ executedQty .buy updates < 2 ^ 63 then
          some ⟨executedQty .sell updates, executedQty .buy updates⟩
        else none }

theorem MainFeatures.aggTradeRatio_shown (bbo : BBO) (updates : List MarketUpdate) :
    (shown bbo updates).aggTradeRatio =
      updates.foldlM AggTradeRatio.onMarketUpdate ({} : AggTradeRatio).reset := by
  rw [AggTradeRatio.foldlM_onMarketUpdate, shown]
  by_cases hnil : updates = []
  · subst hnil
    rfl
  · rw [if_neg hnil]

section Features

variable {π : Type} [ObjectPool π] {ticker : TickerId}

theorem Follower.features_eq_shown {updates : List MarketUpdate} {follower : Follower MainFeatures π}
    (hrun : updates.foldlM (receive ticker) (init MainFeatures π ticker) = some follower) :
    follower.features = MainFeatures.shown follower.book.bbo (updates.filter (·.Reaches ticker)) := by
  induction updates using List.reverseRecOn generalizing follower with
  | nil =>
      obtain rfl := Option.some.inj hrun
      rfl
  | append_singleton updates update ih =>
      rw [List.foldlM_append] at hrun
      obtain ⟨before, hbefore, hreceive⟩ := Option.bind_eq_some_iff.mp hrun
      simp only [List.foldlM_cons, List.foldlM_nil, bind_pure] at hreceive
      obtain ⟨book, hbook, rfl⟩ := Option.map_eq_some_iff.mp hreceive
      rw [List.filter_append]
      by_cases hreach : update.Reaches ticker
      · have hratio := MainFeatures.aggTradeRatio_shown book.bbo
          (updates.filter (·.Reaches ticker) ++ [update])
        rw [List.foldlM_append, ← MainFeatures.aggTradeRatio_shown before.book.bbo, ← ih hbefore] at hratio
        simp only [List.foldlM_cons, List.foldlM_nil, bind_pure] at hratio
        rw [List.filter_cons_of_pos (by simpa using hreach), List.filter_nil]
        simp only [hreach, if_true]
        rw [MainFeatures.shown, if_neg (by simp)] at hratio ⊢
        exact MainFeatures.ext rfl rfl rfl hratio.symm
      · rw [MarketOrderBook.receive, if_neg hreach] at hbook
        obtain rfl := Option.some.inj hbook
        rw [List.filter_cons_of_neg (by simpa using hreach), List.filter_nil, List.append_nil]
        simp only [hreach, if_false]
        exact ih hbefore

end Features

namespace TradingSystem

open TradeEngine (Preparation prepared)

variable {S π : Type} {cap : Capacity} [ObjectPool π] [Strategy S MainFeatures cap]
  {sys : TradingSystem S MainFeatures π cap}

/-- **The features show the book.** In every slot the market price, the spread and the imbalance of a
ticker are those of its shared book, once an update has reached it, and the trade ratio counts every
execution that has. -/
theorem features_show_book (strategy : S) (slotCount maxSlots requestCapacity : Nat)
    (preparations : List (Preparation S)) (events : List Event)
    (hrun : events.foldlM step
      (start (prepared strategy slotCount maxSlots requestCapacity preparations)) = some sys)
    (index : Nat) (ticker : TickerId) (features : MainFeatures)
    (hfeatures : sys.engine.features index ticker = some features) :
    ∃ book, sys.engine.book ticker = some book
      ∧ features = .shown book.bbo (sys.delivered.filter (·.Reaches ticker)) := by
  have hreplicates := replicates_run strategy slotCount maxSlots requestCapacity preparations hrun
  obtain ⟨book, hbook, hfollow⟩ := hreplicates.follows.features index ticker features hfeatures
  exact ⟨book, hbook, Follower.features_eq_shown hfollow⟩

theorem features_show_book_inOrderRun :
    ∃ sys features, inOrderRun.foldlM step (start mainEngine) = some sys
      ∧ (sys.delivered.filter (·.Reaches 7)).length = 5
      ∧ sys.engine.features 0 7 = some features
      ∧ ∃ book, sys.engine.book 7 = some book
        ∧ features = .shown book.bbo (sys.delivered.filter (·.Reaches 7)) := by
  have hrun : (inOrderRun.foldlM step (start mainEngine)).any (fun sys =>
      (sys.delivered.filter (·.Reaches 7)).length = 5 && (sys.engine.features 0 7).isSome) = true := by
    decide +kernel
  obtain ⟨sys, hrun, hcheck⟩ := (Option.any_eq_true _ _).mp hrun
  simp only [Bool.and_eq_true, decide_eq_true_eq] at hcheck
  obtain ⟨hlength, hfeatures⟩ := hcheck
  obtain ⟨features, hfeatures⟩ := Option.isSome_iff_exists.mp hfeatures
  exact ⟨sys, features, hrun, hlength, hfeatures,
    features_show_book _ 1 4 16 oneTicker inOrderRun hrun 0 7 features hfeatures⟩

end TradingSystem

end AlphaTrader
