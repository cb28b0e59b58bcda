import AlphaTrader.Proof.BookMode
import AlphaTrader.Proof.EngineSlots
import AlphaTrader.Proof.FeatureArithmetic

/-!
# What the engine sends

The engine hands each update to a book, refreshes the features of every slot from that book, and lets
the liquidity taker of the slot look at the two. The features are those of the book at that moment, so
what is sent can be read off the book alone: a quote, an imbalance and a threshold.
-/

namespace AlphaTrader

/-! ### One evaluation -/

/-- The order manager hands back how many requests it has put on the queue. -/
def Slot.Pushes {cap : Capacity} (om : Slot cap) (P : OrderRequest → Prop) (result : Nat × Slot cap) :
    Prop :=
  ∃ sent : List OrderRequest, result.1 = sent.length ∧ result.2.outgoing = om.outgoing ++ sent
    ∧ result.2.slot = om.slot ∧ ∀ request ∈ sent, P request

theorem Slot.pushes_nothing {cap : Capacity} (om : Slot cap) (P : OrderRequest → Prop) :
    om.Pushes P (0, om) :=
  ⟨[], rfl, (List.append_nil _).symm, rfl, nofun⟩

theorem Slot.pushes_sendNewOrder {cap : Capacity} (om : Slot cap) {P : OrderRequest → Prop}
    (request : OrderRequest) (position : Position) (room : Bool) (hP : P (om.submission request)) :
    om.Pushes P (if (om.sendNewOrder request position room).1 then 1 else 0,
      (om.sendNewOrder request position room).2) := by
  rcases sendNewOrder_cases (s := om) request position room with
    ⟨hrefused, huntouched⟩ | ⟨limits, before, evicted, after, -, -, -, hsent⟩
  · rw [hrefused, huntouched.rest]
    exact ⟨[], rfl, (List.append_nil _).symm, rfl, nofun⟩
  · rw [hsent]
    refine ⟨[om.submission request], rfl, rfl, rfl, fun sent hmem => ?_⟩
    rw [List.mem_singleton.mp hmem]
    exact hP

/-- The request is one that the strategy makes from the book. -/
structure LiquidityTaker.Warrants {π : Type} (taker : LiquidityTaker) (book : MarketOrderBook π)
    (request : OrderRequest) : Prop where
  type : request.type = .new
  ioc : request.ioc = true
  qty : request.qty = taker.orderQty
  quoted : book.bbo.bidPrice ≠ priceInvalid ∧ book.bbo.askPrice ≠ priceInvalid
  signal : match request.side with
    | .buy => request.price = book.bbo.askPrice
        ∧ taker.entryImbalance.toInt ≤ book.bbo.exactImbalance
    | .sell => request.price = book.bbo.bidPrice
        ∧ book.bbo.exactImbalance ≤ -taker.entryImbalance.toInt

namespace LiquidityTaker

variable {π : Type} {cap : Capacity} {taker : LiquidityTaker} {book : MarketOrderBook π}

/-- The negated threshold is looked at only where it can be negated. -/
theorem toInt_neg_entryImbalance {imbalance : Ratio} (hbelow : ¬ taker.entryImbalance ≤ imbalance) :
    (-taker.entryImbalance).toInt = -taker.entryImbalance.toInt := by
  rw [Int32.le_iff_toInt_le] at hbelow
  have hmin := imbalance.le_toInt
  have hmax := taker.entryImbalance.toInt_lt
  rw [Int32.toInt_neg]
  exact Int.bmod_eq_of_le (by omega) (by omega)

theorem warrants_of_signal {side : Side} {price : Price} (hvalid : book.bbo.imbalance ≠ ratioInvalid)
    (hsignal : taker.signal book.bbo.imbalance book.bbo = some (side, price)) {request : OrderRequest}
    (htype : request.type = .new) (hioc : request.ioc = true) (hqty : request.qty = taker.orderQty)
    (hside : request.side = side) (hprice : request.price = price) : taker.Warrants book request := by
  obtain ⟨hbid, hask, hexact⟩ := BBO.toInt_imbalance hvalid
  refine ⟨htype, hioc, hqty, ⟨hbid, hask⟩, ?_⟩
  unfold signal at hsignal
  split at hsignal
  case isTrue hbuy =>
      obtain ⟨rfl, rfl⟩ := Prod.mk.injEq .. ▸ Option.some.inj hsignal
      rw [hside]
      rw [Int32.le_iff_toInt_le, hexact] at hbuy
      exact ⟨hprice, hbuy⟩
  case isFalse hnot =>
      split at hsignal
      case isFalse => cases hsignal
      case isTrue hsell =>
          obtain ⟨rfl, rfl⟩ := Prod.mk.injEq .. ▸ Option.some.inj hsignal
          rw [hside]
          rw [Int32.le_iff_toInt_le, toInt_neg_entryImbalance hnot, hexact] at hsell
          exact ⟨hprice, hsell⟩

/-- An evaluation sends nothing, or one request that the book warrants. -/
theorem evaluate_spec (hasRoom : List OrderRequest → Bool) (taker : LiquidityTaker)
    (entry : Entry TradingFeatures) (book : MarketOrderBook π) (om : Slot cap)
    (hfeatures : entry.features.imbalance = book.bbo.imbalance) :
    om.Pushes (fun request => request.tickerId = entry.tickerId
        ∧ (∃ counter, request.clientOrderId = OrderIdAllocator.makeId om.slot counter)
        ∧ taker.Warrants book request)
      (taker.evaluate hasRoom entry book om) := by
  unfold evaluate
  rw [hfeatures]
  dsimp only
  split
  case isTrue => exact om.pushes_nothing _
  case isFalse hvalid =>
      split
      case h_1 => exact om.pushes_nothing _
      case h_2 side price hsignal =>
          split
          case h_1 => exact om.pushes_nothing _
          case h_2 position hposition =>
              split
              case isTrue => exact om.pushes_nothing _
              case isFalse =>
                  apply om.pushes_sendNewOrder
                  exact ⟨rfl, ⟨om.allocator.counter, rfl⟩,
                    warrants_of_signal (not_or.mp hvalid).1 hsignal rfl rfl rfl rfl rfl⟩

end LiquidityTaker

/-! ### One slot -/

namespace TradeEngine

variable {π : Type} {cap : Capacity}

/-- What a slot is set up with: its strategy, its number and its tickers. -/
structure Profile where
  taker : LiquidityTaker
  number : Nat
  tickers : List TickerId

def profile {F : Type} (slot : EngineSlot LiquidityTaker F cap) : Profile :=
  ⟨slot.strategy, slot.om.slot, slot.entries.map Entry.tickerId⟩

def profiles {F : Type} (engine : TradeEngine LiquidityTaker F π cap) : List Profile :=
  engine.slots.map profile

variable {engine engine' engine'' : TradeEngine LiquidityTaker TradingFeatures π cap}
  {P Q : OrderRequest → Prop}

/-- The engine has put requests on the queue and counted them, and has kept the set-up of its slots. -/
structure Emits (P : OrderRequest → Prop)
    (engine engine' : TradeEngine LiquidityTaker TradingFeatures π cap) : Prop where
  sent : ∃ sent : List OrderRequest, engine'.orderRequests = engine.orderRequests ++ sent
    ∧ engine'.result.ordersSubmitted = engine.result.ordersSubmitted + sent.length
    ∧ ∀ request ∈ sent, P request
  profiles : engine'.profiles = engine.profiles

theorem Emits.refl (engine : TradeEngine LiquidityTaker TradingFeatures π cap) :
    Emits P engine engine :=
  ⟨⟨[], (List.append_nil _).symm, rfl, nofun⟩, rfl⟩

theorem Emits.mono (hemits : Emits P engine engine') (himp : ∀ request, P request → Q request) :
    Emits Q engine engine' := by
  obtain ⟨sent, hrequests, hcount, hsent⟩ := hemits.sent
  exact ⟨⟨sent, hrequests, hcount, fun request hmem => himp request (hsent request hmem)⟩, hemits.profiles⟩

theorem Emits.trans (hemits : Emits P engine engine') (hemits' : Emits P engine' engine'') :
    Emits P engine engine'' := by
  obtain ⟨sent, hrequests, hcount, hsent⟩ := hemits.sent
  obtain ⟨sent', hrequests', hcount', hsent'⟩ := hemits'.sent
  refine ⟨⟨sent ++ sent', ?_, ?_, ?_⟩, hemits'.profiles.trans hemits.profiles⟩
  · rw [hrequests', hrequests, List.append_assoc]
  · rw [hcount', hcount, List.length_append, Nat.add_assoc]
  · intro request hmem
    rcases List.mem_append.mp hmem with hleft | hright
    · exact hsent request hleft
    · exact hsent' request hright

/-- A slot that has the ticker sends the request from the ticker's book. -/
def Caused (profiles : List Profile) (ticker : TickerBook π) (request : OrderRequest) : Prop :=
  ticker.book.inSnapshot = false ∧ request.tickerId = ticker.tickerId
    ∧ ∃ profile ∈ profiles, ticker.tickerId ∈ profile.tickers
      ∧ (∃ counter, request.clientOrderId = OrderIdAllocator.makeId profile.number counter)
      ∧ profile.taker.Warrants ticker.book request

section Slots

variable {index place : Nat} {slot slot' : EngineSlot LiquidityTaker TradingFeatures cap}
  {ticker : TickerBook π} {entry : Entry TradingFeatures}

/-- A slot goes back with its set-up, and the engine counts what the slot has put on the queue. -/
theorem emits_handBack (hslot : engine.slots[index]? = some slot) (hprofile : profile slot' = profile slot)
    {count : Nat} {sent : List OrderRequest} (hcount : count = sent.length)
    (hrequests : slot'.om.outgoing = engine.orderRequests ++ sent) (hsent : ∀ request ∈ sent, P request) :
    Emits P engine { engine.handBack index slot' with
      result := { engine.result with ordersSubmitted := engine.result.ordersSubmitted + count } } := by
  exact ⟨⟨sent, hrequests, congrArg (engine.result.ordersSubmitted + ·) hcount, hsent⟩,
    Table.map_set_of_key_eq hslot hprofile⟩

/-- New features leave the entry with its ticker. -/
theorem profile_refreshed (hentry : findEntry slot ticker.tickerId = some (place, entry))
    (features : TradingFeatures) (om : Slot cap) (hnumber : om.slot = slot.om.slot) :
    profile { slot with entries := slot.entries.set place { entry with features := features }, om := om } =
      profile slot := by
  obtain ⟨before, after, hentries, rfl, -, -⟩ := Table.exists_split_of_find hentry
  simp only [profile, hnumber, hentries, Table.set_split, List.map_append, List.map_cons]

theorem mem_tickers_of_findEntry (hentry : findEntry slot ticker.tickerId = some (place, entry)) :
    entry.tickerId = ticker.tickerId ∧ ticker.tickerId ∈ (profile slot).tickers := by
  obtain ⟨before, after, hentries, -, hticker, -⟩ := Table.exists_split_of_find hentry
  refine ⟨hticker, ?_⟩
  simp [profile, hentries, hticker]

/-- The strategy of a slot looks at the book and at features that are up to date with it. -/
theorem emits_evaluate (hslot : engine.slots[index]? = some slot)
    (hentry : findEntry slot ticker.tickerId = some (place, entry))
    (hopen : ticker.book.inSnapshot = false) (features : TradingFeatures)
    (hfeatures : features.imbalance = ticker.book.bbo.imbalance) (hasRoom : List OrderRequest → Bool)
    (om : Slot cap) (hrequests : om.outgoing = engine.orderRequests) (hnumber : om.slot = slot.om.slot) :
    let evaluated := slot.strategy.evaluate hasRoom { entry with features := features } ticker.book om
    Emits (Caused engine.profiles ticker) engine
      { engine.handBack index { slot with
          entries := slot.entries.set place { entry with features := features }, om := evaluated.2 } with
        result := { engine.result with
          ordersSubmitted := engine.result.ordersSubmitted + evaluated.1 } } := by
  intro evaluated
  obtain ⟨sent, hcount, houtgoing, hslot', hsent⟩ :=
    slot.strategy.evaluate_spec hasRoom { entry with features := features } ticker.book om hfeatures
  obtain ⟨hticker, hregistered⟩ := mem_tickers_of_findEntry hentry
  refine emits_handBack hslot (profile_refreshed hentry features evaluated.2 (hslot'.trans hnumber)) hcount
    ?_ fun request hmem => ?_
  · rw [← hrequests]
    exact houtgoing
  · obtain ⟨hrequest, hid, hwarrants⟩ := hsent request hmem
    rw [hnumber] at hid
    exact ⟨hopen, hrequest.trans hticker, profile slot,
      List.mem_map_of_mem (List.mem_of_getElem? hslot), hregistered, hid, hwarrants⟩

theorem processSlotUpdate_spec (engine : TradeEngine LiquidityTaker TradingFeatures π cap) (index : Nat)
    (ticker : TickerBook π) (update : MarketUpdate) :
    (engine.processSlotUpdate index ticker update).tickers = engine.tickers
      ∧ Emits (Caused engine.profiles ticker) engine (engine.processSlotUpdate index ticker update) := by
  unfold processSlotUpdate
  split
  case h_1 => exact ⟨rfl, .refl engine⟩
  case h_2 slot hslot =>
      split
      case h_1 => exact ⟨rfl, .refl engine⟩
      case h_2 place entry hentry =>
          dsimp only
          split
          case isTrue =>
              refine ⟨rfl, emits_handBack hslot ?_ List.length_nil.symm (List.append_nil _).symm nofun⟩
              exact profile_refreshed hentry _ _ rfl
          case isFalse hopen =>
              -- the two hooks of the strategy do the same
              have hemits := emits_evaluate hslot hentry (Bool.not_eq_true _ ▸ hopen)
                (FeatureEngine.onMarketUpdate entry.features update ticker.book) rfl
              split <;> exact ⟨rfl, hemits _ _ rfl rfl⟩

end Slots

/-! ### One update -/

section Updates

variable {update : MarketUpdate} {place : Nat}

theorem foldl_processSlotUpdate (engine : TradeEngine LiquidityTaker TradingFeatures π cap)
    (indices : List Nat) (ticker : TickerBook π) (update : MarketUpdate) :
    (indices.foldl (fun engine index => engine.processSlotUpdate index ticker update) engine).tickers =
        engine.tickers
      ∧ Emits (Caused engine.profiles ticker) engine
        (indices.foldl (fun engine index => engine.processSlotUpdate index ticker update) engine) := by
  induction indices generalizing engine with
  | nil => exact ⟨rfl, .refl engine⟩
  | cons index indices ih =>
      obtain ⟨htickers, hemits⟩ := engine.processSlotUpdate_spec index ticker update
      obtain ⟨htickers', hemits'⟩ := ih (engine.processSlotUpdate index ticker update)
      rw [hemits.profiles] at hemits'
      exact ⟨htickers'.trans htickers, hemits.trans hemits'⟩

variable [ObjectPool π]

theorem processBookUpdate_spec (hprocess : engine.processBookUpdate update place = some engine') :
    ∃ ticker book', engine.tickers[place]? = some ticker
      ∧ ticker.book.applyUpdate ticker.book.trackedOrders update = some book'
      ∧ engine'.tickers = engine.tickers.set place { ticker with book := book' }
      ∧ Emits (Caused engine.profiles { ticker with book := book' }) engine engine' := by
  obtain ⟨ticker, hticker, hprocess⟩ := Option.bind_eq_some_iff.mp hprocess
  obtain ⟨book', hbook, hprocess⟩ := Option.bind_eq_some_iff.mp hprocess
  obtain rfl := Option.some.inj hprocess
  obtain ⟨htickers, hsent, hprofiles⟩ := foldl_processSlotUpdate
    { engine with tickers := engine.tickers.set place { ticker with book := book' } }
    (List.range engine.slots.length) { ticker with book := book' } update
  exact ⟨ticker, book', hticker, hbook, htickers, hsent, hprofiles⟩

/-- The books at the places have got the update, and the requests sent come from them. -/
structure Updated (update : MarketUpdate) (places : List Nat)
    (engine engine' : TradeEngine LiquidityTaker TradingFeatures π cap) : Prop where
  others : ∀ place ∉ places, engine'.tickers[place]? = engine.tickers[place]?
  updated : ∀ place ∈ places, ∃ ticker book', engine.tickers[place]? = some ticker
    ∧ ticker.book.applyUpdate ticker.book.trackedOrders update = some book'
    ∧ engine'.tickers[place]? = some { ticker with book := book' }
  books : engine'.bookTickers = engine.bookTickers
  emits : Emits (fun request => ∃ ticker ∈ engine'.tickers, Caused engine.profiles ticker request)
    engine engine'

theorem foldlM_processBookUpdate {places : List Nat} (hnodup : places.Nodup)
    (hfold : places.foldlM (fun engine => engine.processBookUpdate update) engine = some engine') :
    Updated update places engine engine' := by
  induction places generalizing engine with
  | nil =>
      obtain rfl := Option.some.inj hfold
      exact ⟨fun _ _ => rfl, nofun, rfl, .refl engine⟩
  | cons place places ih =>
      obtain ⟨hnotMem, hrest⟩ := List.nodup_cons.mp hnodup
      rw [List.foldlM_cons] at hfold
      obtain ⟨middle, hprocess, hfold⟩ := Option.bind_eq_some_iff.mp hfold
      obtain ⟨ticker, book', hticker, hbook, htickers, hemits⟩ := processBookUpdate_spec hprocess
      have hlater := ih hrest hfold
      have hlt : place < engine.tickers.length := (List.getElem?_eq_some_iff.mp hticker).1
      have hself : engine'.tickers[place]? = some { ticker with book := book' } := by
        rw [hlater.others place hnotMem, htickers]
        exact List.getElem?_set_self hlt
      have hother : ∀ other, other ≠ place → middle.tickers[other]? = engine.tickers[other]? := by
        intro other hne
        rw [htickers]
        exact List.getElem?_set_ne (Ne.symm hne)
      refine ⟨fun other hmem => ?_, fun other hmem => ?_, hlater.books.trans ?_, ?_⟩
      · obtain ⟨hne, hnot⟩ := not_or.mp (mt List.mem_cons.mpr hmem)
        rw [hlater.others other hnot, hother other hne]
      · rcases List.mem_cons.mp hmem with rfl | hmem
        · exact ⟨ticker, book', hticker, hbook, hself⟩
        · have hne : other ≠ place := fun heq => hnotMem (heq ▸ hmem)
          obtain ⟨ticker', after, hfound, happly, hafter⟩ := hlater.updated other hmem
          exact ⟨ticker', after, (hother other hne).symm.trans hfound, happly, hafter⟩
      · rw [bookTickers, htickers]
        exact Table.map_set_of_key_eq hticker rfl
      · have hlaterEmits := hlater.emits
        rw [hemits.profiles] at hlaterEmits
        refine Emits.trans (hemits.mono fun request hcaused => ?_) hlaterEmits
        exact ⟨_, List.mem_of_getElem? hself, hcaused⟩

/-- The books that an update goes to: all of them for a marker, else the one of the ticker. -/
def places (engine : TradeEngine LiquidityTaker TradingFeatures π cap) (update : MarketUpdate) :
    List Nat :=
  if isMarker update.type then List.range engine.tickers.length
  else ((engine.findTicker update.tickerId).map Prod.fst).toList

/-- **An update** goes to its books, and the requests sent come from them. -/
theorem processUpdate_spec (hprocess : engine.processUpdate update = some engine') :
    Updated update (engine.places update) engine engine' := by
  have hfold : (engine.places update).foldlM (fun engine => engine.processBookUpdate update)
      { engine with result := { engine.result with
        marketUpdates := engine.result.marketUpdates + 1 } } = some engine' := by
    unfold processUpdate at hprocess
    rw [places]
    by_cases hmarker : isMarker update.type
    · rw [if_pos hmarker] at hprocess ⊢
      exact hprocess
    · rw [if_neg hmarker] at hprocess ⊢
      cases hfind : engine.findTicker update.tickerId with
      | none =>
          simp only [findTicker] at hfind
          simp only [findTicker, hfind] at hprocess
          exact hprocess
      | some found =>
          simp only [findTicker] at hfind
          simp only [findTicker, hfind] at hprocess
          simpa using hprocess
  have hnodup : (engine.places update).Nodup := by
    rw [places]
    split
    · exact List.nodup_range
    · cases (engine.findTicker update.tickerId).map Prod.fst with
      | none => exact List.nodup_nil
      | some place => exact List.nodup_singleton place
  have hupdated := foldlM_processBookUpdate hnodup hfold
  exact ⟨hupdated.others, hupdated.updated, hupdated.books, hupdated.emits.sent, hupdated.emits.profiles⟩

end Updates

/-! ### Responses -/

theorem processResponse_kept (engine : TradeEngine LiquidityTaker TradingFeatures π cap)
    (response : OrderResponse) :
    (engine.processResponse response).tickers = engine.tickers
      ∧ (engine.processResponse response).profiles = engine.profiles
      ∧ (engine.processResponse response).result.ordersSubmitted = engine.result.ordersSubmitted := by
  unfold processResponse
  dsimp only
  split
  case h_1 => exact ⟨rfl, rfl, rfl⟩
  case h_2 slot hslot =>
      refine ⟨rfl, Table.map_set_of_key_eq hslot ?_, ?_⟩
      · have hnumber := (Slot.effect_onOrderResponse (s := engine.manager slot) response).slot_eq
        simp only [profile, hnumber]
        rfl
      · dsimp only
        split <;> rfl

theorem setRisk_kept (engine : TradeEngine LiquidityTaker TradingFeatures π cap) (index : Nat)
    (f : RiskManager cap → RiskManager cap) :
    (engine.setRisk index f).profiles = engine.profiles
      ∧ (engine.setRisk index f).tickers = engine.tickers
      ∧ (engine.setRisk index f).orderRequests = engine.orderRequests
      ∧ (engine.setRisk index f).result = engine.result := by
  unfold setRisk
  split
  case h_1 => exact ⟨rfl, rfl, rfl, rfl⟩
  case h_2 slot hslot => exact ⟨Table.map_set_of_key_eq hslot rfl, rfl, rfl, rfl⟩

/-- The numbers that the order managers of the slots put into ids. -/
def numbers {F : Type} (engine : TradeEngine LiquidityTaker F π cap) : List Nat :=
  engine.slots.map fun slot => slot.om.slot

theorem map_number_profiles : engine.profiles.map Profile.number = engine.numbers := by
  rw [profiles, List.map_map]
  rfl

end TradeEngine

/-! ### Runs -/

/-- The engine with what has been fed to it: the updates processed, and the number of requests put on
the queue since `runOnce` was called. -/
structure Session (π : Type) (cap : Capacity) where
  engine : TradeEngine LiquidityTaker TradingFeatures π cap
  processed : List MarketUpdate := []
  pushed : Nat := 0

namespace Session

open TradeEngine (Action)

variable {π : Type} {cap : Capacity} [ObjectPool π] {session session' : Session π cap}

/-- An engine that has just been prepared. -/
def start (taker : LiquidityTaker) (slotCount maxSlots requestCapacity : Nat)
    (preparations : List (TradeEngine.Preparation LiquidityTaker)) : Session π cap where
  engine := TradeEngine.prepared taker slotCount maxSlots requestCapacity preparations

def step (session : Session π cap) (action : Action) : Option (Session π cap) := do
  let engine ← session.engine.act action
  return match action with
    | .runOnce => { session with engine := engine, pushed := 0 }
    | .update update => {
        engine := engine
        processed := session.processed ++ [update]
        pushed := session.pushed
          + (engine.orderRequests.length - session.engine.orderRequests.length) }
    | .response _ | .takeRequest | .disableTrading _ | .enableTrading _ => { session with engine := engine }

theorem engine_step (session : Session π cap) (action : Action) :
    (session.step action).map engine = session.engine.act action := by
  cases hact : session.engine.act action with
  | none => simp [step, hact]
  | some engine => cases action <;> simp [step, hact]

theorem engine_foldlM_step (session : Session π cap) (actions : List Action) :
    (actions.foldlM step session).map engine = actions.foldlM TradeEngine.act session.engine := by
  induction actions generalizing session with
  | nil => rfl
  | cons action actions ih =>
      rw [List.foldlM_cons, List.foldlM_cons, ← engine_step]
      cases session.step action with
      | none => rfl
      | some middle => exact ih middle

/-- **`runOnce`** is made of these actions. -/
theorem engine_runOnce (session : Session π cap) (responses : List OrderResponse)
    (updates : List MarketUpdate) :
    ((Action.runOnce :: (responses.map Action.response ++ updates.map Action.update)).foldlM step
        session).map engine =
      session.engine.runOnce responses updates := by
  have hresponses : ∀ engine : TradeEngine LiquidityTaker TradingFeatures π cap,
      responses.foldlM (fun engine response => engine.act (.response response)) engine =
        some (engine.drainResponses responses) := fun _ => List.foldlM_pure
  rw [engine_foldlM_step, List.foldlM_cons, TradeEngine.act, Option.bind_eq_bind, Option.bind_some,
    List.foldlM_append, List.foldlM_map, hresponses, Option.bind_eq_bind, Option.bind_some, List.foldlM_map]
  rfl

/-- The last of the markers that begin and end a snapshot. -/
def lastMarker (processed : List MarketUpdate) : Option MarketUpdate :=
  (processed.filter fun update =>
    update.type = .snapshotStart ∨ update.type = .snapshotEnd).getLast?

/-- The flag of a book that has seen the updates from the start. -/
def inSnapshot (processed : List MarketUpdate) : Bool :=
  (lastMarker processed).any fun marker => marker.type = .snapshotStart

theorem inSnapshot_concat (processed : List MarketUpdate) (update : MarketUpdate) :
    inSnapshot (processed ++ [update]) =
      MarketOrderBook.flagAfter update.type (inSnapshot processed) := by
  simp only [inSnapshot, lastMarker, List.filter_append]
  cases htype : update.type <;> simp [htype, MarketOrderBook.flagAfter]

/-- What is behind a request: the book of its ticker, outside a snapshot and with its top up to date,
and a slot that has the ticker and whose strategy makes the request from the book. -/
structure Justified (session : Session π cap) (request : OrderRequest) (ticker : TickerBook π)
    (profile : TradeEngine.Profile) : Prop where
  book : Table.lookup TickerBook.tickerId session.engine.tickers request.tickerId = some ticker
  topped : ticker.book.Topped
  outside : ticker.book.inSnapshot = false
  ended : ∀ marker, lastMarker session.processed = some marker → marker.type = .snapshotEnd
  slot : session.engine.profiles[profile.number]? = some profile
  registered : request.tickerId ∈ profile.tickers
  id : ∃ counter, request.clientOrderId = OrderIdAllocator.makeId profile.number counter
  warranted : profile.taker.Warrants ticker.book request

/-- Only an update puts requests on the queue, and all of them are justified. -/
def Queues (session : Session π cap) (action : Action) (session' : Session π cap) : Prop :=
  match action with
  | .runOnce | .response _ | .disableTrading _ | .enableTrading _ =>
      session'.engine.orderRequests = session.engine.orderRequests
  | .takeRequest => session'.engine.orderRequests = session.engine.orderRequests.tail
  | .update _ => ∃ sent, session'.engine.orderRequests = session.engine.orderRequests ++ sent
      ∧ ∀ request ∈ sent, ∃ ticker profile, session'.Justified request ticker profile

/-- What is put on the queue is justified, and the engine has counted what was put there since `runOnce`
was called. -/
def Sends (session : Session π cap) (action : Action) : Prop :=
  ∀ session', session.step action = some session' →
    session.Queues action session' ∧ session'.engine.result.ordersSubmitted = session'.pushed

structure Regular (session : Session π cap) : Prop where
  books : session.engine.bookTickers.Nodup
  modes : ∀ ticker ∈ session.engine.tickers,
    ticker.book.Topped ∧ ticker.book.inSnapshot = inSnapshot session.processed
  numbers : ∀ index number : Nat, session.engine.numbers[index]? = some number → number = index
  counted : session.engine.result.ordersSubmitted = session.pushed

theorem regular_start (taker : LiquidityTaker) (slotCount maxSlots requestCapacity : Nat)
    (preparations : List (TradeEngine.Preparation LiquidityTaker)) :
    (start taker slotCount maxSlots requestCapacity preparations : Session π cap).Regular := by
  have hnew : (TradeEngine.prepared taker slotCount maxSlots requestCapacity preparations :
    TradeEngine LiquidityTaker TradingFeatures π cap).NewBooks := TradeEngine.newBooks_prepared ..
  have hunused : (TradeEngine.prepared taker slotCount maxSlots requestCapacity preparations :
    TradeEngine LiquidityTaker TradingFeatures π cap).Unused := TradeEngine.unused_prepared ..
  refine ⟨hnew.books, fun ticker hmem => ?_, fun index number hnumber => ?_,
    congrArg StrategyRunResult.ordersSubmitted hunused.result⟩
  · rw [hnew.book ticker hmem]
    exact ⟨rfl, rfl⟩
  · obtain ⟨slot, hslot, rfl⟩ := Option.map_eq_some_iff.mp (List.getElem?_map .. ▸ hnumber)
    exact (hunused.slots index slot hslot).2

theorem type_of_lastMarker {processed : List MarketUpdate} {marker : MarketUpdate}
    (houtside : inSnapshot processed = false) (hlast : lastMarker processed = some marker) :
    marker.type = .snapshotEnd := by
  have hmem := List.mem_of_getLast? hlast
  simp only [List.mem_filter, decide_eq_true_eq] at hmem
  refine hmem.2.resolve_left fun hstart => ?_
  simp [inSnapshot, hlast, hstart] at houtside

theorem flagAfter_of_not_marker {type : UpdateType} (hmarker : ¬ TradeEngine.isMarker type)
    (flag : Bool) : MarketOrderBook.flagAfter type flag = flag := by
  cases type <;> simp_all [TradeEngine.isMarker, MarketOrderBook.flagAfter]

section Update

variable {update : MarketUpdate} {engine' : TradeEngine LiquidityTaker TradingFeatures π cap}

/-- Every book has the flag of the updates processed, whether the update went to it or not. -/
theorem Regular.modes_update (hregular : session.Regular)
    (hupdated : TradeEngine.Updated update (session.engine.places update) session.engine engine') :
    ∀ ticker ∈ engine'.tickers, ticker.book.Topped
      ∧ ticker.book.inSnapshot = inSnapshot (session.processed ++ [update]) := by
  intro ticker hmem
  rw [inSnapshot_concat]
  obtain ⟨place, hplace⟩ := List.mem_iff_getElem?.mp hmem
  by_cases hgot : place ∈ session.engine.places update
  · obtain ⟨before, book', hbefore, happly, hafter⟩ := hupdated.updated place hgot
    obtain rfl := Option.some.inj (hplace.symm.trans hafter)
    obtain ⟨htopped, hflag⟩ := hregular.modes before (List.mem_of_getElem? hbefore)
    obtain ⟨hflag', htopped'⟩ := MarketOrderBook.applyUpdate_spec htopped happly
    rw [hflag] at hflag'
    exact ⟨htopped', hflag'⟩
  · have hbefore := (hupdated.others place hgot).symm.trans hplace
    have hmarker : ¬ TradeEngine.isMarker update.type := by
      intro hmarker
      rw [TradeEngine.places, if_pos hmarker, List.mem_range] at hgot
      exact hgot (List.getElem?_eq_some_iff.mp hbefore).1
    rw [flagAfter_of_not_marker hmarker]
    exact hregular.modes ticker (List.mem_of_getElem? hbefore)

omit [ObjectPool π] in
theorem Regular.exists_justified (hregular : session'.Regular) {request : OrderRequest}
    {ticker : TickerBook π} (hmem : ticker ∈ session'.engine.tickers)
    (hcaused : TradeEngine.Caused session'.engine.profiles ticker request) :
    ∃ profile, session'.Justified request ticker profile := by
  obtain ⟨houtside, hticker, profile, hprofile, hregistered, hid, hwarrants⟩ := hcaused
  obtain ⟨htopped, hflag⟩ := hregular.modes ticker hmem
  obtain ⟨index, hindex⟩ := List.mem_iff_getElem?.mp hprofile
  have hnumber : profile.number = index := by
    apply hregular.numbers
    rw [← TradeEngine.map_number_profiles, List.getElem?_map, hindex]
    rfl
  exact ⟨profile,
    { book := (Table.lookup_eq_some_iff hregular.books).mpr ⟨hmem, hticker.symm⟩
      topped := htopped
      outside := houtside
      ended := fun marker => type_of_lastMarker (hflag.symm.trans houtside)
      slot := hnumber ▸ hindex
      registered := hticker ▸ hregistered
      id := hid
      warranted := hwarrants }⟩

theorem regular_update (hregular : session.Regular) (hstep : session.step (.update update) = some session') :
    session'.Regular ∧ session.Queues (.update update) session' := by
  obtain ⟨engine', hprocess, hsession⟩ := Option.bind_eq_some_iff.mp hstep
  obtain rfl := Option.some.inj hsession
  have hupdated := TradeEngine.processUpdate_spec hprocess
  obtain ⟨⟨sent, hrequests, hcount, hsent⟩, hprofiles⟩ := hupdated.emits
  have hregular' : Regular {
      engine := engine'
      processed := session.processed ++ [update]
      pushed := session.pushed
        + (engine'.orderRequests.length - session.engine.orderRequests.length) } := by
    refine ⟨?_, hregular.modes_update hupdated, ?_, ?_⟩
    · rw [hupdated.books]
      exact hregular.books
    · rw [← TradeEngine.map_number_profiles, hprofiles, TradeEngine.map_number_profiles]
      exact hregular.numbers
    · rw [hcount, hrequests, hregular.counted, List.length_append, Nat.add_sub_cancel_left]
  refine ⟨hregular', sent, hrequests, fun request hmem => ?_⟩
  obtain ⟨ticker, hticker, hcaused⟩ := hsent request hmem
  rw [← hprofiles] at hcaused
  exact ⟨ticker, hregular'.exists_justified hticker hcaused⟩

end Update

omit [ObjectPool π] in
/-- A step that writes no book and sends nothing. -/
theorem Regular.of_kept (hregular : session.Regular)
    {engine' : TradeEngine LiquidityTaker TradingFeatures π cap}
    (htickers : engine'.tickers = session.engine.tickers)
    (hprofiles : engine'.profiles = session.engine.profiles)
    (hcount : engine'.result.ordersSubmitted = session.engine.result.ordersSubmitted) :
    Regular { session with engine := engine' } := by
  refine ⟨?_, ?_, ?_, hcount.trans hregular.counted⟩
  · rw [TradeEngine.bookTickers, htickers]
    exact hregular.books
  · rw [htickers]
    exact hregular.modes
  · rw [← TradeEngine.map_number_profiles, hprofiles, TradeEngine.map_number_profiles]
    exact hregular.numbers

omit [ObjectPool π] in
theorem regular_setRisk (hregular : session.Regular) (index : Nat)
    (f : RiskManager cap → RiskManager cap) :
    Regular { session with engine := session.engine.setRisk index f }
      ∧ (session.engine.setRisk index f).orderRequests = session.engine.orderRequests := by
  obtain ⟨hprofiles, htickers, hrequests, hresult⟩ := session.engine.setRisk_kept index f
  exact ⟨hregular.of_kept htickers hprofiles (congrArg StrategyRunResult.ordersSubmitted hresult),
    hrequests⟩

theorem regular_step (hregular : session.Regular) {action : Action}
    (hstep : session.step action = some session') :
    session'.Regular ∧ session.Queues action session' := by
  cases action with
  | runOnce =>
      obtain rfl := Option.some.inj hstep
      exact ⟨⟨hregular.books, hregular.modes, hregular.numbers, rfl⟩, rfl⟩
  | response response =>
      obtain rfl := Option.some.inj hstep
      obtain ⟨htickers, hprofiles, hcount⟩ := session.engine.processResponse_kept response
      exact ⟨hregular.of_kept htickers hprofiles hcount,
        (session.engine.processResponse_shared response).2⟩
  | update update => exact regular_update hregular hstep
  | takeRequest =>
      obtain rfl := Option.some.inj hstep
      exact ⟨hregular.of_kept rfl rfl rfl, rfl⟩
  | disableTrading index =>
      obtain rfl := Option.some.inj hstep
      exact regular_setRisk hregular index RiskManager.disableTrading
  | enableTrading index =>
      obtain rfl := Option.some.inj hstep
      exact regular_setRisk hregular index RiskManager.enableTrading

/-- **What the engine sends.** However the engine has been prepared, every request that it puts on the queue
is justified when it does, and it counts the requests. -/
theorem sends_along (taker : LiquidityTaker) (slotCount maxSlots requestCapacity : Nat)
    (preparations : List (TradeEngine.Preparation LiquidityTaker)) (actions : List Action) :
    Run.Along step Sends
      (start taker slotCount maxSlots requestCapacity preparations : Session π cap) actions := by
  refine Run.Along.of_invariant Regular (P := fun _ _ => True) (fun _ _ _ hregular _ hstep =>
    (regular_step hregular hstep).1) (fun session action hregular _ session' hstep => ?_)
    (regular_start taker slotCount maxSlots requestCapacity preparations)
    (Run.Along.of_forall_mem (fun _ _ _ => trivial) _)
  obtain ⟨hregular', hqueues⟩ := regular_step hregular hstep
  exact ⟨hqueues, hregular'.counted⟩

-- nine bid against one offered, above a threshold of 300000: the offer is bought
example :
    ([Action.runOnce,
        .update { tickerId := 7, orderRef := 1, side := .buy, price := 100, qty := 9 },
        .update { tickerId := 7, orderRef := 2, side := .sell, price := 101, qty := 1 }].foldlM step
      (start { orderQty := 10, entryImbalance := 300000 } 1 4 16
        [.registerTicker 0 7 ⟨100, 10, 100000⟩] : Session FreeListPool ⟨16, 64, 256⟩)).any
      (fun session => session.pushed = 1
        ∧ session.engine.orderRequests = [⟨.new, 1, 0, 7, .buy, 101, 10, true⟩]) = true := by
  decide +kernel

end Session

end AlphaTrader
