import AlphaTrader.Proof.BookRefinement
import AlphaTrader.Proof.EngineSetup

/-!
# The books of the engine

Slots share the books, markers go to all of them, and between two updates responses are processed and
orders are sent. For one ticker of one slot none of that matters: its book and its features are those of
a follower that gets the same updates and does nothing else.
-/

namespace AlphaTrader

/-! ### Followers -/

/-- The updates that reach the book of a ticker. -/
def MarketUpdate.Reaches (update : MarketUpdate) (ticker : TickerId) : Prop :=
  TradeEngine.isMarker update.type ∨ update.tickerId = ticker

instance (update : MarketUpdate) (ticker : TickerId) : Decidable (update.Reaches ticker) :=
  inferInstanceAs (Decidable (_ ∨ _))

/-- A book on its own. -/
def MarketOrderBook.receive {π : Type} [ObjectPool π] (ticker : TickerId) (book : MarketOrderBook π)
    (update : MarketUpdate) : Option (MarketOrderBook π) :=
  if update.Reaches ticker then book.applyUpdate book.trackedOrders update else some book

/-- A book and features that follow it, as a slot has them for one ticker. -/
structure Follower (F π : Type) where
  book : MarketOrderBook π
  features : F

namespace Follower

variable {F π : Type} [ObjectPool π] [FeatureEngine F]

def init (F π : Type) [ObjectPool π] [FeatureEngine F] (ticker : TickerId) : Follower F π :=
  ⟨MarketOrderBook.init π ticker, FeatureEngine.fresh⟩

def receive (ticker : TickerId) (follower : Follower F π) (update : MarketUpdate) :
    Option (Follower F π) :=
  (follower.book.receive ticker update).map fun book =>
    ⟨book, if update.Reaches ticker then FeatureEngine.onMarketUpdate follower.features update book
      else follower.features⟩

end Follower

namespace TradeEngine

variable {S F π : Type} {cap : Capacity} {engine engine' : TradeEngine S F π cap}
  {update : MarketUpdate} {ticker : TickerId} {index place : Nat}

theorem book_eq_lookup (engine : TradeEngine S F π cap) (ticker : TickerId) :
    engine.book ticker = (Table.lookup TickerBook.tickerId engine.tickers ticker).map TickerBook.book := by
  rw [book, findTicker, Table.lookup, Option.map_map]
  rfl

theorem isSome_book_iff : (engine.book ticker).isSome ↔ ticker ∈ engine.bookTickers := by
  rw [book, Option.isSome_map, findTicker_isSome_iff]

/-- The entries of a slot. -/
def entries (engine : TradeEngine S F π cap) (index : Nat) : Option (List (Entry F)) :=
  engine.slots[index]?.map EngineSlot.entries

theorem features_eq_lookup (engine : TradeEngine S F π cap) (index : Nat) (ticker : TickerId) :
    engine.features index ticker = (engine.entries index).bind fun entries =>
      (Table.lookup Entry.tickerId entries ticker).map Entry.features := by
  simp only [features, entries, findEntry, Table.lookup, Option.bind_map, Option.map_map]
  rfl

theorem entries_set {slot slot' : EngineSlot S F cap} (hslot : engine.slots[index]? = some slot)
    (hentries : slot'.entries = slot.entries) (other : Nat) :
    (engine.slots.set index slot')[other]?.map EngineSlot.entries = engine.entries other := by
  by_cases hother : other = index
  · subst hother
    rw [List.getElem?_set_self (List.getElem?_eq_some_iff.mp hslot).1, entries, hslot]
    simp [hentries]
  · rw [List.getElem?_set_ne (Ne.symm hother), entries]

/-! ### One slot -/

section Slots

variable [FeatureEngine F]

/-- The entry of the ticker looks at the book after the update. -/
def refreshed (source : TickerBook π) (update : MarketUpdate) (entries : List (Entry F)) :
    List (Entry F) :=
  match Table.find Entry.tickerId source.tickerId entries with
  | none => entries
  | some (place, entry) => entries.set place { entry with
      features := FeatureEngine.onMarketUpdate entry.features update source.book }

theorem lookup_refreshed (source : TickerBook π) (update : MarketUpdate) (entries : List (Entry F))
    (ticker : TickerId) :
    (Table.lookup Entry.tickerId (refreshed source update entries) ticker).map Entry.features =
      ((Table.lookup Entry.tickerId entries ticker).map Entry.features).map fun features =>
        if ticker = source.tickerId then FeatureEngine.onMarketUpdate features update source.book
        else features := by
  unfold refreshed
  cases hfind : Table.find Entry.tickerId source.tickerId entries with
  | none =>
      by_cases hticker : ticker = source.tickerId
      · have hmissing : Table.lookup Entry.tickerId entries ticker = none := by
          rw [hticker, Table.lookup, hfind]
          rfl
        simp [hmissing]
      · simp [hticker, Function.comp_def]
  | some found =>
      obtain ⟨place, entry⟩ := found
      have hkey : entry.tickerId = source.tickerId := Table.key_of_find hfind
      dsimp only
      rw [Table.lookup_set_of_find hfind (y := { entry with
        features := FeatureEngine.onMarketUpdate entry.features update source.book }) hkey]
      by_cases hticker : ticker = source.tickerId
      · have hfound : Table.lookup Entry.tickerId entries ticker = some entry := by
          rw [hticker, Table.lookup, hfind]
          rfl
        simp [hticker ▸ hfound, hticker]
      · simp [hticker, Function.comp_def]

variable [Strategy S F cap]

/-- A slot update leaves the books, and only refreshes the entries of its slot. -/
theorem processSlotUpdate_entries (engine : TradeEngine S F π cap) (index : Nat)
    (source : TickerBook π) (update : MarketUpdate) :
    (engine.processSlotUpdate index source update).tickers = engine.tickers
      ∧ (engine.processSlotUpdate index source update).slots.length = engine.slots.length
      ∧ ∀ other, (engine.processSlotUpdate index source update).entries other =
        (engine.entries other).map fun entries =>
          if other = index then refreshed source update entries else entries := by
  have hset : ∀ slot slot', engine.slots[index]? = some slot →
      slot'.entries = refreshed source update slot.entries →
      ∀ other, (engine.slots.set index slot')[other]?.map EngineSlot.entries =
        (engine.entries other).map fun entries =>
          if other = index then refreshed source update entries else entries := by
    intro slot slot' hslot hentries other
    by_cases hother : other = index
    · subst hother
      rw [List.getElem?_set_self (List.getElem?_eq_some_iff.mp hslot).1, entries, hslot]
      simp [hentries]
    · rw [List.getElem?_set_ne (Ne.symm hother), entries]
      simp [hother, Function.comp_def]
  unfold processSlotUpdate
  cases hslot : engine.slots[index]? with
  | none =>
      refine ⟨rfl, rfl, fun other => ?_⟩
      by_cases hother : other = index
      · simp [entries, hother, hslot]
      · simp [hother]
  | some slot =>
      dsimp only
      cases hentry : findEntry slot source.tickerId with
      | none =>
          refine ⟨rfl, rfl, fun other => ?_⟩
          have hsame : refreshed source update slot.entries = slot.entries := by
            rw [refreshed, show Table.find Entry.tickerId source.tickerId slot.entries = none from hentry]
          by_cases hother : other = index
          · simp [entries, hother, hslot, hsame]
          · simp [hother]
      | some found =>
          obtain ⟨place, entry⟩ := found
          have hrefreshed : refreshed source update slot.entries = slot.entries.set place { entry with
              features := FeatureEngine.onMarketUpdate entry.features update source.book } := by
            rw [refreshed,
              show Table.find Entry.tickerId source.tickerId slot.entries = some (place, entry) from hentry]
          dsimp only
          split
          · exact ⟨rfl, List.length_set, hset slot _ hslot hrefreshed.symm⟩
          · exact ⟨rfl, List.length_set, hset slot _ hslot hrefreshed.symm⟩

theorem foldl_processSlotUpdate_entries (engine : TradeEngine S F π cap) {indices : List Nat}
    (hnodup : indices.Nodup) (source : TickerBook π) (update : MarketUpdate) :
    let engine' := indices.foldl (fun engine index => engine.processSlotUpdate index source update) engine
    engine'.tickers = engine.tickers ∧ engine'.slots.length = engine.slots.length
      ∧ ∀ other, engine'.entries other = (engine.entries other).map fun entries =>
        if other ∈ indices then refreshed source update entries else entries := by
  induction indices generalizing engine with
  | nil => simp
  | cons index indices ih =>
      obtain ⟨hnotMem, hrest⟩ := List.nodup_cons.mp hnodup
      obtain ⟨htickers, hlength, hentries⟩ := engine.processSlotUpdate_entries index source update
      obtain ⟨htickers', hlength', hentries'⟩ :=
        ih (engine.processSlotUpdate index source update) hrest
      refine ⟨htickers'.trans htickers, hlength'.trans hlength, fun other => ?_⟩
      rw [List.foldl_cons, hentries', hentries, Option.map_map]
      congr 1
      funext entries
      by_cases hother : other = index
      · simp [hother, hnotMem]
      · simp [hother]

end Slots

/-! ### One book -/

section Books

variable [ObjectPool π] [FeatureEngine F] [Strategy S F cap]

/-- The book at a place gets the update, and every slot refreshes what it has for its ticker. -/
theorem processBookUpdate_follows (hbooks : engine.bookTickers.Nodup)
    (hprocess : engine.processBookUpdate update place = some engine') :
    ∃ source book', engine.tickers[place]? = some source
      ∧ source.book.applyUpdate source.book.trackedOrders update = some book'
      ∧ engine'.bookTickers = engine.bookTickers
      ∧ (∀ ticker, engine'.book ticker = if ticker = source.tickerId then some book'
        else engine.book ticker)
      ∧ ∀ index ticker, engine'.features index ticker =
        (engine.features index ticker).map fun features =>
          if ticker = source.tickerId then FeatureEngine.onMarketUpdate features update book'
          else features := by
  obtain ⟨source, hsource, hprocess⟩ := Option.bind_eq_some_iff.mp hprocess
  obtain ⟨book', hbook, hprocess⟩ := Option.bind_eq_some_iff.mp hprocess
  obtain rfl := Option.some.inj hprocess
  obtain ⟨htickers, -, hentries⟩ := foldl_processSlotUpdate_entries
    { engine with tickers := engine.tickers.set place { source with book := book' } }
    (List.nodup_range (n := engine.slots.length)) { source with book := book' } update
  refine ⟨source, book', hsource, hbook, ?_, fun ticker => ?_, fun index ticker => ?_⟩
  · rw [bookTickers, htickers]
    exact Table.map_set_of_key_eq hsource rfl
  · obtain ⟨place', hfind⟩ := Table.find_of_mem hbooks (List.mem_of_getElem? hsource)
    obtain rfl : place' = place := Table.index_of_find hbooks hfind hsource
    have hlookup : Table.lookup TickerBook.tickerId
        (engine.tickers.set place' { source with book := book' }) ticker =
        if ticker = source.tickerId then some { source with book := book' }
        else Table.lookup TickerBook.tickerId engine.tickers ticker :=
      Table.lookup_set_of_find hfind (y := { source with book := book' }) rfl ticker
    rw [book_eq_lookup, htickers, hlookup, book_eq_lookup]
    split <;> rfl
  · rw [features_eq_lookup, hentries, features_eq_lookup, Option.bind_map, Option.map_bind]
    cases hindex : engine.entries index with
    | none =>
        simp only [entries] at hindex ⊢
        simp [hindex]
    | some entries =>
        have hlt : index < engine.slots.length := by
          obtain ⟨slot, hslot, -⟩ := Option.map_eq_some_iff.mp hindex
          exact (List.getElem?_eq_some_iff.mp hslot).1
        simp only [TradeEngine.entries] at hindex ⊢
        simp only [hindex, Option.bind_some, Function.comp_apply, List.mem_range, hlt, if_true]
        exact lookup_refreshed { source with book := book' } update entries ticker

theorem length_processBookUpdate (hprocess : engine.processBookUpdate update place = some engine') :
    engine'.slots.length = engine.slots.length := by
  obtain ⟨source, -, hprocess⟩ := Option.bind_eq_some_iff.mp hprocess
  obtain ⟨book', -, hprocess⟩ := Option.bind_eq_some_iff.mp hprocess
  obtain rfl := Option.some.inj hprocess
  exact (foldl_processSlotUpdate_entries _ List.nodup_range _ _).2.1

theorem length_processUpdate (hprocess : engine.processUpdate update = some engine') :
    engine'.slots.length = engine.slots.length := by
  unfold processUpdate at hprocess
  dsimp only at hprocess
  split at hprocess
  case isTrue =>
      have hkept : ∀ (middle : TradeEngine S F π cap) place later,
          middle.slots.length = engine.slots.length → True → middle.processBookUpdate update place = some later →
          later.slots.length = engine.slots.length :=
        fun middle place later hlength _ hstep => (length_processBookUpdate hstep).trans hlength
      refine Run.invariant hkept ?_ (Run.Along.of_forall_mem (fun _ _ _ => trivial) _) hprocess
      rfl
  case isFalse =>
      split at hprocess
      case h_1 =>
          obtain rfl := Option.some.inj hprocess
          rfl
      case h_2 =>
          have hlength := length_processBookUpdate hprocess
          exact hlength

/-- The books at the places get the update, one after the other. -/
theorem foldlM_processBookUpdate_follows {places : List Nat} (hnodup : places.Nodup)
    (hbooks : engine.bookTickers.Nodup)
    (hfold : places.foldlM (fun engine => engine.processBookUpdate update) engine = some engine') :
    engine'.bookTickers = engine.bookTickers
      ∧ ∀ ticker,
        ((∀ place ∈ places, engine.bookTickers[place]? ≠ some ticker) →
          engine'.book ticker = engine.book ticker
            ∧ ∀ index, engine'.features index ticker = engine.features index ticker)
        ∧ ((∃ place ∈ places, engine.bookTickers[place]? = some ticker) →
          ∃ book book', engine.book ticker = some book
            ∧ book.applyUpdate book.trackedOrders update = some book'
            ∧ engine'.book ticker = some book'
            ∧ ∀ index, engine'.features index ticker =
              (engine.features index ticker).map fun features =>
                FeatureEngine.onMarketUpdate features update book') := by
  induction places generalizing engine with
  | nil =>
      obtain rfl := Option.some.inj hfold
      exact ⟨rfl, fun ticker => ⟨fun _ => ⟨rfl, fun _ => rfl⟩, fun ⟨place, hmem, _⟩ => by cases hmem⟩⟩
  | cons place places ih =>
      obtain ⟨hnotMem, hrest⟩ := List.nodup_cons.mp hnodup
      rw [List.foldlM_cons] at hfold
      obtain ⟨middle, hprocess, hfold⟩ := Option.bind_eq_some_iff.mp hfold
      obtain ⟨source, book', hsource, happly, hkept, hbook, hfeatures⟩ :=
        processBookUpdate_follows hbooks hprocess
      obtain ⟨hkept', hlater⟩ := ih hrest (hkept ▸ hbooks) hfold
      rw [hkept] at hkept' hlater
      have hplace : engine.bookTickers[place]? = some source.tickerId := by
        rw [bookTickers, List.getElem?_map, hsource]
        rfl
      refine ⟨hkept', fun ticker => ?_⟩
      obtain ⟨hskipped, hreached⟩ := hlater ticker
      by_cases hticker : ticker = source.tickerId
      · -- the keys are distinct, so no later place has this ticker
        have hlast : ∀ later ∈ places, engine.bookTickers[later]? ≠ some ticker := by
          intro later hmem hagain
          obtain ⟨hlt, hat⟩ := List.getElem?_eq_some_iff.mp hplace
          obtain ⟨hlt', hat'⟩ := List.getElem?_eq_some_iff.mp hagain
          have hsame := hbooks.getElem_inj_iff.mp (hat.trans (hticker.symm.trans hat'.symm))
          exact hnotMem (hsame ▸ hmem)
        obtain ⟨hbookLast, hfeaturesLast⟩ := hskipped hlast
        refine ⟨fun hnone => absurd (hticker ▸ hplace) (hnone place (by simp)), fun _ => ?_⟩
        refine ⟨source.book, book', ?_, happly, ?_, fun index => ?_⟩
        · rw [book_eq_lookup, hticker,
            (Table.lookup_eq_some_iff hbooks).mpr ⟨List.mem_of_getElem? hsource, rfl⟩]
          rfl
        · rw [hbookLast, hbook, if_pos hticker]
        · rw [hfeaturesLast, hfeatures]
          simp only [hticker, if_true]
      · have hbookFirst : middle.book ticker = engine.book ticker := by
          rw [hbook, if_neg hticker]
        have hfeaturesFirst : ∀ index, middle.features index ticker = engine.features index ticker := by
          intro index
          rw [hfeatures]
          simp only [hticker, if_false, Option.map_id_fun']
          rfl
        constructor
        · intro hnone
          obtain ⟨hbookLater, hfeaturesLater⟩ := hskipped fun later hmem => hnone later (by simp [hmem])
          exact ⟨hbookLater.trans hbookFirst, fun index => (hfeaturesLater index).trans (hfeaturesFirst index)⟩
        · rintro ⟨place', hmem, hat⟩
          rcases List.mem_cons.mp hmem with rfl | hmem
          · exact absurd (Option.some.inj (hat.symm.trans hplace)) hticker
          · obtain ⟨before, after, hbefore, happly', hafter, hfeatures'⟩ := hreached ⟨place', hmem, hat⟩
            refine ⟨before, after, hbookFirst ▸ hbefore, happly', hafter, fun index => ?_⟩
            rw [hfeatures', hfeaturesFirst]

/-! ### One update -/

/-- **An update** does to each book, and to the features of each slot for it, what it does to a
follower. -/
theorem processUpdate_follows (hbooks : engine.bookTickers.Nodup)
    (hprocess : engine.processUpdate update = some engine') :
    engine'.bookTickers = engine.bookTickers
      ∧ (∀ ticker book, engine.book ticker = some book →
        ∃ book', book.receive ticker update = some book' ∧ engine'.book ticker = some book'
          ∧ ∀ index, engine'.features index ticker =
            (engine.features index ticker).map fun features =>
              if update.Reaches ticker then FeatureEngine.onMarketUpdate features update book'
              else features)
      ∧ ∀ ticker, engine.book ticker = none → engine'.book ticker = none
        ∧ ∀ index, engine'.features index ticker = engine.features index ticker := by
  have hplaces : ∃ places : List Nat, places.Nodup
      ∧ places.foldlM (fun engine => engine.processBookUpdate update) { engine with
        result := { engine.result with marketUpdates := engine.result.marketUpdates + 1 } } = some engine'
      ∧ ∀ ticker ∈ engine.bookTickers,
        (∃ place ∈ places, engine.bookTickers[place]? = some ticker) ↔ update.Reaches ticker := by
    unfold processUpdate at hprocess
    by_cases hmarker : isMarker update.type
    · rw [if_pos hmarker] at hprocess
      refine ⟨_, List.nodup_range, hprocess, fun ticker hmem => ?_⟩
      obtain ⟨place, hplace⟩ := List.mem_iff_getElem?.mp hmem
      have hlt : place < engine.tickers.length := by
        obtain ⟨hlt, -⟩ := List.getElem?_eq_some_iff.mp hplace
        simpa [bookTickers] using hlt
      exact iff_of_true ⟨place, List.mem_range.mpr hlt, hplace⟩ (Or.inl hmarker)
    · rw [if_neg hmarker] at hprocess
      cases hfind : engine.findTicker update.tickerId with
      | none =>
          simp only [findTicker] at hfind
          simp only [findTicker, hfind] at hprocess
          refine ⟨[], List.nodup_nil, hprocess, fun ticker hmem => iff_of_false (by simp) ?_⟩
          rintro (hreached | rfl)
          · exact hmarker hreached
          · obtain ⟨source, hsource, hticker⟩ := List.mem_map.mp hmem
            exact Table.find_eq_none_iff.mp hfind source hsource hticker
      | some found =>
          obtain ⟨place, source⟩ := found
          simp only [findTicker] at hfind
          simp only [findTicker, hfind] at hprocess
          refine ⟨[place], List.nodup_singleton place, by simpa using hprocess, fun ticker hmem => ?_⟩
          obtain ⟨before, after, hsplit, rfl, hkey, -⟩ := Table.exists_split_of_find hfind
          have hplace : engine.bookTickers[before.length]? = some update.tickerId := by
            simp [bookTickers, hsplit, hkey]
          simp only [List.mem_singleton, exists_eq_left, hplace, Option.some.injEq]
          exact (or_iff_right hmarker).symm
  obtain ⟨places, hnodup, hfold, hreaches⟩ := hplaces
  obtain ⟨hkept, hall⟩ := foldlM_processBookUpdate_follows hnodup (by exact hbooks) hfold
  refine ⟨hkept, fun ticker book hbook => ?_, fun ticker hnone => ?_⟩
  rotate_left
  · obtain ⟨hsame, hfeatures⟩ := (hall ticker).1 fun place _ hat => by
      have hmem : ticker ∈ engine.bookTickers := List.mem_of_getElem? hat
      rw [← isSome_book_iff, hnone] at hmem
      cases hmem
    exact ⟨hsame.trans hnone, hfeatures⟩
  have hmem : ticker ∈ engine.bookTickers := isSome_book_iff.mp (hbook ▸ rfl)
  obtain ⟨hskipped, hreached⟩ := hall ticker
  unfold MarketOrderBook.receive
  by_cases hreach : update.Reaches ticker
  · obtain ⟨before, book', hbefore, happly, hafter, hfeatures⟩ := hreached ((hreaches ticker hmem).mpr hreach)
    obtain rfl := Option.some.inj (hbook.symm.trans hbefore)
    rw [if_pos hreach]
    refine ⟨book', happly, hafter, fun index => ?_⟩
    simp only [hreach, if_true]
    exact hfeatures index
  · have hnone : ∀ place ∈ places, engine.bookTickers[place]? ≠ some ticker := by
      intro place hplace hat
      exact hreach ((hreaches ticker hmem).mp ⟨place, hplace, hat⟩)
    obtain ⟨hsame, hfeatures⟩ := hskipped hnone
    rw [if_neg hreach]
    refine ⟨book, rfl, hsame.trans hbook, fun index => ?_⟩
    simp only [hreach, if_false, Option.map_id_fun']
    exact hfeatures index

end Books

/-! ### Progress -/

section Progress

variable [ObjectPool π] [FeatureEngine F] [Strategy S F cap]

theorem exists_processBookUpdate {source : TickerBook π} {book' : MarketOrderBook π}
    (hsource : engine.tickers[place]? = some source)
    (happly : source.book.applyUpdate source.book.trackedOrders update = some book') :
    ∃ engine', engine.processBookUpdate update place = some engine'
      ∧ engine'.tickers = engine.tickers.set place { source with book := book' } := by
  refine ⟨_, by rw [processBookUpdate, hsource, Option.bind_eq_bind, Option.bind_some, happly]; rfl, ?_⟩
  exact (foldl_processSlotUpdate_entries _ List.nodup_range _ _).1

theorem exists_foldlM_processBookUpdate {places : List Nat} (hnodup : places.Nodup)
    (hplaces : ∀ place ∈ places, ∃ source book', engine.tickers[place]? = some source
      ∧ source.book.applyUpdate source.book.trackedOrders update = some book') :
    ∃ engine', places.foldlM (fun engine => engine.processBookUpdate update) engine = some engine' := by
  induction places generalizing engine with
  | nil => exact ⟨engine, rfl⟩
  | cons place places ih =>
      obtain ⟨hnotMem, hrest⟩ := List.nodup_cons.mp hnodup
      obtain ⟨source, book', hsource, happly⟩ := hplaces place (by simp)
      obtain ⟨middle, hprocess, htickers⟩ := exists_processBookUpdate hsource happly
      rw [List.foldlM_cons, hprocess, Option.bind_eq_bind, Option.bind_some]
      refine ih hrest fun later hmem => ?_
      have hne : place ≠ later := fun heq => hnotMem (heq ▸ hmem)
      rw [htickers, List.getElem?_set_ne hne]
      exact hplaces later (by simp [hmem])

/-- An update that every book survives goes through. -/
theorem exists_processUpdate
    (hbooks : ∀ source ∈ engine.tickers,
      ∃ book', source.book.applyUpdate source.book.trackedOrders update = some book') :
    ∃ engine', engine.processUpdate update = some engine' := by
  unfold processUpdate
  dsimp only
  split
  · apply exists_foldlM_processBookUpdate List.nodup_range
    intro place hmem
    have hlt := List.mem_range.mp hmem
    obtain ⟨book', happly⟩ := hbooks _ (List.getElem_mem hlt)
    exact ⟨_, book', List.getElem?_eq_getElem hlt, happly⟩
  · split
    case h_1 => exact ⟨_, rfl⟩
    case h_2 place source hfind =>
        obtain ⟨before, after, hsplit, rfl, -, -⟩ := Table.exists_split_of_find hfind
        have hsource : engine.tickers[before.length]? = some source := by
          rw [show engine.tickers = before ++ source :: after from hsplit]
          simp
        obtain ⟨book', happly⟩ := hbooks source (List.mem_of_getElem? hsource)
        exact (exists_processBookUpdate (by exact hsource) happly).imp fun _ hprocess => hprocess.1

end Progress

/-! ### Runs -/

/-- The books and the features are those of followers of the updates. -/
structure Follows [ObjectPool π] [FeatureEngine F] (updates : List MarketUpdate)
    (engine : TradeEngine S F π cap) : Prop where
  books : engine.bookTickers.Nodup
  book : ∀ ticker book, engine.book ticker = some book →
    updates.foldlM (MarketOrderBook.receive ticker) (MarketOrderBook.init π ticker) = some book
  features : ∀ index ticker features, engine.features index ticker = some features →
    ∃ book, engine.book ticker = some book
      ∧ updates.foldlM (Follower.receive ticker) (Follower.init F π ticker) = some ⟨book, features⟩

section Runs

variable [ObjectPool π] [FeatureEngine F] {updates : List MarketUpdate}

/-- A new engine has new books, and fresh features for tickers that have a book. -/
theorem follows_prepared (strategy : S) (slotCount maxSlots requestCapacity : Nat)
    (preparations : List (Preparation S)) :
    Follows [] (prepared strategy slotCount maxSlots requestCapacity preparations :
      TradeEngine S F π cap) := by
  have hprepared : (prepared strategy slotCount maxSlots requestCapacity preparations :
      TradeEngine S F π cap).NewBooks := newBooks_prepared ..
  generalize (prepared strategy slotCount maxSlots requestCapacity preparations :
    TradeEngine S F π cap) = engine at hprepared
  obtain ⟨hbooks, hnew, hfresh⟩ := hprepared
  have hbook : ∀ ticker book, engine.book ticker = some book → book = MarketOrderBook.init π ticker := by
    intro ticker book hbook
    rw [book_eq_lookup] at hbook
    obtain ⟨source, hlookup, rfl⟩ := Option.map_eq_some_iff.mp hbook
    obtain ⟨hmem, rfl⟩ := (Table.lookup_eq_some_iff hbooks).mp hlookup
    exact hnew source hmem
  refine ⟨hbooks, fun ticker book hfound => ?_, fun index ticker features hfeatures => ?_⟩
  · rw [hbook ticker book hfound]
    rfl
  · obtain ⟨slot, hslot, hfeatures⟩ := Option.bind_eq_some_iff.mp hfeatures
    obtain ⟨⟨place, entry⟩, hfind, rfl⟩ := Option.map_eq_some_iff.mp hfeatures
    obtain ⟨before, after, hsplit, -, hkey, -⟩ := Table.exists_split_of_find hfind
    obtain ⟨hfeatures, hmem⟩ := hfresh slot (List.mem_of_getElem? hslot) entry (by simp [hsplit])
    obtain ⟨book, hfound⟩ := Option.isSome_iff_exists.mp (isSome_book_iff.mpr (hkey ▸ hmem))
    refine ⟨book, hfound, ?_⟩
    rw [hbook ticker book hfound, hfeatures]
    rfl

theorem Follows.processUpdate [Strategy S F cap] (hfollows : Follows updates engine)
    (hprocess : engine.processUpdate update = some engine') :
    Follows (updates ++ [update]) engine' := by
  obtain ⟨hkept, hreceived, hmissing⟩ := processUpdate_follows hfollows.books hprocess
  refine ⟨hkept ▸ hfollows.books, fun ticker book' hbook' => ?_, fun index ticker features' hfeatures' => ?_⟩
  · cases hbook : engine.book ticker with
    | none => exact absurd (hbook'.symm.trans (hmissing ticker hbook).1) (by simp)
    | some book =>
        obtain ⟨after, hreceive, hafter, -⟩ := hreceived ticker book hbook
        obtain rfl := Option.some.inj (hbook'.symm.trans hafter)
        rw [List.foldlM_append, hfollows.book ticker book hbook]
        simpa using hreceive
  · cases hbook : engine.book ticker with
    | none =>
        rw [(hmissing ticker hbook).2] at hfeatures'
        obtain ⟨book, hbook', -⟩ := hfollows.features index ticker features' hfeatures'
        exact absurd (hbook.symm.trans hbook') (by simp)
    | some book =>
        obtain ⟨after, hreceive, hafter, hrefreshed⟩ := hreceived ticker book hbook
        rw [hrefreshed] at hfeatures'
        obtain ⟨features, hfeatures, rfl⟩ := Option.map_eq_some_iff.mp hfeatures'
        obtain ⟨before, hbefore, hrun⟩ := hfollows.features index ticker features hfeatures
        obtain rfl := Option.some.inj (hbook.symm.trans hbefore)
        refine ⟨after, hafter, ?_⟩
        rw [List.foldlM_append, hrun]
        simp [Follower.receive, hreceive]

/-- What leaves the books and the entries alone. -/
theorem Follows.of_same (hfollows : Follows updates engine) (htickers : engine'.tickers = engine.tickers)
    (hentries : ∀ index, engine'.entries index = engine.entries index) : Follows updates engine' := by
  have hbook : ∀ ticker, engine'.book ticker = engine.book ticker := by
    intro ticker
    rw [book_eq_lookup, htickers, book_eq_lookup]
  have hfeatures : ∀ index ticker, engine'.features index ticker = engine.features index ticker := by
    intro index ticker
    rw [features_eq_lookup, hentries, features_eq_lookup]
  refine ⟨?_, fun ticker book => ?_, fun index ticker features => ?_⟩
  · rw [bookTickers, htickers]
    exact hfollows.books
  · rw [hbook]
    exact hfollows.book ticker book
  · rw [hfeatures, hbook]
    exact hfollows.features index ticker features

theorem Follows.processResponse (hfollows : Follows updates engine) (response : OrderResponse) :
    Follows updates (engine.processResponse response) := by
  unfold TradeEngine.processResponse
  dsimp only
  split
  case h_1 => exact hfollows.of_same rfl fun _ => rfl
  case h_2 slot hslot => exact hfollows.of_same rfl (entries_set hslot rfl)

end Runs

end TradeEngine

end AlphaTrader
