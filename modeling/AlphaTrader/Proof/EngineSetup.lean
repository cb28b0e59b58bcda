import AlphaTrader.Proof.Registration
import AlphaTrader.Trading.EngineRun

/-!
# Preparing an engine

A preparation adds at most one book, which is new, and writes at most one slot: it adds the ticker to the
positions, and to the limits and the entries if the limits allow it, or it changes the strategy. Whatever
holds of an engine that has just been built and survives these writes holds when the engine starts.
-/

namespace AlphaTrader

namespace TradeEngine

variable {S F π : Type} {cap : Capacity} {engine : TradeEngine S F π cap}

/-! ### One slot -/

/-- What a preparation writes to a slot. -/
inductive Prepares [FeatureEngine F] (slot : EngineSlot S F cap) : EngineSlot S F cap → Prop
  | position {ticker : TickerId} {pnl : PnLTracker cap}
      (hpnl : slot.om.pnl.registerTicker ticker = some pnl) :
      Prepares slot { slot with om := { slot.om with pnl := pnl } }
  | entry {ticker : TickerId} {limits : RiskLimits} {pnl : PnLTracker cap} {risk : RiskManager cap}
      (hnew : ticker ∉ slot.entries.map Entry.tickerId) (hroom : slot.entries.length ≠ cap.maxTickers)
      (hpnl : slot.om.pnl.registerTicker ticker = some pnl)
      (hrisk : slot.om.risk.registerTicker ticker limits = some risk) :
      Prepares slot { slot with
        om := { slot.om with pnl := pnl, risk := risk }
        entries := slot.entries ++ [⟨ticker, FeatureEngine.fresh⟩] }
  | strategy (strategy : S) : Prepares slot { slot with strategy := strategy }

/-! ### The engine -/

section Engine

variable [ObjectPool π]

/-- The books after `findOrCreateTicker`. -/
structure Created (engine : TradeEngine S F π cap) (ticker : TickerId)
    (tickers : List (TickerBook π)) : Prop where
  known : ticker ∈ tickers.map TickerBook.tickerId
  books : tickers = engine.tickers
    ∨ ticker ∉ engine.bookTickers ∧ engine.tickers.length ≠ cap.maxTickers
      ∧ tickers = engine.tickers ++ [⟨ticker, MarketOrderBook.init π ticker⟩]

theorem created_of_findOrCreateTicker {ticker : TickerId} {created : TradeEngine S F π cap}
    (hcreate : engine.findOrCreateTicker ticker = some created) :
    engine.Created ticker created.tickers ∧ created = { engine with tickers := created.tickers } := by
  unfold findOrCreateTicker at hcreate
  split at hcreate
  case isTrue hknown =>
      obtain rfl := Option.some.inj hcreate
      exact ⟨⟨findTicker_isSome_iff.mp hknown, Or.inl rfl⟩, rfl⟩
  case isFalse hunknown =>
      split at hcreate
      case isTrue => cases hcreate
      case isFalse hroom =>
          obtain rfl := Option.some.inj hcreate
          refine ⟨⟨by simp, Or.inr ⟨mt findTicker_isSome_iff.mpr hunknown, hroom, rfl⟩⟩, rfl⟩

variable [FeatureEngine F]

/-- **A preparation** leaves the engine alone, or adds a book and then writes a slot or does not. -/
inductive Prepared (engine : TradeEngine S F π cap) : TradeEngine S F π cap → Prop
  | same : Prepared engine engine
  | books {ticker : TickerId} {tickers : List (TickerBook π)} (hcreated : engine.Created ticker tickers) :
      Prepared engine { engine with tickers := tickers }
  | slot {ticker : TickerId} {tickers : List (TickerBook π)} {index : Nat}
      {slot slot' : EngineSlot S F cap} (hbooks : tickers = engine.tickers ∨ engine.Created ticker tickers)
      (hslot : engine.slots[index]? = some slot) (hprepares : Prepares slot slot')
      (hentries : ∀ entry ∈ slot'.entries, entry ∈ slot.entries
        ∨ entry = ⟨ticker, FeatureEngine.fresh⟩ ∧ ticker ∈ tickers.map TickerBook.tickerId) :
      Prepared engine { engine with tickers := tickers, slots := engine.slots.set index slot' }

theorem prepared_prepare (engine : TradeEngine S F π cap) (preparation : Preparation S) :
    engine.Prepared (engine.prepare preparation) := by
  cases preparation with
  | setStrategy index strategy =>
      rw [prepare, setStrategy]
      split
      case h_1 => exact .same
      case h_2 slot hslot =>
          have hbooks : engine.tickers = engine.tickers ∨ engine.Created 0 engine.tickers := Or.inl rfl
          exact .slot hbooks hslot (.strategy strategy) fun entry hmem => Or.inl hmem
  | registerTicker index ticker limits =>
      rw [prepare, registerTicker]
      split
      case h_1 => exact .same
      case h_2 slot hslot =>
          split
          case isTrue => exact .same
          case isFalse hadmitted =>
              obtain ⟨hunknown, hroom⟩ := not_or.mp hadmitted
              have hnew : ticker ∉ slot.entries.map Entry.tickerId := mt findEntry_isSome_iff.mpr hunknown
              split
              case h_1 => exact .same
              case h_2 created hcreate =>
                  obtain ⟨hcreated, heq⟩ := created_of_findOrCreateTicker hcreate
                  rw [heq]
                  split
                  case h_1 => exact .books hcreated
                  case h_2 pnl hpnl =>
                      dsimp only
                      split
                      case h_1 =>
                          exact .slot (Or.inr hcreated) hslot (.position hpnl) fun entry hmem => Or.inl hmem
                      case h_2 risk hrisk =>
                          refine .slot (Or.inr hcreated) hslot (.entry hnew hroom hpnl hrisk) ?_
                          intro entry hmem
                          rcases List.mem_append.mp hmem with hold | hadded
                          · exact Or.inl hold
                          · exact Or.inr ⟨List.mem_singleton.mp hadded, hcreated.known⟩

/-- **Preparation rule.** What a new engine has and every preparation keeps, a prepared engine has. -/
theorem prepared_invariant {Inv : TradeEngine S F π cap → Prop} {strategy : S}
    {slotCount maxSlots requestCapacity : Nat}
    (hinit : Inv (init strategy slotCount maxSlots requestCapacity))
    (hkept : ∀ engine engine', Inv engine → engine.Prepared engine' → Inv engine')
    (preparations : List (Preparation S)) :
    Inv (prepared strategy slotCount maxSlots requestCapacity preparations) :=
  List.foldlRecOn preparations prepare hinit
    fun engine hinv preparation _ => hkept engine _ hinv (engine.prepared_prepare preparation)

/-! ### Books and features -/

/-- The books and the features are new, and every entry has a book. -/
structure NewBooks (engine : TradeEngine S F π cap) : Prop where
  books : engine.bookTickers.Nodup
  book : ∀ source ∈ engine.tickers, source.book = MarketOrderBook.init π source.tickerId
  entries : ∀ slot ∈ engine.slots, ∀ entry ∈ slot.entries,
    entry.features = FeatureEngine.fresh ∧ entry.tickerId ∈ engine.bookTickers

theorem NewBooks.create (hnew : engine.NewBooks) {ticker : TickerId} {tickers : List (TickerBook π)}
    (hcreated : tickers = engine.tickers ∨ engine.Created ticker tickers) :
    { engine with tickers := tickers }.NewBooks := by
  rcases hcreated with rfl | ⟨-, rfl | ⟨hunknown, -, rfl⟩⟩
  · exact hnew
  · exact hnew
  · refine ⟨?_, fun source hmem => ?_, fun slot hslot entry hentry => ?_⟩
    · rw [bookTickers, List.map_append, List.map_singleton, ← List.concat_eq_append]
      exact hnew.books.concat hunknown
    · rcases List.mem_append.mp hmem with hold | hadded
      · exact hnew.book source hold
      · obtain rfl := List.mem_singleton.mp hadded
        rfl
    · obtain ⟨hfresh, hknown⟩ := hnew.entries slot hslot entry hentry
      rw [bookTickers, List.map_append]
      exact ⟨hfresh, List.mem_append_left _ hknown⟩

theorem newBooks_prepared (strategy : S) (slotCount maxSlots requestCapacity : Nat)
    (preparations : List (Preparation S)) :
    (prepared strategy slotCount maxSlots requestCapacity preparations :
      TradeEngine S F π cap).NewBooks := by
  apply prepared_invariant
  case hinit =>
      refine ⟨List.nodup_nil, by simp [init], fun slot hmem entry hentry => ?_⟩
      obtain ⟨number, -, rfl⟩ := List.mem_map.mp hmem
      cases hentry
  case hkept =>
      intro engine engine' hnew hprepared
      cases hprepared with
      | same => exact hnew
      | books hcreated => exact hnew.create (Or.inr hcreated)
      | slot hbooks hslot _ hentries =>
          have hcreate := hnew.create hbooks
          refine ⟨hcreate.books, hcreate.book, fun other hother entry hentry => ?_⟩
          rcases List.mem_or_eq_of_mem_set hother with hold | rfl
          · exact hcreate.entries other hold entry hentry
          · rcases hentries entry hentry with hold | ⟨rfl, hknown⟩
            · exact hcreate.entries _ (List.mem_of_getElem? hslot) entry hold
            · exact ⟨rfl, hknown⟩

end Engine

end TradeEngine

end AlphaTrader
