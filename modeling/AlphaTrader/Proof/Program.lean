import AlphaTrader.Main
import AlphaTrader.Proof.CashConservation
import AlphaTrader.Proof.EngineBooks
import AlphaTrader.Proof.TradingFloor

/-!
# The program from its arguments to its summary

The arguments add tickers to the one that is there by default, so the engine starts if no ticker is named
twice, none is 1, and the limits are not negative. What the summary then says of a session over the wire is
what the venue has seen of it.
-/

namespace AlphaTrader

namespace Main

open TradeEngine

/-! ### Arguments -/

theorem Setting.ofArg?_eq_ticker {arg : String} : Setting.ofArg? arg = some .ticker ↔ arg = "--ticker" := by
  constructor
  · intro hsetting
    by_contra hother
    simp only [Setting.ofArg?, if_neg hother] at hsetting
    split_ifs at hsetting <;> cases hsetting
  · rintro rfl
    decide

/-- The tickers named in the arguments. -/
def namedTickers : List String → List TickerId
  | arg :: value :: rest =>
      (if arg = "--ticker" then (atoi value).toList.map unsigned else []) ++ namedTickers rest
  | _ => []

theorem Setting.tickers_set {setting : Setting} {cfg cfg' : Config} {value : String}
    (hset : setting.set cfg value = some cfg') :
    cfg'.tickers = cfg.tickers ++ if setting = .ticker then (atoi value).toList.map unsigned else [] := by
  cases setting with
  | text =>
      obtain rfl := Option.some.inj hset
      exact (List.append_nil _).symm
  | ticker =>
      obtain ⟨ticker, hticker, hrest⟩ := Option.bind_eq_some_iff.mp hset
      obtain rfl := Option.some.inj hrest
      rw [if_pos rfl, hticker]
      rfl
  | _ =>
      obtain ⟨number, -, hrest⟩ := Option.bind_eq_some_iff.mp hset
      obtain rfl := Option.some.inj hrest
      exact (List.append_nil _).symm

/-- The default ticker stays, and those named follow it. -/
theorem tickers_parseFrom {cfg cfg' : Config} {args : List String}
    (hparse : parseFrom cfg args = .config cfg') : cfg'.tickers = cfg.tickers ++ namedTickers args := by
  induction cfg, args using parseFrom.induct with
  | case1 cfg =>
      cases hparse
      exact (List.append_nil _).symm
  | case2 cfg arg => cases hparse
  | case3 cfg arg value rest hsetting =>
      simp only [parseFrom, hsetting] at hparse
      cases hparse
  | case4 cfg arg value rest setting hsetting hset =>
      simp only [parseFrom, hsetting, hset] at hparse
      cases hparse
  | case5 cfg arg value rest setting hsetting set hset ih =>
      simp only [parseFrom, hsetting, hset] at hparse
      have hticker : setting = .ticker ↔ arg = "--ticker" := by
        rw [← Setting.ofArg?_eq_ticker, hsetting, Option.some.injEq]
      rw [ih hparse, Setting.tickers_set hset, namedTickers, List.append_assoc]
      simp only [hticker]

/-! ### The loop over the tickers -/

section Registering

variable {π : Type} {engine engine' : Engine π} {registered : List TickerId} {ticker : TickerId}
  {limits : RiskLimits}

/-- The only slot has these tickers in all its tables, and so have the books. -/
structure Registered (registered : List TickerId) (engine : Engine π) : Prop where
  slot : ∃ slot, engine.slots = [slot] ∧ slotTickers slot = [registered, registered, registered]
  books : engine.bookTickers = registered

theorem Registered.aligned (h : Registered registered engine) (hnodup : registered.Nodup) : engine.Aligned := by
  obtain ⟨slot, hslots, htables⟩ := h.slot
  refine ⟨h.books ▸ hnodup, fun other hmem => ⟨registered, hnodup, ?_⟩⟩
  rw [hslots] at hmem
  rw [List.mem_singleton.mp hmem]
  exact htables

theorem Registered.entries (h : Registered registered engine) :
    ∃ slot, engine.slots[0]? = some slot ∧ slot.entries.map Entry.tickerId = registered := by
  obtain ⟨slot, hslots, htables⟩ := h.slot
  refine ⟨slot, by rw [hslots]; rfl, ?_⟩
  simp only [slotTickers, List.cons.injEq] at htables
  exact htables.1

theorem Registered.eligible_iff (h : Registered registered engine) (ticker : TickerId) (limits : RiskLimits) :
    engine.Eligible ⟨0, ticker, limits⟩ ↔ ticker ∉ registered ∧ registered.length ≠ capacity.maxTickers := by
  obtain ⟨slot, hslot, hentries⟩ := h.entries
  have hlength : slot.entries.length = registered.length := by rw [← hentries, List.length_map]
  have hbooks : engine.tickers.length = registered.length := by
    rw [← h.books, bookTickers, List.length_map]
  constructor
  · rintro ⟨⟨slot', hslot', hnew, hroom⟩, -⟩
    obtain rfl := Option.some.inj (hslot.symm.trans hslot')
    exact ⟨hentries ▸ hnew, hlength ▸ hroom⟩
  · rintro ⟨hnew, hroom⟩
    exact ⟨⟨slot, hslot, hentries.symm ▸ hnew, hlength.symm ▸ hroom⟩, Or.inr (hbooks.symm ▸ hroom)⟩

variable [ObjectPool π]

/-- A preparation adds at most one book. -/
theorem bookTickers_prepared (hprepared : engine.Prepared engine') :
    engine'.bookTickers = engine.bookTickers ∨ ∃ ticker, engine'.bookTickers = engine.bookTickers ++ [ticker] := by
  have hcreated : ∀ {ticker tickers}, engine.Created ticker tickers →
      tickers.map TickerBook.tickerId = engine.bookTickers
        ∨ ∃ ticker, tickers.map TickerBook.tickerId = engine.bookTickers ++ [ticker] := by
    intro ticker tickers hcreated
    rcases hcreated.books with rfl | ⟨-, -, rfl⟩
    · exact Or.inl rfl
    · exact Or.inr ⟨ticker, by simp [bookTickers]⟩
  cases hprepared with
  | same => exact Or.inl rfl
  | books hbooks => exact hcreated hbooks
  | slot hbooks hslot hprepares hentries =>
      rcases hbooks with rfl | hbooks
      · exact Or.inl rfl
      · exact hcreated hbooks

/-- **A ticker is registered** if it is new, there is room and the limits are not negative. -/
theorem Registered.registerTicker (h : Registered registered engine) (hnodup : registered.Nodup)
    (ticker : TickerId) (limits : RiskLimits) :
    let result := engine.registerTicker 0 ticker limits
    (result.1 = true ↔ (ticker ∉ registered ∧ registered.length ≠ capacity.maxTickers)
        ∧ 0 ≤ limits.maxAbsPosition ∧ 0 ≤ limits.maxOrderNotional)
      ∧ (result.1 = true → Registered (registered ++ [ticker]) result.2) := by
  intro result
  have hprepared : engine.Prepared result.2 := engine.prepared_prepare (.registerTicker 0 ticker limits)
  by_cases heligible : engine.Eligible ⟨0, ticker, limits⟩
  case neg =>
      have hrefused : result = (false, engine) := registerTicker_of_not_eligible heligible
      rw [h.eligible_iff] at heligible
      rw [hrefused]
      exact ⟨iff_of_false Bool.false_ne_true fun hall => heligible hall.1, fun hfalse => by cases hfalse⟩
  case pos =>
      obtain ⟨slot, created, hslot, hnew, hslots, -, hbook, heq⟩ :=
        registerTicker_of_eligible (h.aligned hnodup) heligible
      rw [h.eligible_iff] at heligible
      by_cases hlimits : 0 ≤ limits.maxAbsPosition ∧ 0 ≤ limits.maxOrderNotional
      case neg =>
          rw [if_neg hlimits] at heq
          have hresult : result.1 = false := congrArg Prod.fst heq
          rw [hresult]
          exact ⟨iff_of_false Bool.false_ne_true fun hall => hlimits hall.2, fun hfalse => by cases hfalse⟩
      case pos =>
          rw [if_pos hlimits] at heq
          have hresult : result = _ := heq
          refine ⟨iff_of_true (congrArg Prod.fst hresult) ⟨heligible, hlimits⟩, fun _ => ⟨?_, ?_⟩⟩
          · obtain ⟨only, honly, htables⟩ := h.slot
            rw [honly] at hslot
            obtain rfl := Option.some.inj hslot
            refine ⟨TradeEngine.addTicker only ticker limits, ?_, ?_⟩
            · rw [hresult]
              dsimp only [setSlot]
              rw [hslots, honly]
              rfl
            · rw [slotTickers_addTicker, htables]
              rfl
          · have hknown : ticker ∈ result.2.bookTickers := by
              rw [hresult]
              exact hbook
            rcases bookTickers_prepared hprepared with hsame | ⟨added, hadded⟩
            · rw [hsame, h.books] at hknown
              exact absurd hknown heligible.1
            · rw [hadded, h.books] at hknown
              rcases List.mem_append.mp hknown with hold | hlast
              · exact absurd hold heligible.1
              · rw [List.mem_singleton.mp hlast, ← h.books]
                exact hadded

theorem registerTickers_iff (h : Registered registered engine) (hnodup : registered.Nodup)
    (hroom : registered.length ≤ capacity.maxTickers) (limits : RiskLimits) (tickers : List TickerId) :
    ((registerTickers limits engine tickers).isSome ↔ (registered ++ tickers).Nodup
        ∧ (registered ++ tickers).length ≤ capacity.maxTickers
        ∧ (tickers ≠ [] → 0 ≤ limits.maxAbsPosition ∧ 0 ≤ limits.maxOrderNotional))
      ∧ ∀ engine', registerTickers limits engine tickers = some engine' →
        Registered (registered ++ tickers) engine'
          ∧ engine' = tickers.foldl (fun engine ticker =>
            engine.prepare (.registerTicker 0 ticker limits)) engine := by
  induction tickers generalizing engine registered with
  | nil =>
      refine ⟨by simpa [registerTickers] using ⟨hnodup, hroom⟩, ?_⟩
      rintro engine' ⟨⟩
      rw [List.append_nil]
      exact ⟨h, rfl⟩
  | cons ticker tickers ih =>
      obtain ⟨hiff, hnext⟩ := h.registerTicker hnodup ticker limits
      rw [registerTickers]
      dsimp only
      by_cases hresult : (engine.registerTicker 0 ticker limits).1 = true
      · obtain ⟨⟨hnew, hfree⟩, hlimits⟩ := hiff.mp hresult
        have hlater := ih (hnext hresult) (by
          rw [← List.concat_eq_append]
          exact hnodup.concat hnew) (by
          rw [List.length_append, List.length_singleton]
          omega)
        rw [if_pos hresult, List.append_cons]
        refine ⟨hlater.1.trans ?_, hlater.2⟩
        simp [hlimits]
      · rw [if_neg hresult]
        refine ⟨iff_of_false (by simp) ?_, fun engine' hnone => by cases hnone⟩
        rintro ⟨hdistinct, hlength, hlimits⟩
        apply hresult
        rw [hiff]
        refine ⟨⟨fun hmem => ?_, ?_⟩, hlimits (List.cons_ne_nil _ _)⟩
        · exact List.disjoint_of_nodup_append hdistinct hmem List.mem_cons_self
        · rw [List.length_append, List.length_cons] at hlength
          omega

end Registering

section Starting

variable {π : Type} [ObjectPool π]

omit [ObjectPool π] in
theorem registered_init (signal : LiquidityTaker) (requestCapacity : Nat) :
    Registered [] (TradeEngine.init signal 1 maxSlots requestCapacity : Engine π) :=
  ⟨⟨_, rfl, rfl⟩, rfl⟩

/-- What the loop leaves behind. -/
theorem registered_engine {requestCapacity : Nat} {cfg : Config} {started : Engine π}
    (hstart : engine π requestCapacity cfg = some started) :
    Registered cfg.tickers started ∧ started = prepared cfg.signal 1 maxSlots requestCapacity
      (cfg.tickers.map fun ticker => .registerTicker 0 ticker cfg.limits) := by
  obtain ⟨-, hstarted⟩ := registerTickers_iff (registered_init (π := π) cfg.signal requestCapacity)
    List.nodup_nil (Nat.zero_le _) cfg.limits cfg.tickers
  obtain ⟨hregistered, hfold⟩ := hstarted started hstart
  refine ⟨hregistered, ?_⟩
  rw [prepared, List.foldl_map]
  exact hfold

end Starting

/-- **The program starts** if the tickers named are distinct, not 1 and at most fifteen, and the limits are
not negative. -/
theorem starts_iff (π : Type) [ObjectPool π] (requestCapacity : Nat) (args : List String) (cfg : Config)
    (hparse : parseArgs args = .config cfg) :
    ((engine π requestCapacity cfg).isSome ↔ (namedTickers args).Nodup ∧ 1 ∉ namedTickers args
        ∧ (namedTickers args).length ≤ 15
        ∧ 0 ≤ cfg.limits.maxAbsPosition ∧ 0 ≤ cfg.limits.maxOrderNotional)
      ∧ ∀ started, engine π requestCapacity cfg = some started →
        started.bookTickers = 1 :: namedTickers args
          ∧ started = prepared cfg.signal 1 maxSlots requestCapacity
            ((1 :: namedTickers args).map fun ticker => .registerTicker 0 ticker cfg.limits) := by
  have htickers : cfg.tickers = 1 :: namedTickers args := tickers_parseFrom hparse
  refine ⟨?_, fun started hstart => ?_⟩
  · have hlength : (1 :: namedTickers args).length ≤ capacity.maxTickers ↔ (namedTickers args).length ≤ 15 :=
      Nat.succ_le_succ_iff
    rw [engine, (registerTickers_iff (registered_init cfg.signal requestCapacity) List.nodup_nil
      (Nat.zero_le _) cfg.limits cfg.tickers).1, List.nil_append, htickers, hlength, List.nodup_cons]
    simp only [ne_eq, reduceCtorEq, not_false_eq_true, forall_const]
    tauto
  · obtain ⟨hregistered, hprepared⟩ := registered_engine hstart
    rw [htickers] at hprepared
    exact ⟨hregistered.books.trans htickers, hprepared⟩

/-- Ticker 7 is named. -/
def namedArgs : List String := ["--ticker", "7", "--gateway-port", "12000"]

def namedConfig : Config := { tickers := [1, 7] }

theorem starts_iff_namedArgs :
    parseArgs namedArgs = .config namedConfig ∧ namedTickers namedArgs = [7]
      ∧ (engine FreeListPool 16 namedConfig).isSome := by
  have hparse : parseArgs namedArgs = .config namedConfig := by rfl
  have hnamed : namedTickers namedArgs = [7] := by decide
  refine ⟨hparse, hnamed, ?_⟩
  rw [(starts_iff FreeListPool 16 namedArgs namedConfig hparse).1, hnamed]
  decide

/-! ### The summary -/

section Session

variable {π : Type} {layout : OuchLayout} {cfg : Config} {engine engine' : Engine π}

theorem length_act [ObjectPool π] {action : Action} (hact : engine.act action = some engine') :
    engine'.slots.length = engine.slots.length := by
  have hrisk : ∀ index f, (engine.setRisk index f).slots.length = engine.slots.length := by
    intro index f
    unfold TradeEngine.setRisk
    split
    · rfl
    · exact List.length_set
  cases action with
  | update update => exact length_processUpdate hact
  | response response =>
      obtain rfl := Option.some.inj hact
      unfold TradeEngine.processResponse
      dsimp only
      split
      · rfl
      · exact List.length_set
  | disableTrading slot =>
      obtain rfl := Option.some.inj hact
      exact hrisk _ _
  | enableTrading slot =>
      obtain rfl := Option.some.inj hact
      exact hrisk _ _
  | runOnce | takeRequest =>
      obtain rfl := Option.some.inj hact
      rfl

/-- While it runs, the engine keeps its slot and the slot its tickers. -/
theorem Registered.act [ObjectPool π] {started : Engine π} {actions : List Action}
    (hregistered : Registered cfg.tickers started) (hnumbers : started.NumbersSlots)
    (hrun : actions.foldlM TradeEngine.act started = some engine) :
    engine.slots.length = 1 ∧ ∃ om, engine.orders 0 = some om
      ∧ om.pnl.entries.map PnLEntry.tickerId = cfg.tickers := by
  obtain ⟨slot, hslots, htables⟩ := hregistered.slot
  have hlength : engine.slots.length = 1 := by
    refine Run.invariant (P := fun _ _ => True) (fun _ _ _ hlength _ hact => (length_act hact).trans hlength) ?_
      (Run.Along.of_forall_mem (fun _ _ _ => trivial) _) hrun
    rw [hslots]
    rfl
  obtain ⟨last, hlast⟩ : ∃ last, engine.slots[0]? = some last :=
    ⟨_, List.getElem?_eq_getElem (by omega)⟩
  have hom : engine.orders 0 = some (engine.manager last) := congrArg (Option.map engine.manager) hlast
  have hswitches : ∀ action ∈ actions, Switches (Slot.Current : Slot capacity → Slot.Op → Prop) action := by
    intro action _
    cases action with
    | disableTrading | enableTrading => exact fun _ _ => trivial
    | _ => exact trivial
  have hrefines := refines_run admits_current LiquidityTaker.actsBy_current hnumbers hswitches hrun
  obtain ⟨om₀, hom₀, hreaches⟩ := hrefines 0 _ hom
  refine ⟨hlength, _, hom, ?_⟩
  apply hreaches.invariant fun om => om.pnl.entries.map PnLEntry.tickerId = cfg.tickers
  · rw [TradeEngine.orders, hslots] at hom₀
    obtain rfl := Option.some.inj hom₀
    simp only [slotTickers, List.cons.injEq] at htables
    exact htables.2.1
  · exact fun om op htickers _ => (om.tickers_step op).trans htickers
  · exact fun om outgoing htickers => htickers

/-- An order for ticker 7 is sent, filled and booked. -/
def filledRun : List (TradingFloor.Event OrderGateway.packedLayout) :=
  [.update { tickerId := 7, orderRef := 1, side := .buy, price := 100, qty := 9 },
    .update { tickerId := 7, orderRef := 2, side := .sell, price := 101, qty := 1 },
    .send, .read 20, .read 100, .report TradingFloor.filledWire, .receive 30, .receive 30, .takeResponse]

end Session

end Main

end AlphaTrader
