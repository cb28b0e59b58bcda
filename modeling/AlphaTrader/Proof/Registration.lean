import AlphaTrader.Library.Run
import AlphaTrader.Proof.RiskSpec
import AlphaTrader.Trading.TradeEngine

/-!
# Registration of tickers

A registration writes to four tables one after the other: the books, which the slots share, then the
positions, the limits and the entries of a slot. The limits are looked at only after the first two have
been written, so a registration that is refused for its limits leaves a book and a position behind.
-/

namespace AlphaTrader

structure Registration where
  slot : Nat
  tickerId : TickerId
  limits : RiskLimits

namespace TradeEngine

variable {S F π : Type} {cap : Capacity} {engine engine' : TradeEngine S F π cap}
  {slot slot' : EngineSlot S F cap} {call : Registration} {ticker : TickerId} {limits : RiskLimits}

/-! ### The four tables -/

def bookTickers (engine : TradeEngine S F π cap) : List TickerId :=
  engine.tickers.map TickerBook.tickerId

/-- The tickers in each of the three tables of a slot. -/
def slotTickers (slot : EngineSlot S F cap) : List (List TickerId) :=
  [slot.entries.map Entry.tickerId, slot.om.pnl.entries.map PnLEntry.tickerId,
    slot.om.risk.tickers.map TickerLimits.tickerId]

theorem findTicker_isSome_iff : (engine.findTicker ticker).isSome ↔ ticker ∈ engine.bookTickers :=
  Table.find_isSome_iff

theorem findEntry_isSome_iff :
    (findEntry slot ticker).isSome ↔ ticker ∈ slot.entries.map Entry.tickerId :=
  Table.find_isSome_iff

theorem pnl_registerTicker_of_new {pnl : PnLTracker cap}
    (hnew : ticker ∉ pnl.entries.map PnLEntry.tickerId) (hroom : pnl.entries.length ≠ cap.maxTickers) :
    pnl.registerTicker ticker = some { pnl with entries := pnl.entries ++ [{ tickerId := ticker }] } := by
  rw [PnLTracker.registerTicker, if_neg (mt PnLTracker.isSome_get_iff.mp hnew), if_neg hroom]

theorem risk_registerTicker_of_negative {risk : RiskManager cap}
    (hnegative : limits.maxAbsPosition < 0 ∨ limits.maxOrderNotional < 0) :
    risk.registerTicker ticker limits = none := by
  rw [RiskManager.registerTicker, if_pos hnegative]

theorem risk_registerTicker_of_new {risk : RiskManager cap}
    (hlimits : 0 ≤ limits.maxAbsPosition ∧ 0 ≤ limits.maxOrderNotional)
    (hnew : ticker ∉ risk.tickers.map TickerLimits.tickerId)
    (hroom : risk.tickers.length ≠ cap.maxTickers) :
    risk.registerTicker ticker limits =
      some { risk with tickers := risk.tickers ++ [⟨ticker, limits⟩] } := by
  have hvalid : ¬ (limits.maxAbsPosition < 0 ∨ limits.maxOrderNotional < 0) := by
    omega
  have hmissing : ¬ (risk.findTicker ticker).isSome := by
    rw [RiskManager.findTicker, Option.isSome_map, Table.find_isSome_iff]
    exact hnew
  rw [RiskManager.registerTicker, if_neg hvalid, if_neg hmissing, if_neg hroom]

/-! ### What a registration ought to do -/

/-- The books and the tables of the slot are as they were. -/
structure Untouched (engine : TradeEngine S F π cap) (index : Nat) (engine' : TradeEngine S F π cap) :
    Prop where
  books : engine'.bookTickers = engine.bookTickers
  slot : (engine'.slots[index]?).map (fun slot => (slot.om.pnl, slot.om.risk, slot.entries)) =
    (engine.slots[index]?).map fun slot => (slot.om.pnl, slot.om.risk, slot.entries)

/-- The ticker, and no other one, is new in each table of the slot, and it has one book. -/
structure Adds (engine : TradeEngine S F π cap) (call : Registration)
    (engine' : TradeEngine S F π cap) : Prop where
  slot : ∃ slot slot', engine.slots[call.slot]? = some slot
    ∧ engine'.slots = engine.slots.set call.slot slot'
    ∧ (∀ tickers ∈ slotTickers slot, call.tickerId ∉ tickers)
    ∧ slotTickers slot' = (slotTickers slot).map (· ++ [call.tickerId])
  book : engine'.bookTickers.count call.tickerId = 1

/-- The three tables of every slot have the same tickers, and every ticker has at most one book. -/
structure Aligned (engine : TradeEngine S F π cap) : Prop where
  books : engine.bookTickers.Nodup
  slots : ∀ slot ∈ engine.slots, ∃ tickers : List TickerId, tickers.Nodup
    ∧ slotTickers slot = [tickers, tickers, tickers]

/-- Nothing but the limits can stand in the way of the registration. -/
def Eligible (engine : TradeEngine S F π cap) (call : Registration) : Prop :=
  (∃ slot, engine.slots[call.slot]? = some slot ∧ call.tickerId ∉ slot.entries.map Entry.tickerId
      ∧ slot.entries.length ≠ cap.maxTickers)
    ∧ (call.tickerId ∈ engine.bookTickers ∨ engine.tickers.length ≠ cap.maxTickers)

/-- The limits of a registration that nothing else stands in the way of are not negative. -/
def Vetted (engine : TradeEngine S F π cap) (call : Registration) : Prop :=
  engine.Eligible call → 0 ≤ call.limits.maxAbsPosition ∧ 0 ≤ call.limits.maxOrderNotional

theorem Aligned.slot_tickers (haligned : engine.Aligned) {index : Nat}
    (hslot : engine.slots[index]? = some slot) :
    (slot.entries.map Entry.tickerId).Nodup
      ∧ slot.om.pnl.entries.map PnLEntry.tickerId = slot.entries.map Entry.tickerId
      ∧ slot.om.risk.tickers.map TickerLimits.tickerId = slot.entries.map Entry.tickerId := by
  obtain ⟨tickers, hnodup, htables⟩ := haligned.slots slot (List.mem_of_getElem? hslot)
  simp only [slotTickers, List.cons.injEq, and_true] at htables
  obtain ⟨hentries, hpnl, hrisk⟩ := htables
  rw [hentries]
  exact ⟨hnodup, hpnl, hrisk⟩

section Books

variable [ObjectPool π]

theorem exists_findOrCreateTicker (hbooks : engine.bookTickers.Nodup)
    (hroom : ticker ∈ engine.bookTickers ∨ engine.tickers.length ≠ cap.maxTickers) :
    ∃ created, engine.findOrCreateTicker ticker = some created ∧ created.slots = engine.slots
      ∧ created.bookTickers.Nodup ∧ ticker ∈ created.bookTickers := by
  rw [findOrCreateTicker]
  by_cases hknown : ticker ∈ engine.bookTickers
  · rw [if_pos (findTicker_isSome_iff.mpr hknown)]
    exact ⟨engine, rfl, rfl, hbooks, hknown⟩
  · rw [if_neg (mt findTicker_isSome_iff.mp hknown), if_neg (hroom.resolve_left hknown)]
    refine ⟨_, rfl, rfl, ?_, ?_⟩
    · simp only [bookTickers, List.map_append, List.map_cons, List.map_nil]
      rw [← List.concat_eq_append]
      exact hbooks.concat hknown
    · simp [bookTickers]

end Books

variable [ObjectPool π] [FeatureEngine F]

def register (engine : TradeEngine S F π cap) (call : Registration) : TradeEngine S F π cap :=
  (engine.registerTicker call.slot call.tickerId call.limits).2

/-- The registration does all that it is for, or nothing. -/
def Atomic (engine : TradeEngine S F π cap) (call : Registration) : Prop :=
  let registered := engine.registerTicker call.slot call.tickerId call.limits
  if registered.1 then engine.Adds call registered.2 else engine.Untouched call.slot registered.2

/-! ### What a registration does -/

theorem registerTicker_of_not_eligible (hnot : ¬ engine.Eligible call) :
    engine.registerTicker call.slot call.tickerId call.limits = (false, engine) := by
  rw [registerTicker]
  cases hslot : engine.slots[call.slot]? with
  | none => rfl
  | some slot =>
      dsimp only
      by_cases hrefused : (findEntry slot call.tickerId).isSome ∨ slot.entries.length = cap.maxTickers
      · rw [if_pos hrefused]
      rw [if_neg hrefused]
      obtain ⟨hnew, hroom⟩ := not_or.mp hrefused
      have hbooks : ¬ (call.tickerId ∈ engine.bookTickers ∨ engine.tickers.length ≠ cap.maxTickers) :=
        fun hbooks => hnot ⟨⟨slot, hslot, mt findEntry_isSome_iff.mpr hnew, hroom⟩, hbooks⟩
      obtain ⟨hmissing, hfull⟩ := not_or.mp hbooks
      rw [findOrCreateTicker, if_neg (mt findTicker_isSome_iff.mp hmissing), if_pos (not_not.mp hfull)]

/-- The slot with a position in the ticker. -/
def addPosition (slot : EngineSlot S F cap) (ticker : TickerId) : EngineSlot S F cap :=
  { slot with om := { slot.om with
    pnl := { slot.om.pnl with entries := slot.om.pnl.entries ++ [{ tickerId := ticker }] } } }

/-- The slot with the ticker in all its tables. -/
def addTicker (slot : EngineSlot S F cap) (ticker : TickerId) (limits : RiskLimits) :
    EngineSlot S F cap :=
  let slot := addPosition slot ticker
  { slot with
    om := { slot.om with risk := { slot.om.risk with
      tickers := slot.om.risk.tickers ++ [⟨ticker, limits⟩] } }
    entries := slot.entries ++ [⟨ticker, FeatureEngine.fresh⟩] }

theorem slotTickers_addTicker (slot : EngineSlot S F cap) (ticker : TickerId) (limits : RiskLimits) :
    slotTickers (addTicker slot ticker limits) = (slotTickers slot).map (· ++ [ticker]) := by
  simp [slotTickers, addTicker, addPosition]

/-- By the time the limits are looked at, the ticker has a book and a position. -/
theorem registerTicker_of_eligible (haligned : engine.Aligned) (heligible : engine.Eligible call) :
    ∃ (slot : EngineSlot S F cap) (created : TradeEngine S F π cap),
      engine.slots[call.slot]? = some slot ∧ call.tickerId ∉ slot.entries.map Entry.tickerId
      ∧ created.slots = engine.slots ∧ created.bookTickers.Nodup ∧ call.tickerId ∈ created.bookTickers
      ∧ engine.registerTicker call.slot call.tickerId call.limits =
        if 0 ≤ call.limits.maxAbsPosition ∧ 0 ≤ call.limits.maxOrderNotional then
          (true, created.setSlot call.slot (addTicker slot call.tickerId call.limits))
        else (false, created.setSlot call.slot (addPosition slot call.tickerId)) := by
  obtain ⟨⟨slot, hslot, hnew, hroom⟩, hbooks⟩ := heligible
  obtain ⟨created, hcreate, hslots, hnodup, hbook⟩ := exists_findOrCreateTicker haligned.books hbooks
  obtain ⟨-, hpnl, hrisk⟩ := haligned.slot_tickers hslot
  refine ⟨slot, created, hslot, hnew, hslots, hnodup, hbook, ?_⟩
  have hpnlLength : slot.om.pnl.entries.length = slot.entries.length := by
    simpa using congrArg List.length hpnl
  have hriskLength : slot.om.risk.tickers.length = slot.entries.length := by
    simpa using congrArg List.length hrisk
  have hposition := pnl_registerTicker_of_new (hpnl.symm ▸ hnew) (hpnlLength.symm ▸ hroom)
  have hunrefused : ¬ ((findEntry slot call.tickerId).isSome ∨ slot.entries.length = cap.maxTickers) :=
    not_or.mpr ⟨mt findEntry_isSome_iff.mp hnew, hroom⟩
  simp only [registerTicker, hslot, if_neg hunrefused, hcreate, hposition]
  by_cases hlimits : 0 ≤ call.limits.maxAbsPosition ∧ 0 ≤ call.limits.maxOrderNotional
  · rw [if_pos hlimits, risk_registerTicker_of_new hlimits (hrisk.symm ▸ hnew) (hriskLength.symm ▸ hroom)]
    rfl
  · have hnegative : call.limits.maxAbsPosition < 0 ∨ call.limits.maxOrderNotional < 0 := by
      omega
    rw [if_neg hlimits, risk_registerTicker_of_negative hnegative]
    rfl

omit [ObjectPool π] in
theorem Aligned.addTicker (haligned : engine.Aligned) {created : TradeEngine S F π cap} {index : Nat}
    (hslot : engine.slots[index]? = some slot) (hnew : ticker ∉ slot.entries.map Entry.tickerId)
    (hslots : created.slots = engine.slots) (hbooks : created.bookTickers.Nodup)
    (limits : RiskLimits) :
    (created.setSlot index (TradeEngine.addTicker slot ticker limits)).Aligned := by
  refine ⟨hbooks, fun other hmem => ?_⟩
  rcases List.mem_or_eq_of_mem_set hmem with hold | rfl
  · rw [hslots] at hold
    exact haligned.slots other hold
  · obtain ⟨hnodup, hpnl, hrisk⟩ := haligned.slot_tickers hslot
    refine ⟨slot.entries.map Entry.tickerId ++ [ticker], ?_, ?_⟩
    · rw [← List.concat_eq_append]
      exact hnodup.concat hnew
    · rw [slotTickers_addTicker, slotTickers, hpnl, hrisk]
      rfl

theorem aligned_register (haligned : engine.Aligned) (hvetted : engine.Vetted call) :
    (engine.register call).Aligned := by
  rw [register]
  by_cases heligible : engine.Eligible call
  · obtain ⟨slot, created, hslot, hnew, hslots, hbooks, -, heq⟩ :=
      registerTicker_of_eligible haligned heligible
    rw [heq, if_pos (hvetted heligible)]
    exact haligned.addTicker hslot hnew hslots hbooks call.limits
  · rw [registerTicker_of_not_eligible heligible]
    exact haligned

/-- Where the tables agree, only the limits decide whether a registration is atomic. -/
theorem atomic_iff_vetted (haligned : engine.Aligned) : engine.Atomic call ↔ engine.Vetted call := by
  rw [Atomic]
  by_cases heligible : engine.Eligible call
  · obtain ⟨slot, created, hslot, hnew, hslots, hbooks, hbook, heq⟩ :=
      registerTicker_of_eligible haligned heligible
    rw [heq]
    by_cases hlimits : 0 ≤ call.limits.maxAbsPosition ∧ 0 ≤ call.limits.maxOrderNotional
    · rw [if_pos hlimits]
      refine iff_of_true ⟨⟨slot, _, hslot, ?_, ?_, slotTickers_addTicker slot call.tickerId call.limits⟩, ?_⟩
        fun _ => hlimits
      · rw [setSlot, hslots]
      · obtain ⟨-, hpnl, hrisk⟩ := haligned.slot_tickers hslot
        simpa [slotTickers, hpnl, hrisk] using hnew
      · exact List.count_eq_one_of_mem hbooks hbook
    · rw [if_neg hlimits]
      refine iff_of_false (fun huntouched => ?_) fun hvetted => hlimits (hvetted heligible)
      have hindex : call.slot < engine.slots.length := (List.getElem?_eq_some_iff.mp hslot).1
      have hset : (created.setSlot call.slot (addPosition slot call.tickerId)).slots[call.slot]? =
          some (addPosition slot call.tickerId) := by
        rw [setSlot, hslots]
        exact List.getElem?_set_self hindex
      have htables := Untouched.slot huntouched
      rw [hset, hslot] at htables
      have hlength := congrArg (fun tables => tables.1.entries.length) (Option.some.inj htables)
      simp [addPosition] at hlength
  · rw [registerTicker_of_not_eligible heligible]
    exact iff_of_true ⟨rfl, rfl⟩ fun helig => absurd helig heligible

omit [ObjectPool π] [FeatureEngine F] in
theorem aligned_init (strategy : S) (slotCount maxSlots requestCapacity : Nat) :
    (init strategy slotCount maxSlots requestCapacity : TradeEngine S F π cap).Aligned := by
  refine ⟨List.nodup_nil, fun slot hmem => ⟨[], List.nodup_nil, ?_⟩⟩
  obtain ⟨index, -, rfl⟩ := List.mem_map.mp hmem
  rfl

/-- **Registration is atomic** in every call of a run, and the tables of every slot agree after each of
them, exactly if no call with nothing else in its way has negative limits. -/
theorem registerTicker_atomic_iff (strategy : S) (slotCount maxSlots requestCapacity : Nat)
    (calls : List Registration) :
    let start : TradeEngine S F π cap := init strategy slotCount maxSlots requestCapacity
    (Run.Along (Run.total register) Atomic start calls
        ∧ ∀ calls', calls' <+: calls → (calls'.foldl register start).Aligned)
      ↔ Run.Along (Run.total register) Vetted start calls := by
  intro start
  have hstart : start.Aligned := aligned_init strategy slotCount maxSlots requestCapacity
  have hiff : Run.Along (Run.total register) Atomic start calls
      ↔ Run.Along (Run.total register) Vetted start calls := by
    refine Run.along_congr Aligned (fun engine call after haligned hvetted hafter => ?_)
      (fun engine call => atomic_iff_vetted) hstart
    obtain rfl := Option.some.inj hafter
    exact aligned_register haligned hvetted
  constructor
  · rintro ⟨hatomic, -⟩
    exact hiff.mp hatomic
  · intro hvetted
    refine ⟨hiff.mpr hvetted, ?_⟩
    rintro calls' ⟨rest, rfl⟩
    exact Run.invariant_total Aligned (fun engine call => aligned_register) hstart
      (Run.along_total_append.mp hvetted).1

/-- An engine with room for one ticker. -/
def narrowEngine : TradeEngine LiquidityTaker TradingFeatures FreeListPool ⟨1, 64, 256⟩ :=
  init { orderQty := 10, entryImbalance := 300000 } 1 4 16

/-- **A refused registration takes the only place**: the book and the position stay behind, and the
next ticker, which could be registered before, is refused too. -/
theorem negativeLimits_leave_book :
    narrowEngine.bookTickers = [] ∧ (narrowEngine.registerTicker 0 8 ⟨100, 10, 1000⟩).1 = true
      ∧ (narrowEngine.registerTicker 0 7 ⟨-1, 10, 1000⟩).1 = false
      ∧ (narrowEngine.register ⟨0, 7, ⟨-1, 10, 1000⟩⟩).bookTickers = [7]
      ∧ (narrowEngine.register ⟨0, 7, ⟨-1, 10, 1000⟩⟩).slots.map slotTickers = [[[], [7], []]]
      ∧ ((narrowEngine.register ⟨0, 7, ⟨-1, 10, 1000⟩⟩).registerTicker 0 8 ⟨100, 10, 1000⟩).1 = false := by
  decide

end TradeEngine

end AlphaTrader
