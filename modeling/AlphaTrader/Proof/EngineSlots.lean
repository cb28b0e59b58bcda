import AlphaTrader.Proof.EngineSetup
import AlphaTrader.Proof.OrderIds
import AlphaTrader.Proof.ResponseRouting
import AlphaTrader.Trading.Features

/-!
# The slots of the engine as machines of their own

The slots of an engine share the id allocator and the request queue, and take their turns in the loops of
one thread. An engine whose strategies only use their order managers therefore runs one machine for each
slot: its operations are the responses that are routed to it, the marks, the kill switch, what its own
strategy sends, and the ids that others draw in between. What holds in every run of such a machine holds
in every slot of every engine.
-/

namespace AlphaTrader

namespace Slot

variable {cap : Capacity} {s s' : Slot cap} {op : Op} {P : Slot cap → Op → Prop}

/-! ### The queue aside -/

def withOutgoing (s : Slot cap) (outgoing : List OrderRequest) : Slot cap :=
  { s with outgoing := outgoing }

/-- What an operation pushes to the queue. -/
def sent (s : Slot cap) (op : Op) : List OrderRequest := ((s.withOutgoing []).step op).outgoing

/-- An operation appends to the queue, and does not look at it. -/
theorem step_withOutgoing (s : Slot cap) (op : Op) (outgoing : List OrderRequest) :
    (s.withOutgoing outgoing).step op = (s.step op).withOutgoing (outgoing ++ s.sent op) := by
  cases op with
  | sendNewOrder request position room =>
      simp only [step, sent, apply, sendNewOrder, withOutgoing, allocSlot, placeOrder]
      by_cases hslot : s.orders.findIdx (fun order => order.state.Finished) = cap.maxOrders
      · simp only [hslot, if_true, List.append_nil]
      by_cases haccepted : s.risk.canSubmit { request with
          clientOrderId := (s.allocator.next s.slot).1, newClientOrderId := 0 } position = .accepted
      · cases room with
        | false => simp only [hslot, haccepted, if_true, if_false, ne_eq, not_true_eq_false, Bool.false_eq_true,
            not_false_eq_true, List.append_nil]
        | true =>
            simp only [hslot, haccepted, if_false, ne_eq, not_true_eq_false]
            cases s.risk.onSubmitted { request with
              clientOrderId := (s.allocator.next s.slot).1, newClientOrderId := 0 } <;> rfl
      · simp only [hslot, haccepted, if_true, if_false, ne_eq, not_false_eq_true, List.append_nil]
  | sendCancel id qty room =>
      simp only [step, sent, apply, sendCancel, withOutgoing, find, setOrder]
      repeat' split
      all_goals simp_all
  | sendReplace id price qty room =>
      simp only [step, sent, apply, sendReplace, withOutgoing, find, setOrder]
      repeat' split
      all_goals simp_all
  | onOrderResponse response =>
      simp only [step, sent, apply, onOrderResponse, onExecuted, onCanceled, withOutgoing, find, setOrder]
      repeat' split
      all_goals simp_all
  | onMark ticker price =>
      simp only [step, sent, apply, withOutgoing]
      repeat' split
      all_goals simp_all
  | disableTrading => simp [step, sent, apply, withOutgoing]
  | enableTrading => simp [step, sent, apply, withOutgoing]
  | otherSlot slot => simp [step, sent, apply, withOutgoing]

theorem foldl_withOutgoing (s : Slot cap) (ops : List Op) (outgoing : List OrderRequest) :
    ∃ queued, ops.foldl step (s.withOutgoing outgoing) = (ops.foldl step s).withOutgoing queued := by
  induction ops generalizing s outgoing with
  | nil => exact ⟨outgoing, rfl⟩
  | cons op ops ih =>
      rw [List.foldl_cons, List.foldl_cons, step_withOutgoing]
      exact ih (s.step op) _

/-- A condition on operations that does not look at the queue. -/
def Blind (P : Slot cap → Op → Prop) : Prop := ∀ s op outgoing, P s op → P (s.withOutgoing outgoing) op

theorem Blind.along_withOutgoing (hblind : Blind P) {ops : List Op}
    (halong : Run.Along (Run.total step) P s ops) (outgoing : List OrderRequest) :
    Run.Along (Run.total step) P (s.withOutgoing outgoing) ops := by
  induction ops generalizing s outgoing with
  | nil => trivial
  | cons op ops ih =>
      obtain ⟨hP, hrest⟩ := halong
      refine ⟨hblind s op outgoing hP, fun s' hs' => ?_⟩
      obtain rfl := Option.some.inj hs'
      rw [step_withOutgoing]
      exact ih (hrest _ rfl) _

/-! ### The allocator aside -/

/-- Ids that others draw change nothing but the allocator. -/
theorem foldl_otherSlot (s : Slot cap) (slots : List Nat) :
    (slots.map Op.otherSlot).foldl step s =
      { s with allocator := slots.foldl (fun allocator slot => (allocator.next slot).2) s.allocator } := by
  induction slots generalizing s with
  | nil => rfl
  | cons slot slots ih =>
      rw [List.map_cons, List.foldl_cons, ih]
      rfl

/-- All that an operation does to the allocator is to draw an id. -/
theorem allocator_step (s : Slot cap) (op : Op) :
    (s.step op).allocator = s.allocator ∨ ∃ slot, (s.step op).allocator = (s.allocator.next slot).2 := by
  cases op with
  | sendNewOrder request position room =>
      simp only [step, apply, sendNewOrder]
      split
      · exact Or.inl rfl
      right
      use s.slot
      repeat' split
      all_goals rfl
  | sendCancel id qty room =>
      simp only [step, apply, sendCancel]
      repeat' split
      all_goals exact Or.inl rfl
  | sendReplace id price qty room =>
      simp only [step, apply, sendReplace]
      split
      case h_2 => exact Or.inl rfl
      split
      · exact Or.inl rfl
      right
      use s.slot
      repeat' split
      all_goals rfl
  | onOrderResponse response => exact Or.inl (s.onOrderResponse_shared response).1
  | onMark ticker price =>
      simp only [step, apply]
      split <;> exact Or.inl rfl
  | disableTrading => exact Or.inl rfl
  | enableTrading => exact Or.inl rfl
  | otherSlot slot => exact Or.inr ⟨slot, rfl⟩

theorem allocator_foldl (s : Slot cap) (ops : List Op) : ∃ slots : List Nat,
    (ops.foldl step s).allocator =
      slots.foldl (fun allocator slot => (allocator.next slot).2) s.allocator := by
  induction ops generalizing s with
  | nil => exact ⟨[], rfl⟩
  | cons op ops ih =>
      obtain ⟨slots, hslots⟩ := ih (s.step op)
      rcases s.allocator_step op with hsame | ⟨slot, hdrawn⟩
      · exact ⟨slots, by rw [List.foldl_cons, hslots, hsame]⟩
      · exact ⟨slot :: slots, by rw [List.foldl_cons, hslots, hdrawn, List.foldl_cons]⟩

/-! ### Machines -/

/-- One slot comes from another by operations that meet a condition, if the queue is left aside. -/
def Reaches (P : Slot cap → Op → Prop) (s s' : Slot cap) : Prop :=
  ∃ ops, Run.Along (Run.total step) P s ops ∧ s' = (ops.foldl step s).withOutgoing s'.outgoing

theorem Reaches.refl (P : Slot cap → Op → Prop) (s : Slot cap) : s.Reaches P s := ⟨[], trivial, rfl⟩

theorem Reaches.foldl (hblind : Blind P) (hreaches : s.Reaches P s') {ops : List Op}
    (halong : Run.Along (Run.total step) P s' ops) (outgoing : List OrderRequest) :
    s.Reaches P ((ops.foldl step s').withOutgoing outgoing) := by
  obtain ⟨before, hbefore, heq⟩ := hreaches
  refine ⟨before ++ ops, Run.along_total_append.mpr ⟨hbefore, ?_⟩, ?_⟩
  · have hqueue : before.foldl step s = s'.withOutgoing (before.foldl step s).outgoing := by
      rw [heq]
      rfl
    rw [hqueue]
    exact hblind.along_withOutgoing halong _
  · obtain ⟨queued, hqueued⟩ := (before.foldl step s).foldl_withOutgoing ops s'.outgoing
    rw [heq, hqueued, List.foldl_append]
    rfl

/-- **Machine rule.** What the operations keep, and what does not look at the queue, holds in every slot
that they lead to. -/
theorem Reaches.invariant (hreaches : s.Reaches P s') (Inv : Slot cap → Prop) (hinv : Inv s)
    (hstep : ∀ s op, Inv s → P s op → Inv (s.step op))
    (hqueue : ∀ s outgoing, Inv s → Inv (s.withOutgoing outgoing)) : Inv s' := by
  obtain ⟨ops, halong, heq⟩ := hreaches
  rw [heq]
  exact hqueue _ _ (Run.invariant_total Inv hstep hinv halong)

/-- The operations that a strategy has. -/
def Op.IsRequest : Op → Prop
  | .sendNewOrder .. | .sendCancel .. | .sendReplace .. => True
  | _ => False

/-- New orders are checked with the current position. -/
def Current (s : Slot cap) : Op → Prop
  | .sendNewOrder request position _ => s.pnl.get request.tickerId = some position
  | _ => True

instance (s : Slot cap) : ∀ op, Decidable (s.Current op)
  | .sendNewOrder .. => inferInstanceAs (Decidable (_ = _))
  | .sendCancel .. | .sendReplace .. | .onOrderResponse .. | .onMark .. | .disableTrading | .enableTrading
  | .otherSlot .. => isTrue trivial

end Slot

/-! ### Strategies -/

/-- The hooks of a strategy do nothing to the order manager but send requests that meet a condition. -/
structure Strategy.ActsBy (S F : Type) (cap : Capacity) [Strategy S F cap]
    (P : Slot cap → Slot.Op → Prop) : Prop where
  onBookUpdate : ∀ {π : Type} (hasRoom : List OrderRequest → Bool) (strategy : S) (entry : Entry F)
    (book : MarketOrderBook π) (update : MarketUpdate) (om : Slot cap),
    ∃ ops, (∀ op ∈ ops, op.IsRequest) ∧ Run.Along (Run.total Slot.step) P om ops
      ∧ (Strategy.onBookUpdate hasRoom strategy entry book update om).2.2 = ops.foldl Slot.step om
  onTrade : ∀ {π : Type} (hasRoom : List OrderRequest → Bool) (strategy : S) (entry : Entry F)
    (book : MarketOrderBook π) (update : MarketUpdate) (om : Slot cap),
    ∃ ops, (∀ op ∈ ops, op.IsRequest) ∧ Run.Along (Run.total Slot.step) P om ops
      ∧ (Strategy.onTrade hasRoom strategy entry book update om).2.2 = ops.foldl Slot.step om

section Strategies

variable {S F : Type} {cap : Capacity} [Strategy S F cap] {P Q : Slot cap → Slot.Op → Prop}

theorem Strategy.ActsBy.mono (hacts : Strategy.ActsBy S F cap P)
    (himp : ∀ s op, op.IsRequest → P s op → Q s op) : Strategy.ActsBy S F cap Q where
  onBookUpdate hasRoom strategy entry book update om := by
    obtain ⟨ops, hrequests, halong, hom⟩ := hacts.onBookUpdate hasRoom strategy entry book update om
    exact ⟨ops, hrequests, halong.imp_of_mem fun op hmem s => himp s op (hrequests op hmem), hom⟩
  onTrade hasRoom strategy entry book update om := by
    obtain ⟨ops, hrequests, halong, hom⟩ := hacts.onTrade hasRoom strategy entry book update om
    exact ⟨ops, hrequests, halong.imp_of_mem fun op hmem s => himp s op (hrequests op hmem), hom⟩

end Strategies

/-- The liquidity taker sends a new order with the position that it has just read, or nothing. -/
theorem LiquidityTaker.evaluate_cases {π : Type} {cap : Capacity} (hasRoom : List OrderRequest → Bool)
    (taker : LiquidityTaker) (entry : Entry TradingFeatures) (book : MarketOrderBook π) (om : Slot cap) :
    (taker.evaluate hasRoom entry book om).2 = om
      ∨ ∃ request position, om.pnl.get request.tickerId = some position
        ∧ (taker.evaluate hasRoom entry book om).2 =
          om.step (.sendNewOrder request position (hasRoom om.outgoing)) := by
  unfold evaluate
  dsimp only
  split
  · exact Or.inl rfl
  split
  · exact Or.inl rfl
  case h_2 side price _ =>
      split
      · exact Or.inl rfl
      case h_2 position hposition =>
          split
          · exact Or.inl rfl
          · exact Or.inr ⟨⟨.new, 0, 0, entry.tickerId, side, price, taker.orderQty, true⟩, position,
              hposition, rfl⟩

theorem LiquidityTaker.evaluate_acts {π : Type} {cap : Capacity} (hasRoom : List OrderRequest → Bool)
    (taker : LiquidityTaker) (entry : Entry TradingFeatures) (book : MarketOrderBook π) (om : Slot cap) :
    ∃ ops : List Slot.Op, (∀ op ∈ ops, op.IsRequest)
      ∧ Run.Along (Run.total Slot.step) Slot.Current om ops
      ∧ (taker.evaluate hasRoom entry book om).2 = ops.foldl Slot.step om := by
  rcases taker.evaluate_cases hasRoom entry book om with hidle | ⟨request, position, hposition, hsent⟩
  · exact ⟨[], by simp, trivial, hidle⟩
  · exact ⟨[.sendNewOrder request position (hasRoom om.outgoing)], by simp [Slot.Op.IsRequest],
      ⟨hposition, fun _ _ => trivial⟩, hsent⟩

theorem LiquidityTaker.actsBy_current {cap : Capacity} : Strategy.ActsBy LiquidityTaker MainFeatures cap Slot.Current where
  onBookUpdate hasRoom taker entry book _ om :=
    taker.evaluate_acts hasRoom ⟨entry.tickerId, entry.features.read⟩ book om
  onTrade hasRoom taker entry book _ om :=
    taker.evaluate_acts hasRoom ⟨entry.tickerId, entry.features.read⟩ book om

/-! ### Turns -/

namespace TradeEngine

variable {S F π : Type} {cap : Capacity} {P : Slot cap → Slot.Op → Prop}
  {engine₀ engine engine' : TradeEngine S F π cap} {index : Nat} {slot slot' : EngineSlot S F cap}

/-- What a condition has to allow, as it happens to a slot from the outside. -/
structure Admits (P : Slot cap → Slot.Op → Prop) : Prop where
  blind : Slot.Blind P
  response : ∀ s response, P s (.onOrderResponse response)
  mark : ∀ s ticker price, P s (.onMark ticker price)
  other : ∀ s slot, P s (.otherSlot slot)

theorem admits_current : Admits (Slot.Current : Slot cap → Slot.Op → Prop) where
  blind s op outgoing hcurrent := by
    cases op <;> exact hcurrent
  response _ _ := trivial
  mark _ _ _ := trivial
  other _ _ := trivial

/-- Each slot of an engine comes from the one at the same place. -/
def Refines (P : Slot cap → Slot.Op → Prop) (engine engine' : TradeEngine S F π cap) : Prop :=
  ∀ index om', engine'.orders index = some om' → ∃ om, engine.orders index = some om ∧ om.Reaches P om'

theorem Refines.refl (P : Slot cap → Slot.Op → Prop) (engine : TradeEngine S F π cap) :
    engine.Refines P engine := fun _ om hom => ⟨om, hom, .refl P om⟩

/-- **A turn of one slot** is, for the others, some ids drawn. -/
theorem Refines.handBack (hadmits : Admits P) (hrefines : engine₀.Refines P engine)
    (hslot : engine.slots[index]? = some slot) {ops : List Slot.Op}
    (halong : Run.Along (Run.total Slot.step) P (engine.manager slot) ops)
    (hom : slot'.om = ops.foldl Slot.step (engine.manager slot)) :
    engine₀.Refines P (engine.handBack index slot') := by
  have hlt := (List.getElem?_eq_some_iff.mp hslot).1
  intro i om' hom'
  obtain ⟨slot'', hslot'', rfl⟩ := Option.map_eq_some_iff.mp hom'
  by_cases hi : i = index
  · subst hi
    obtain rfl : slot' = slot'' := by
      rw [TradeEngine.handBack, setSlot, List.getElem?_set_self hlt] at hslot''
      exact Option.some.inj hslot''
    obtain ⟨om, horders, hreaches⟩ := hrefines i _ (congrArg (Option.map engine.manager) hslot)
    refine ⟨om, horders, ?_⟩
    have hrun := hreaches.foldl hadmits.blind halong slot'.om.outgoing
    rw [← hom] at hrun
    exact hrun
  · have hsame : engine.slots[i]? = some slot'' := by
      rw [TradeEngine.handBack, setSlot, List.getElem?_set_ne (Ne.symm hi)] at hslot''
      exact hslot''
    obtain ⟨om, horders, hreaches⟩ := hrefines i _ (congrArg (Option.map engine.manager) hsame)
    obtain ⟨slots, hslots⟩ := (engine.manager slot).allocator_foldl ops
    have hothers : Run.Along (Run.total Slot.step) P (engine.manager slot'')
        (slots.map Slot.Op.otherSlot) := by
      apply Run.Along.of_forall_mem
      intro op hop s
      obtain ⟨number, -, rfl⟩ := List.mem_map.mp hop
      exact hadmits.other s number
    refine ⟨om, horders, ?_⟩
    have hrun := hreaches.foldl hadmits.blind hothers slot'.om.outgoing
    rw [Slot.foldl_otherSlot] at hrun
    have hallocator : slot'.om.allocator =
        slots.foldl (fun allocator slot => (allocator.next slot).2) engine.allocator := by
      rw [hom, hslots]
      rfl
    rw [manager, TradeEngine.handBack]
    dsimp only
    rw [hallocator]
    exact hrun

/-- Only the slots, the allocator and the queue matter. -/
theorem Refines.of_same (hrefines : engine₀.Refines P engine) (hslots : engine'.slots = engine.slots)
    (hallocator : engine'.allocator = engine.allocator) (hadmits : Admits P) :
    engine₀.Refines P engine' := by
  intro i om' hom'
  obtain ⟨slot, hslot, rfl⟩ := Option.map_eq_some_iff.mp hom'
  rw [hslots] at hslot
  obtain ⟨om, horders, hreaches⟩ := hrefines i _ (congrArg (Option.map engine.manager) hslot)
  refine ⟨om, horders, ?_⟩
  have hnone : Run.Along (Run.total Slot.step) P (engine.manager slot) [] := trivial
  have hrun := hreaches.foldl hadmits.blind hnone engine'.orderRequests
  rw [manager, hallocator]
  exact hrun

theorem Refines.processResponse (hadmits : Admits P) (hrefines : engine₀.Refines P engine)
    (response : OrderResponse) : engine₀.Refines P (engine.processResponse response) := by
  unfold TradeEngine.processResponse
  dsimp only
  split
  case h_1 => exact hrefines.of_same rfl rfl hadmits
  case h_2 slot hslot =>
      have halong : Run.Along (Run.total Slot.step) P (engine.manager slot) [.onOrderResponse response] :=
        ⟨hadmits.response _ response, fun _ _ => trivial⟩
      have hturn : engine₀.Refines P (engine.handBack (engine.allocator.ownerOf response.clientOrderId)
          { slot with om := ((engine.manager slot).onOrderResponse response).2 }) :=
        hrefines.handBack hadmits hslot halong rfl
      exact hturn.of_same rfl rfl hadmits

/-- The mark of a position as an operation of the order manager. -/
theorem mark_eq_foldl (om : Slot cap) (ticker : TickerId) (mark : Price) :
    { om with pnl := if mark = priceInvalid then om.pnl else (om.pnl.onMark ticker mark).getD om.pnl } =
      (if mark = priceInvalid then [] else [Slot.Op.onMark ticker mark]).foldl Slot.step om := by
  split
  · rfl
  · rw [List.foldl_cons, List.foldl_nil, Slot.step, Slot.apply]
    cases om.pnl.onMark ticker mark <;> rfl

section Updates

variable [FeatureEngine F] [Strategy S F cap]

theorem Refines.processSlotUpdate (hadmits : Admits P) (hacts : Strategy.ActsBy S F cap P)
    (hrefines : engine₀.Refines P engine) (index : Nat) (ticker : TickerBook π) (update : MarketUpdate) :
    engine₀.Refines P (engine.processSlotUpdate index ticker update) := by
  unfold TradeEngine.processSlotUpdate
  split
  case h_1 => exact hrefines
  case h_2 slot hslot =>
      split
      case h_1 => exact hrefines
      case h_2 place entry _ =>
          dsimp only
          rw [mark_eq_foldl]
          generalize hmarks : (if FeatureEngine.mktPrice (FeatureEngine.onMarketUpdate entry.features
            update ticker.book) = priceInvalid then [] else [Slot.Op.onMark ticker.tickerId
              (FeatureEngine.mktPrice (FeatureEngine.onMarketUpdate entry.features update ticker.book))])
            = marks
          have hmarked : Run.Along (Run.total Slot.step) P (engine.manager slot) marks := by
            apply Run.Along.of_forall_mem
            intro op hop s
            rw [← hmarks] at hop
            split at hop
            · cases hop
            · obtain rfl := List.mem_singleton.mp hop
              exact hadmits.mark ..
          split
          case isTrue => exact hrefines.handBack hadmits hslot hmarked rfl
          case isFalse =>
              split
              case isTrue =>
                  obtain ⟨ops, -, halong, hom⟩ := hacts.onTrade _ _ _ _ _ _
                  refine Refines.of_same (hrefines.handBack hadmits hslot
                    (Run.along_total_append.mpr ⟨hmarked, halong⟩) ?_) rfl rfl hadmits
                  rw [List.foldl_append]
                  exact hom
              case isFalse =>
                  obtain ⟨ops, -, halong, hom⟩ := hacts.onBookUpdate _ _ _ _ _ _
                  refine Refines.of_same (hrefines.handBack hadmits hslot
                    (Run.along_total_append.mpr ⟨hmarked, halong⟩) ?_) rfl rfl hadmits
                  rw [List.foldl_append]
                  exact hom

theorem Refines.foldl_processSlotUpdate (hadmits : Admits P) (hacts : Strategy.ActsBy S F cap P)
    (hrefines : engine₀.Refines P engine) (indices : List Nat) (ticker : TickerBook π)
    (update : MarketUpdate) : engine₀.Refines P (indices.foldl (fun engine index =>
      engine.processSlotUpdate index ticker update) engine) :=
  List.foldlRecOn indices _ hrefines fun _ hrefines index _ =>
    hrefines.processSlotUpdate hadmits hacts index ticker update

variable [ObjectPool π]

theorem Refines.processBookUpdate (hadmits : Admits P) (hacts : Strategy.ActsBy S F cap P)
    (hrefines : engine₀.Refines P engine) {update : MarketUpdate} {place : Nat}
    (hprocess : engine.processBookUpdate update place = some engine') : engine₀.Refines P engine' := by
  obtain ⟨ticker, -, hprocess⟩ := Option.bind_eq_some_iff.mp hprocess
  obtain ⟨book, -, hprocess⟩ := Option.bind_eq_some_iff.mp hprocess
  obtain rfl := Option.some.inj hprocess
  apply Refines.foldl_processSlotUpdate hadmits hacts
  exact hrefines.of_same rfl rfl hadmits

theorem Refines.processUpdate (hadmits : Admits P) (hacts : Strategy.ActsBy S F cap P)
    (hrefines : engine₀.Refines P engine) {update : MarketUpdate}
    (hprocess : engine.processUpdate update = some engine') : engine₀.Refines P engine' := by
  have hcounted : engine₀.Refines P { engine with
      result := { engine.result with marketUpdates := engine.result.marketUpdates + 1 } } :=
    hrefines.of_same rfl rfl hadmits
  unfold TradeEngine.processUpdate at hprocess
  dsimp only at hprocess
  split at hprocess
  case isTrue =>
      have hbooks : ∀ engine place engine', engine₀.Refines P engine → True →
          engine.processBookUpdate update place = some engine' → engine₀.Refines P engine' :=
        fun _ _ _ hrefines _ => hrefines.processBookUpdate hadmits hacts
      exact Run.invariant hbooks hcounted (Run.Along.of_forall_mem (fun _ _ _ => trivial) _) hprocess
  case isFalse =>
      split at hprocess
      case h_1 =>
          obtain rfl := Option.some.inj hprocess
          exact hcounted
      case h_2 => exact hcounted.processBookUpdate hadmits hacts hprocess

end Updates

/-! ### The kill switch -/

/-- A condition allows the uses of the kill switch that an action makes. -/
def Switches (P : Slot cap → Slot.Op → Prop) : Action → Prop
  | .disableTrading index => ∀ s, s.slot = index → P s .disableTrading
  | .enableTrading index => ∀ s, s.slot = index → P s .enableTrading
  | _ => True

/-- The slots are numbered by their places. -/
def NumbersSlots (engine : TradeEngine S F π cap) : Prop :=
  ∀ index om, engine.orders index = some om → om.slot = index

theorem Refines.numbersSlots (hrefines : engine₀.Refines P engine) (hnumbers : engine₀.NumbersSlots) :
    engine.NumbersSlots := by
  intro index om hom
  obtain ⟨om₀, hom₀, hreaches⟩ := hrefines index om hom
  apply hreaches.invariant (fun s => s.slot = index) (hnumbers index om₀ hom₀)
  · intro s op hslot _
    rw [(s.effect_step op).slot_eq, hslot]
  · exact fun _ _ hslot => hslot

theorem Refines.setRisk (hadmits : Admits P) (hrefines : engine₀.Refines P engine) {op : Slot.Op}
    {f : RiskManager cap → RiskManager cap}
    (hop : ∀ s : Slot cap, s.step op = { s with risk := f s.risk })
    (hP : ∀ om, engine.orders index = some om → P om op) : engine₀.Refines P (engine.setRisk index f) := by
  unfold TradeEngine.setRisk
  split
  case h_1 => exact hrefines
  case h_2 slot hslot =>
      have hmanager : P (engine.manager slot) op := hP _ (congrArg (Option.map engine.manager) hslot)
      have halong : Run.Along (Run.total Slot.step) P (engine.manager slot) [op] :=
        ⟨hmanager, fun _ _ => trivial⟩
      have hturn : engine₀.Refines P (engine.handBack index
          { slot with om := (engine.manager slot).step op }) := hrefines.handBack hadmits hslot halong rfl
      intro i om' hom'
      apply hturn i om'
      rw [← hom']
      -- The engine keeps its own allocator and queue beside what is stored in the slot.
      have hlt := (List.getElem?_eq_some_iff.mp hslot).1
      by_cases hi : i = index
      · subst hi
        simp only [orders, TradeEngine.handBack, setSlot, List.getElem?_set_self hlt, Option.map_some,
          manager, hop]
      · simp only [orders, TradeEngine.handBack, setSlot, List.getElem?_set_ne (Ne.symm hi), hop]
        rfl

variable [ObjectPool π] [FeatureEngine F] [Strategy S F cap]

/-- **A step of the engine** is a turn of its slots. -/
theorem Refines.act (hadmits : Admits P) (hacts : Strategy.ActsBy S F cap P)
    (hrefines : engine₀.Refines P engine) (hnumbers : engine.NumbersSlots) {action : Action}
    (hswitches : Switches P action) (hact : engine.act action = some engine') :
    engine₀.Refines P engine' := by
  cases action with
  | runOnce =>
      obtain rfl := Option.some.inj hact
      exact hrefines.of_same rfl rfl hadmits
  | response response =>
      obtain rfl := Option.some.inj hact
      exact hrefines.processResponse hadmits response
  | update update => exact hrefines.processUpdate hadmits hacts hact
  | takeRequest =>
      obtain rfl := Option.some.inj hact
      exact hrefines.of_same rfl rfl hadmits
  | disableTrading index =>
      obtain rfl := Option.some.inj hact
      exact hrefines.setRisk hadmits (fun _ => rfl) fun om hom => hswitches om (hnumbers index om hom)
  | enableTrading index =>
      obtain rfl := Option.some.inj hact
      exact hrefines.setRisk hadmits (fun _ => rfl) fun om hom => hswitches om (hnumbers index om hom)

/-- **A run of the engine** runs each of its slots. -/
theorem refines_run (hadmits : Admits P) (hacts : Strategy.ActsBy S F cap P)
    (hnumbers : engine₀.NumbersSlots) {actions : List Action}
    (hswitches : ∀ action ∈ actions, Switches P action)
    (hrun : actions.foldlM TradeEngine.act engine₀ = some engine) : engine₀.Refines P engine := by
  have hstep : ∀ (engine : TradeEngine S F π cap) action engine', engine₀.Refines P engine →
      Switches P action → engine.act action = some engine' → engine₀.Refines P engine' :=
    fun engine action engine' hrefines =>
      hrefines.act hadmits hacts (hrefines.numbersSlots hnumbers)
  exact Run.invariant hstep (.refl P engine₀)
    (Run.Along.of_forall_mem (fun action hmem _ => hswitches action hmem) _) hrun

/-! ### Prepared engines -/

omit [ObjectPool π] [FeatureEngine F] [Strategy S F cap] in
theorem flat_registerTicker {pnl pnl' : PnLTracker cap} {ticker : TickerId}
    (hflat : ∀ entry ∈ pnl.entries, entry.position = {}) (hregister : pnl.registerTicker ticker = some pnl') :
    ∀ entry ∈ pnl'.entries, entry.position = {} := by
  unfold PnLTracker.registerTicker at hregister
  split at hregister
  · obtain rfl := Option.some.inj hregister
    exact hflat
  · split at hregister
    · cases hregister
    · obtain rfl := Option.some.inj hregister
      simpa [or_imp, forall_and] using hflat

omit [ObjectPool π] [FeatureEngine F] [Strategy S F cap] in
theorem limits_registerTicker {risk risk' : RiskManager cap} {ticker : TickerId} {limits : RiskLimits}
    (hlimits : ∀ entry ∈ risk.tickers, 0 ≤ entry.limits.maxAbsPosition ∧ 0 ≤ entry.limits.maxOrderNotional)
    (hregister : risk.registerTicker ticker limits = some risk') :
    (∀ entry ∈ risk'.tickers, 0 ≤ entry.limits.maxAbsPosition ∧ 0 ≤ entry.limits.maxOrderNotional)
      ∧ risk'.pending = risk.pending := by
  unfold RiskManager.registerTicker at hregister
  split at hregister
  · cases hregister
  case isFalse hnonneg =>
      split at hregister
      · cases hregister
      · split at hregister
        · cases hregister
        · obtain rfl := Option.some.inj hregister
          refine ⟨fun entry hmem => ?_, rfl⟩
          rcases List.mem_append.mp hmem with hold | hadded
          · exact hlimits entry hold
          · rw [List.mem_singleton.mp hadded]
            simpa [not_or] using hnonneg

/-- The slots have not been used, and are numbered by their places. -/
structure Unused (engine : TradeEngine S F π cap) : Prop where
  counter : engine.allocator.counter = 1
  requests : engine.orderRequests = []
  result : engine.result = {}
  slots : ∀ index slot, engine.slots[index]? = some slot → (engine.manager slot).Fresh ∧ slot.om.slot = index

omit [Strategy S F cap] in
theorem unused_prepared (strategy : S) (slotCount maxSlots requestCapacity : Nat)
    (preparations : List (Preparation S)) :
    (prepared strategy slotCount maxSlots requestCapacity preparations : TradeEngine S F π cap).Unused := by
  apply prepared_invariant
  case hinit =>
      refine ⟨rfl, rfl, rfl, fun index slot hslot => ?_⟩
      obtain ⟨number, hnumber, rfl⟩ := Option.map_eq_some_iff.mp (List.getElem?_map .. ▸ hslot)
      obtain ⟨-, rfl⟩ := List.getElem?_eq_some_iff.mp hnumber
      refine ⟨⟨?_, rfl, rfl, ?_, rfl, rfl⟩, by simp⟩ <;> exact fun _ hmem => by cases hmem
  case hkept =>
      intro engine engine' hunused hprepared
      cases hprepared with
      | same => exact hunused
      | books => exact ⟨hunused.counter, hunused.requests, hunused.result, hunused.slots⟩
      | @slot ticker tickers index slot slot' _ hslot hprepares _ =>
          refine ⟨hunused.counter, hunused.requests, hunused.result, fun i slot'' hslot'' => ?_⟩
          by_cases hi : i = index
          · subst hi
            obtain rfl : slot' = slot'' := by
              dsimp only at hslot''
              rw [List.getElem?_set_self (List.getElem?_eq_some_iff.mp hslot).1] at hslot''
              exact Option.some.inj hslot''
            obtain ⟨hfresh, hnumber⟩ := hunused.slots i slot hslot
            obtain ⟨hlimits, horders, hpending, hflat, hcounter, houtgoing⟩ := hfresh
            cases hprepares with
            | position hpnl =>
                exact ⟨⟨hlimits, horders, hpending, flat_registerTicker hflat hpnl, hcounter, houtgoing⟩,
                  hnumber⟩
            | entry _ _ hpnl hrisk =>
                obtain ⟨hlimits', hpending'⟩ := limits_registerTicker hlimits hrisk
                exact ⟨⟨hlimits', horders, hpending'.trans hpending, flat_registerTicker hflat hpnl,
                  hcounter, houtgoing⟩, hnumber⟩
            | strategy => exact ⟨⟨hlimits, horders, hpending, hflat, hcounter, houtgoing⟩, hnumber⟩
          · dsimp only at hslot''
            rw [List.getElem?_set_ne (Ne.symm hi)] at hslot''
            exact hunused.slots i slot'' hslot''

omit [ObjectPool π] [FeatureEngine F] [Strategy S F cap] in
theorem Unused.orders (hunused : engine.Unused) {om : Slot cap} (hom : engine.orders index = some om) :
    om.Fresh ∧ om.slot = index := by
  obtain ⟨slot, hslot, rfl⟩ := Option.map_eq_some_iff.mp hom
  exact hunused.slots index slot hslot

/-- **The engine refines one machine for each slot.** Whatever a condition allows that covers what the
strategies send and what happens to a slot from the outside, every order manager of a running engine has
come from one that was never used, by operations that meet the condition. -/
theorem slots_refine_machines (hadmits : Admits P) (hacts : Strategy.ActsBy S F cap P) (strategy : S)
    (slotCount maxSlots requestCapacity : Nat) (preparations : List (Preparation S)) (actions : List Action)
    (hswitches : ∀ action ∈ actions, Switches P action)
    (hrun : actions.foldlM act (prepared strategy slotCount maxSlots requestCapacity preparations) =
      some engine) (index : Nat) (om : Slot cap) (hom : engine.orders index = some om) :
    ∃ om₀ : Slot cap, (prepared strategy slotCount maxSlots requestCapacity preparations :
        TradeEngine S F π cap).orders index = some om₀
      ∧ om₀.Fresh ∧ om₀.slot = index ∧ om₀.Reaches P om := by
  have hunused : (prepared strategy slotCount maxSlots requestCapacity preparations :
      TradeEngine S F π cap).Unused := unused_prepared ..
  have hrefines := refines_run hadmits hacts (fun index om hom => (hunused.orders hom).2) hswitches hrun
  obtain ⟨om₀, hom₀, hreaches⟩ := hrefines index om hom
  obtain ⟨hfresh, hslot⟩ := hunused.orders hom₀
  exact ⟨om₀, hom₀, hfresh, hslot, hreaches⟩

/-- What `main` does before the engine runs, with one ticker. -/
def takerPrepared : TradeEngine LiquidityTaker MainFeatures FreeListPool ⟨16, 64, 256⟩ :=
  prepared { orderQty := 10, entryImbalance := 300000 } 1 4 16 [.registerTicker 0 7 ⟨100, 10, 100000000⟩]

/-- Two quotes, of which the bid is the larger one. -/
def takerQuotes : List Action :=
  [.update { tickerId := 7, orderRef := 1, side := .buy, price := 100, qty := 9 },
    .update { tickerId := 7, orderRef := 2, side := .sell, price := 101, qty := 1 }]

def takerRun : List Action := takerQuotes ++ [.takeRequest, .response (Slot.execution 1 10 101)]

theorem slots_refine_machines_takerRun :
    ∃ engine om om₀, takerRun.foldlM act takerPrepared = some engine ∧ engine.orders 0 = some om
      ∧ om.pnl.netQty 7 = 10 ∧ takerPrepared.orders 0 = some om₀ ∧ om₀.Fresh ∧ om₀.slot = 0
      ∧ om₀.Reaches Slot.Current om := by
  have hrun : (takerRun.foldlM act takerPrepared).any (fun engine => (engine.orders 0).any fun om =>
      om.pnl.netQty 7 = 10) = true := by decide +kernel
  obtain ⟨engine, hrun, hcheck⟩ := (Option.any_eq_true _ _).mp hrun
  obtain ⟨om, hom, hnet⟩ := (Option.any_eq_true _ _).mp hcheck
  obtain ⟨om₀, hprepared⟩ := slots_refine_machines admits_current LiquidityTaker.actsBy_current _ 1 4 16 _
    takerRun (by simp [takerRun, takerQuotes, Switches]) hrun 0 om hom
  exact ⟨engine, om, om₀, hrun, hom, of_decide_eq_true hnet, hprepared⟩

end TradeEngine

end AlphaTrader
