import AlphaTrader.Proof.FillPrice
import AlphaTrader.Proof.PositionBounds
import AlphaTrader.Proof.RequestEncoding
import AlphaTrader.Proof.Settlement

/-!
# Settlement in all slots of an engine

The orders of all slots go to one venue, and its reports come back through one queue. An engine whose
strategies send new orders only keeps, in each slot, the books of the tickets that carry the slot in their
ids: a turn of one slot opens or moves tickets of that slot, and is nothing but an id drawn for the others.
-/

namespace AlphaTrader

/-! ### The tickets of all slots -/

namespace Ticket

variable {ticket : Ticket} {tickets : List Ticket} {response : OrderResponse}

/-- The slot that the id of an order names. -/
def slot (ticket : Ticket) : Nat := (ticket.id >>> OrderIdAllocator.counterBits).toNat

def ofSlot (index : Nat) (tickets : List Ticket) : List Ticket :=
  tickets.filter fun ticket => ticket.slot = index

/-- A report goes to the ticket of its order. -/
def book (tickets : List Ticket) (response : OrderResponse) : List Ticket :=
  tickets.map fun ticket => if ticket.id = response.clientOrderId then ticket.report response else ticket

/-- The reports that may come for an order, whatever the positions can take. -/
def Allows (ticket : Ticket) (response : OrderResponse) : Prop :=
  ticket.closed = false ∧
    match response.status with
    | .accepted | .rejected => True
    | .executed =>
        response.executedQty ≠ 0
          ∧ ticket.filled + response.executedQty.toNat ≤ ticket.qty.toNat
          ∧ response.executionPrice ≠ priceInvalid
    | .canceled => ticket.filled + response.canceledQty.toNat = ticket.qty.toNat
    | .cancelRejected => False

instance (ticket : Ticket) : (response : OrderResponse) → Decidable (ticket.Allows response)
  | ⟨_, _, _, _, _, _, _, _, .accepted⟩ => inferInstanceAs (Decidable (_ ∧ True))
  | ⟨_, _, _, _, _, _, _, _, .rejected⟩ => inferInstanceAs (Decidable (_ ∧ True))
  | ⟨_, _, _, _, _, _, _, _, .executed⟩ => inferInstanceAs (Decidable (_ ∧ _ ∧ _ ∧ _))
  | ⟨_, _, _, _, _, _, _, _, .canceled⟩ => inferInstanceAs (Decidable (_ ∧ _ = _))
  | ⟨_, _, _, _, _, _, _, _, .cancelRejected⟩ => inferInstanceAs (Decidable (_ ∧ False))

/-- The venue reports on one of the tickets. -/
def Reports (tickets : List Ticket) (response : OrderResponse) : Prop :=
  ∃ ticket ∈ tickets, ticket.id = response.clientOrderId ∧ ticket.Allows response

instance (tickets : List Ticket) (response : OrderResponse) : Decidable (Reports tickets response) :=
  inferInstanceAs (Decidable (∃ ticket ∈ tickets, _))

theorem ids_book (tickets : List Ticket) (response : OrderResponse) :
    (book tickets response).map id = tickets.map id := by
  rw [book, List.map_map]
  apply List.map_congr_left
  intro ticket _
  rw [Function.comp_apply]
  split
  · exact ticket.report_id response
  · rfl

theorem ids_foldl_book (tickets : List Ticket) (responses : List OrderResponse) :
    (responses.foldl book tickets).map id = tickets.map id := by
  induction responses generalizing tickets with
  | nil => rfl
  | cons response responses ih => rw [List.foldl_cons, ih, ids_book]

theorem foldl_book_append (tickets more : List Ticket) (responses : List OrderResponse) :
    responses.foldl book (tickets ++ more) = responses.foldl book tickets ++ responses.foldl book more := by
  induction responses generalizing tickets more with
  | nil => rfl
  | cons response responses ih =>
      rw [List.foldl_cons, List.foldl_cons, List.foldl_cons, book, List.map_append]
      exact ih _ _

/-- A report on another order changes nothing. -/
theorem book_of_not_mem (hfresh : response.clientOrderId ∉ tickets.map id) : book tickets response = tickets := by
  have hsame : ∀ ticket ∈ tickets,
      (if ticket.id = response.clientOrderId then ticket.report response else ticket) = ticket := by
    intro ticket hmem
    rw [if_neg]
    intro hid
    exact hfresh (hid ▸ List.mem_map_of_mem hmem)
  rw [book, List.map_congr_left hsame, List.map_id']

theorem ofSlot_append (index : Nat) (tickets more : List Ticket) :
    ofSlot index (tickets ++ more) = ofSlot index tickets ++ ofSlot index more :=
  List.filter_append ..

theorem ofSlot_book (index : Nat) (tickets : List Ticket) (response : OrderResponse) :
    ofSlot index (book tickets response) = book (ofSlot index tickets) response := by
  rw [ofSlot, book, List.filter_map, ofSlot, book]
  refine congrArg (List.map _) (List.filter_congr fun ticket _ => decide_eq_decide.mpr ?_)
  dsimp only [slot]
  split
  · rw [report_id]
  · rfl

theorem mem_ofSlot {index : Nat} : ticket ∈ ofSlot index tickets ↔ ticket ∈ tickets ∧ ticket.slot = index := by
  rw [ofSlot, List.mem_filter, decide_eq_true_eq]

theorem Reports.append (hreports : Reports tickets response) (more : List Ticket) :
    Reports (tickets ++ more) response := by
  obtain ⟨ticket, hmem, hticket⟩ := hreports
  exact ⟨ticket, List.mem_append_left _ hmem, hticket⟩

theorem Reports.mem_ids (hreports : Reports tickets response) : response.clientOrderId ∈ tickets.map id := by
  obtain ⟨ticket, hmem, hid, -⟩ := hreports
  exact hid ▸ List.mem_map_of_mem hmem

/-- Reports that are due stay due when orders are added. -/
theorem along_reports_append {responses : List OrderResponse}
    (halong : Run.Along (Run.total book) Reports tickets responses) (more : List Ticket) :
    Run.Along (Run.total book) Reports (tickets ++ more) responses := by
  induction responses generalizing tickets more with
  | nil => trivial
  | cons response responses ih =>
      obtain ⟨hreports, hrest⟩ := halong
      refine ⟨hreports.append more, fun tickets' htickets' => ?_⟩
      obtain rfl := Option.some.inj htickets'
      rw [book, List.map_append]
      exact ih (hrest _ rfl) _

/-- Reports that are due do not concern orders that are added. -/
theorem foldl_book_of_disjoint {responses : List OrderResponse} {more : List Ticket}
    (halong : Run.Along (Run.total book) Reports tickets responses)
    (hdisjoint : (tickets.map id).Disjoint (more.map id)) : responses.foldl book more = more := by
  induction responses generalizing tickets with
  | nil => rfl
  | cons response responses ih =>
      obtain ⟨hreports, hrest⟩ := halong
      rw [List.foldl_cons, book_of_not_mem (hdisjoint hreports.mem_ids)]
      exact ih (hrest _ rfl) (by rwa [ids_book])

end Ticket

/-! ### A desk in order -/

/-- What a response does not touch. -/
theorem Slot.onOrderResponse_counters {cap : Capacity} (s : Slot cap) (response : OrderResponse) :
    (s.onOrderResponse response).2.newOrders = s.newOrders ∧ (s.onOrderResponse response).2.cancels = s.cancels
      ∧ (s.onOrderResponse response).2.replaces = s.replaces
      ∧ (s.onOrderResponse response).2.orders.length = s.orders.length := by
  simp only [onOrderResponse, onExecuted, onCanceled, setOrder]
  repeat' split
  all_goals exact ⟨rfl, rfl, rfl, by simp⟩

namespace Desk

variable {cap : Capacity} {s : Slot cap} {d : Desk cap} {op : Slot.Op} {tickets : List Ticket}

/-- The books follow the tickets, the counters count them, and no table outgrows the reservations. -/
structure Orderly (d : Desk cap) : Prop extends d.Settling where
  newOrders : d.slot.newOrders = d.tickets.length
  cancels : d.slot.cancels = 0
  replaces : d.slot.replaces = 0
  pendingRoom : d.slot.risk.pending.length ≤ cap.maxPendingOrders
  orderRoom : d.slot.orders.length ≤ cap.maxPendingOrders

/-- An order is appended only where all recorded orders are live, and each of these is reserved. -/
theorem Orderly.length_placeOrder (horderly : d.Orderly) (order : OMOrder)
    (hroom : d.slot.risk.pending.length ≠ cap.maxPendingOrders) :
    (d.slot.placeOrder d.slot.allocSlot order).length ≤ cap.maxPendingOrders := by
  unfold Slot.placeOrder
  split
  case isFalse =>
      rw [List.length_set]
      exact horderly.orderRoom
  case isTrue hend =>
      have hlive : ∀ order ∈ d.slot.orders, order.state.Live := by
        intro order hmem
        have hopen := List.findIdx_eq_length.mp hend order hmem
        exact (horderly.matched.settled order hmem).resolve_right (by simpa using hopen)
      have hcount : d.slot.orders.length = d.slot.risk.pending.length := by
        have hcounts := horderly.matched.corresponds.counts
        rwa [Slot.activeCount, List.countP_eq_length.mpr (by simpa using hlive)] at hcounts
      have hpending := horderly.pendingRoom
      rw [List.length_append, List.length_singleton]
      omega

/-- Operations that open no ticket. -/
theorem Orderly.of_kept {d' : Desk cap} (horderly : d.Orderly) (hsettling : d'.Settling)
    (hnewOrders : d'.slot.newOrders = d.slot.newOrders) (htickets : d'.tickets.length = d.tickets.length)
    (hcancels : d'.slot.cancels = d.slot.cancels) (hreplaces : d'.slot.replaces = d.slot.replaces)
    (hpending : d'.slot.risk.pending.length ≤ d.slot.risk.pending.length)
    (horders : d'.slot.orders.length = d.slot.orders.length) : d'.Orderly where
  toSettling := hsettling
  newOrders := by rw [hnewOrders, htickets, horderly.newOrders]
  cancels := hcancels.trans horderly.cancels
  replaces := hreplaces.trans horderly.replaces
  pendingRoom := hpending.trans horderly.pendingRoom
  orderRoom := horders ▸ horderly.orderRoom

/-- **A step** keeps the desk in order. -/
theorem orderly_step (horderly : d.Orderly) (hioc : d.ImmediateOrCancel op) : (d.step op).Orderly := by
  have hsettling := settling_step horderly.toSettling hioc
  cases op with
  | sendNewOrder request position room =>
      rcases Slot.sendNewOrder_cases (s := d.slot) request position room with
        ⟨hrefused, huntouched⟩ | ⟨limits, before, evicted, after, hpassed, -, -, hsent⟩
      · have hrest := huntouched.rest
        refine horderly.of_kept hsettling (congrArg (fun s => s.newOrders) hrest) ?_
          (congrArg (fun s => s.cancels) hrest) (congrArg (fun s => s.replaces) hrest)
          (congrArg (fun s => s.risk.pending.length) hrest).le (congrArg (fun s => s.orders.length) hrest)
        simp [step, hrefused]
      · have horders := Ledger.orders_sendNewOrder (congrArg Prod.fst hsent)
        have hslot : (d.step (.sendNewOrder request position room)).slot = d.slot.placed request before after := by
          simp [step, Slot.step, Slot.apply, hsent]
        have htickets : (d.step (.sendNewOrder request position room)).tickets.length = d.tickets.length + 1 := by
          simp [step, hsent]
        have hroom := horderly.pendingRoom
        have hfree := hpassed.room
        refine ⟨hsettling, ?_, ?_, ?_, ?_, ?_⟩
        · rw [htickets, hslot, ← horderly.newOrders]
          rfl
        · rw [hslot]
          exact horderly.cancels
        · rw [hslot]
          exact horderly.replaces
        · rw [hslot, Slot.placed, List.length_append, List.length_singleton]
          omega
        · rw [hsent] at horders
          rw [hslot, horders]
          exact horderly.length_placeOrder _ hfree
  | sendCancel => exact hioc.2.elim
  | sendReplace => exact hioc.2.elim
  | onOrderResponse response =>
      obtain ⟨hnewOrders, hcancels, hreplaces, horders⟩ := d.slot.onOrderResponse_counters response
      refine horderly.of_kept hsettling hnewOrders (by simp [step]) hcancels hreplaces ?_ horders
      rcases (d.slot.effect_step (.onOrderResponse response)).narrows_or_submitted with
        hnarrows | ⟨request, position, room, limits, hop, -⟩
      · exact hnarrows.count
      · cases hop
  | onMark ticker price =>
      have hkept : ∃ pnl, d.slot.step (.onMark ticker price) = { d.slot with pnl := pnl } := by
        rw [Slot.step, Slot.apply]
        split
        · exact ⟨_, rfl⟩
        · exact ⟨_, rfl⟩
      obtain ⟨pnl, hkept⟩ := hkept
      exact horderly.of_kept hsettling (congrArg (fun s => s.newOrders) hkept) rfl
        (congrArg (fun s => s.cancels) hkept) (congrArg (fun s => s.replaces) hkept)
        (congrArg (fun s => s.risk.pending.length) hkept).le (congrArg (fun s => s.orders.length) hkept)
  | disableTrading => exact horderly.of_kept hsettling rfl rfl rfl rfl le_rfl rfl
  | enableTrading => exact horderly.of_kept hsettling rfl rfl rfl rfl le_rfl rfl
  | otherSlot => exact horderly.of_kept hsettling rfl rfl rfl rfl le_rfl rfl

theorem Orderly.withOutgoing (horderly : Orderly ⟨s, tickets⟩) (outgoing : List OrderRequest) :
    Orderly ⟨s.withOutgoing outgoing, tickets⟩ where
  matched :=
    { counter_pos := horderly.matched.counter_pos
      issued := horderly.matched.issued
      distinct := horderly.matched.distinct
      settled := horderly.matched.settled
      pendingIssued := horderly.matched.pendingIssued
      pendingDistinct := horderly.matched.pendingDistinct
      matched := horderly.matched.matched
      unfilled := horderly.matched.unfilled }
  owed := horderly.owed
  distinct := horderly.distinct
  issued := horderly.issued
  unfilled := horderly.unfilled
  registered := horderly.registered
  known := horderly.known
  filledQty := horderly.filledQty
  netQty := horderly.netQty
  newOrders := horderly.newOrders
  cancels := horderly.cancels
  replaces := horderly.replaces
  pendingRoom := horderly.pendingRoom
  orderRoom := horderly.orderRoom

/-- A turn of another slot draws at most one id. -/
theorem Orderly.aside (horderly : Orderly ⟨s, tickets⟩) {allocator : OrderIdAllocator}
    (hfits : s.CounterFits ∨ allocator.counter = s.allocator.counter)
    (hallocator : allocator = s.allocator ∨ ∃ slot, allocator = (s.allocator.next slot).2)
    (outgoing : List OrderRequest) :
    Orderly ⟨{ s with allocator := allocator, outgoing := outgoing }, tickets⟩ := by
  rcases hallocator with rfl | ⟨slot, rfl⟩
  · exact horderly.withOutgoing outgoing
  · have hother : ImmediateOrCancel ⟨s, tickets⟩ (.otherSlot slot) := ⟨hfits, trivial⟩
    exact (orderly_step horderly hother).withOutgoing outgoing

end Desk

/-! ### Strategies -/

/-- A strategy has sent a new order, or nothing. -/
def Slot.SendsOne {cap : Capacity} (om om' : Slot cap) : Prop :=
  om' = om ∨ ∃ request position room, om' = om.step (.sendNewOrder request position room)

/-- The hooks of a strategy send at most one new order, and do nothing else to the order manager. -/
structure Strategy.SendsOne (S F : Type) (cap : Capacity) [Strategy S F cap] : Prop where
  onBookUpdate : ∀ {π : Type} (hasRoom : List OrderRequest → Bool) (strategy : S) (entry : Entry F)
    (book : MarketOrderBook π) (update : MarketUpdate) (om : Slot cap),
    om.SendsOne (Strategy.onBookUpdate hasRoom strategy entry book update om).2.2
  onTrade : ∀ {π : Type} (hasRoom : List OrderRequest → Bool) (strategy : S) (entry : Entry F)
    (book : MarketOrderBook π) (update : MarketUpdate) (om : Slot cap),
    om.SendsOne (Strategy.onTrade hasRoom strategy entry book update om).2.2

namespace TradeEngine

variable {S F π : Type} {cap : Capacity} {engine engine' : TradeEngine S F π cap} {index : Nat}
  {slot slot' : EngineSlot S F cap} {om : Slot cap} {op : Slot.Op} {booked : List Ticket}

/-- One slot works, and the others only see what they share with it. -/
structure Turn (index : Nat) (op : Slot.Op) (engine engine' : TradeEngine S F π cap) : Prop where
  orders : ∀ i, engine'.orders i = (engine.orders i).map fun om =>
    if i = index then om.step op
    else { om with allocator := engine'.allocator, outgoing := engine'.orderRequests }
  length : engine'.slots.length = engine.slots.length
  rejected : engine'.result.rejectedResponses = engine.result.rejectedResponses

theorem turn_handBack (hslot : engine.slots[index]? = some slot)
    (hom : slot'.om = (engine.manager slot).step op) : Turn index op engine (engine.handBack index slot') where
  orders i := by
    have hlt := (List.getElem?_eq_some_iff.mp hslot).1
    simp only [TradeEngine.orders, TradeEngine.handBack, setSlot]
    split
    case isTrue hi =>
        subst hi
        rw [List.getElem?_set_self hlt, hslot, Option.map_some, Option.map_some, Option.map_some, ← hom]
        rfl
    case isFalse hi =>
        rw [List.getElem?_set_ne (Ne.symm hi), Option.map_map]
        rfl
  length := by simp [TradeEngine.handBack, setSlot]
  rejected := rfl

theorem turn_setRisk {f : RiskManager cap → RiskManager cap}
    (hop : ∀ s : Slot cap, s.step op = { s with risk := f s.risk }) :
    Turn index op engine (engine.setRisk index f) where
  orders i := by
    unfold TradeEngine.setRisk
    split
    case h_1 hnone =>
        cases hi : engine.orders i with
        | none => rfl
        | some om =>
            rw [Option.map_some, if_neg]
            · obtain ⟨slot, -, rfl⟩ := Option.map_eq_some_iff.mp hi
              rfl
            · rintro rfl
              rw [TradeEngine.orders, hnone] at hi
              cases hi
    case h_2 slot hslot =>
        have hlt := (List.getElem?_eq_some_iff.mp hslot).1
        simp only [TradeEngine.orders, setSlot]
        split
        case isTrue hi =>
            subst hi
            rw [List.getElem?_set_self hlt, hslot, Option.map_some, Option.map_some, Option.map_some, hop]
            rfl
        case isFalse hi =>
            rw [List.getElem?_set_ne (Ne.symm hi), Option.map_map]
            rfl
  length := by
    unfold TradeEngine.setRisk
    split
    · rfl
    · simp [setSlot]
  rejected := by
    unfold TradeEngine.setRisk
    split <;> rfl

theorem Turn.own (hturn : Turn index op engine engine') (hom : engine.orders index = some om) :
    engine'.orders index = some (om.step op) := by
  rw [hturn.orders, hom, Option.map_some, if_pos rfl]

theorem shared_of_orders (hom : engine.orders index = some om) :
    om.allocator = engine.allocator ∧ om.outgoing = engine.orderRequests := by
  obtain ⟨slot, -, rfl⟩ := Option.map_eq_some_iff.mp hom
  exact ⟨rfl, rfl⟩

theorem Turn.shared (hturn : Turn index op engine engine') (hom : engine.orders index = some om) :
    engine'.allocator = (om.step op).allocator ∧ engine'.orderRequests = (om.step op).outgoing := by
  obtain ⟨hallocator, houtgoing⟩ := shared_of_orders (hturn.own hom)
  exact ⟨hallocator.symm, houtgoing.symm⟩

/-! ### Settlement -/

/-- Each slot keeps the books of its tickets, and what is on its way to the venue are new orders that the
gateway will send. -/
structure Settling (engine : TradeEngine S F π cap) (booked : List Ticket) : Prop where
  desks : ∀ index om, engine.orders index = some om → Desk.Orderly ⟨om, Ticket.ofSlot index booked⟩
  numbers : engine.NumbersSlots
  distinct : (booked.map Ticket.id).Nodup
  placed : ∀ ticket ∈ booked, ticket.slot < engine.slots.length
  requests : ∀ request ∈ engine.orderRequests, request.type = .new ∧ request.Admitted
  rejected : engine.result.rejectedResponses = 0
  few : engine.slots.length ≤ engine.allocator.slotCount ∧ engine.allocator.slotCount ≤ 65536
  counter : engine.allocator.counter.toNat ≤ 2 ^ 48

/-- What one turn keeps, if the tickets are booked as the desk of the slot books them. -/
theorem Settling.turn {booked' : List Ticket} (hsettling : engine.Settling booked)
    (hturn : Turn index op engine engine') (hom : engine.orders index = some om)
    (hioc : Desk.ImmediateOrCancel ⟨om, Ticket.ofSlot index booked⟩ op)
    (hown : Ticket.ofSlot index booked' = (Desk.step ⟨om, Ticket.ofSlot index booked⟩ op).tickets)
    (hothers : ∀ i, i ≠ index → Ticket.ofSlot i booked' = Ticket.ofSlot i booked)
    (hdistinct : (booked'.map Ticket.id).Nodup) (hplaced : ∀ ticket ∈ booked', ticket.slot < engine.slots.length)
    (hrequests : ∀ request ∈ engine'.orderRequests, request.type = .new ∧ request.Admitted) :
    engine'.Settling booked' := by
  have hshared := hturn.shared hom
  have hstarted := shared_of_orders hom
  have hdrawn := om.allocator_step op
  rw [← hshared.1, hstarted.1] at hdrawn
  have hcounter : (om.step op).allocator.counter.toNat ≤ 2 ^ 48 := by
    rcases (om.effect_step op).counter with heq | heq
    · rw [heq, hstarted.1]
      exact hsettling.counter
    · have hfits := Slot.counterFits_of_drawn hioc.1 heq
      rw [heq, Slot.counter_succ hfits]
      exact hfits
  refine ⟨?_, ?_, hdistinct, ?_, hrequests, hturn.rejected.trans hsettling.rejected, ?_, ?_⟩
  · intro i om' hom'
    rw [hturn.orders] at hom'
    obtain ⟨other, hother, rfl⟩ := Option.map_eq_some_iff.mp hom'
    split
    case isTrue hi =>
        subst hi
        obtain rfl := Option.some.inj (hom.symm.trans hother)
        rw [hown]
        exact Desk.orderly_step (hsettling.desks i om hom) hioc
    case isFalse hi =>
        have hsame := shared_of_orders hother
        rw [← hsame.1] at hdrawn
        have hfits : other.CounterFits ∨ engine'.allocator.counter = other.allocator.counter := by
          rw [Slot.CounterFits, hsame.1, hshared.1, ← hstarted.1]
          exact hioc.1
        rw [hothers i hi]
        exact (hsettling.desks i other hother).aside hfits hdrawn _
  · intro i om' hom'
    rw [hturn.orders] at hom'
    obtain ⟨other, hother, rfl⟩ := Option.map_eq_some_iff.mp hom'
    split
    · rw [(other.effect_step op).slot_eq]
      exact hsettling.numbers i other hother
    · exact hsettling.numbers i other hother
  · rw [hturn.length]
    exact hplaced
  · rw [hturn.length]
    rcases hdrawn with heq | ⟨slot, heq⟩ <;> rw [heq] <;> exact hsettling.few
  · rw [hshared.1]
    exact hcounter

/-- Marks and the kill switch. -/
def Quiet : Slot.Op → Prop
  | .onMark .. | .disableTrading | .enableTrading => True
  | _ => False

/-- **Marks and the kill switch** open no tickets and send nothing. -/
theorem Settling.quiet_turn (hsettling : engine.Settling booked) (hturn : Turn index op engine engine')
    (hom : engine.orders index = some om) (hquiet : Quiet op) :
    engine'.Settling booked ∧ engine'.allocator = engine.allocator
      ∧ engine'.orderRequests = engine.orderRequests := by
  have hshared := shared_of_orders hom
  have hkept : Desk.ImmediateOrCancel ⟨om, Ticket.ofSlot index booked⟩ op
      ∧ (Desk.step ⟨om, Ticket.ofSlot index booked⟩ op).tickets = Ticket.ofSlot index booked
      ∧ (om.step op).allocator = om.allocator ∧ (om.step op).outgoing = om.outgoing := by
    cases op with
    | onMark ticker price =>
        have hmark : (om.step (.onMark ticker price)).allocator = om.allocator
            ∧ (om.step (.onMark ticker price)).outgoing = om.outgoing := by
          simp only [Slot.step, Slot.apply]
          split <;> exact ⟨rfl, rfl⟩
        exact ⟨⟨Or.inr (congrArg OrderIdAllocator.counter hmark.1), trivial⟩, rfl, hmark⟩
    | disableTrading => exact ⟨⟨Or.inr rfl, trivial⟩, rfl, rfl, rfl⟩
    | enableTrading => exact ⟨⟨Or.inr rfl, trivial⟩, rfl, rfl, rfl⟩
    | _ => exact hquiet.elim
  obtain ⟨hioc, htickets, hallocator, houtgoing⟩ := hkept
  have hrequests : engine'.orderRequests = engine.orderRequests := by
    rw [(hturn.shared hom).2, houtgoing, hshared.2]
  refine ⟨hsettling.turn hturn hom hioc htickets.symm (fun _ _ => rfl) hsettling.distinct
    hsettling.placed ?_, ?_, hrequests⟩
  · rw [hrequests]
    exact hsettling.requests
  · rw [(hturn.shared hom).1, hallocator, hshared.1]

theorem tickerId_of_canSubmit {risk : RiskManager cap} {request : OrderRequest} {position : Position}
    (haccepted : risk.canSubmit request position = .accepted) : request.tickerId ≠ tickerIdInvalid := by
  intro hinvalid
  simp only [RiskManager.canSubmit, hinvalid, true_or, or_true, if_true] at haccepted
  split at haccepted <;> cases haccepted

/-- A request that has been sent passes the checks of the gateway. -/
theorem admitted_submission {request : OrderRequest} {position : Position} {room : Bool}
    (hsent : (om.sendNewOrder request position room).1 = true) :
    (om.submission request).type = .new ∧ (om.submission request).Admitted := by
  have haccepted : om.risk.canSubmit (om.submission request) position = .accepted := by
    unfold Slot.sendNewOrder at hsent
    dsimp only at hsent
    split at hsent
    · cases hsent
    split at hsent
    · cases hsent
    case isFalse haccepted => exact not_not.mp haccepted
  obtain ⟨limits, hpassed⟩ := RiskManager.passed_of_canSubmit haccepted
  refine ⟨hpassed.type, ?_⟩
  rw [OrderRequest.Admitted, hpassed.type]
  exact ⟨tickerId_of_canSubmit haccepted, hpassed.price⟩

/-- **A new order** opens a ticket of the slot that sends it. -/
theorem Settling.send_turn {request : OrderRequest} {position : Position} {room : Bool}
    (hsettling : engine.Settling booked)
    (hturn : Turn index (.sendNewOrder request position room) engine engine')
    (hom : engine.orders index = some om)
    (hfits : engine.allocator.counter.toNat < 2 ^ 48
      ∨ engine'.allocator.counter = engine.allocator.counter) :
    ∃ sent, engine'.orderRequests = engine.orderRequests ++ sent
      ∧ engine'.Settling (booked ++ sent.map Ticket.ofRequest) := by
  have hshared := shared_of_orders hom
  have hioc : Desk.ImmediateOrCancel ⟨om, Ticket.ofSlot index booked⟩ (.sendNewOrder request position room) := by
    refine ⟨?_, trivial⟩
    rw [Slot.Numbered, Slot.CounterFits, hshared.1, ← (hturn.shared hom).1]
    exact hfits
  have hlt : index < engine.slots.length := by
    obtain ⟨slot, hslot, -⟩ := Option.map_eq_some_iff.mp hom
    exact (List.getElem?_eq_some_iff.mp hslot).1
  have hnumber := hsettling.numbers index om hom
  rcases Slot.sendNewOrder_cases (s := om) request position room with
    ⟨hrefused, huntouched⟩ | ⟨limits, before, evicted, after, hpassed, -, -, hsent⟩
  · have houtgoing : engine'.orderRequests = engine.orderRequests := by
      rw [(hturn.shared hom).2, ← hshared.2]
      exact huntouched.same.outgoing
    refine ⟨[], by rw [houtgoing, List.append_nil], ?_⟩
    rw [List.map_nil, List.append_nil]
    refine hsettling.turn hturn hom hioc ?_ (fun _ _ => rfl) hsettling.distinct hsettling.placed ?_
    · simp [Desk.step, hrefused]
    · rw [houtgoing]
      exact hsettling.requests
  · have hslot : (Ticket.ofRequest (om.submission request)).slot = index := by
      have hfew := hsettling.few
      rw [← hnumber, Ticket.slot]
      exact OrderIdAllocator.shiftRight_makeId (by omega) _
    have hown : Ticket.ofSlot index (booked ++ [Ticket.ofRequest (om.submission request)]) =
        Ticket.ofSlot index booked ++ [Ticket.ofRequest (om.submission request)] := by
      rw [Ticket.ofSlot_append]
      simp [Ticket.ofSlot, hslot]
    have hbooked : (Desk.step ⟨om, Ticket.ofSlot index booked⟩
        (.sendNewOrder request position room)).tickets =
          Ticket.ofSlot index booked ++ [Ticket.ofRequest (om.submission request)] := by
      simp [Desk.step, hsent]
    have houtgoing : engine'.orderRequests = engine.orderRequests ++ [om.submission request] := by
      rw [(hturn.shared hom).2, ← hshared.2, Slot.step, Slot.apply, hsent]
      rfl
    refine ⟨[om.submission request], houtgoing, ?_⟩
    rw [List.map_singleton]
    refine hsettling.turn hturn hom hioc (hown.trans hbooked.symm) ?_ ?_ ?_ ?_
    · intro i hi
      rw [Ticket.ofSlot_append]
      simp [Ticket.ofSlot, hslot, Ne.symm hi]
    · -- The id is new among those of the slot, and other slots have other ids.
      have hdesk := (Desk.orderly_step (hsettling.desks index om hom) hioc).distinct
      rw [hbooked, List.map_append, List.nodup_append] at hdesk
      rw [List.map_append]
      refine hsettling.distinct.append (List.nodup_singleton _) ?_
      rw [List.map_singleton, List.disjoint_singleton]
      intro hmem
      obtain ⟨ticket, hmem, hid⟩ := List.mem_map.mp hmem
      have hticket : ticket.slot = index := by
        rw [← hslot, Ticket.slot, Ticket.slot, hid]
      exact hdesk.2.2 _ (List.mem_map_of_mem (Ticket.mem_ofSlot.mpr ⟨hmem, hticket⟩)) _
        (List.mem_singleton.mpr rfl) hid
    · exact List.forall_mem_append.mpr ⟨hsettling.placed, List.forall_mem_singleton.mpr (hslot ▸ hlt)⟩
    · rw [houtgoing]
      exact List.forall_mem_append.mpr ⟨hsettling.requests,
        List.forall_mem_singleton.mpr (admitted_submission (congrArg Prod.fst hsent))⟩

/-! ### Responses -/

/-- The positions of the slot that a response goes to can take it. -/
def Bookable (engine : TradeEngine S F π cap) (response : OrderResponse) : Prop :=
  response.status = .executed → ∀ om ∈ engine.orders (engine.allocator.ownerOf response.clientOrderId),
    ∀ found ∈ om.find response.clientOrderId, om.pnl.InRange found.2.request.tickerId found.2.request.side
      response.executionPrice response.executedQty

instance (engine : TradeEngine S F π cap) (response : OrderResponse) : Decidable (engine.Bookable response) :=
  inferInstanceAs (Decidable (_ → ∀ om ∈ engine.orders _, ∀ found ∈ om.find _, _))

theorem turn_processResponse {response : OrderResponse}
    (hom : engine.orders (engine.allocator.ownerOf response.clientOrderId) = some om)
    (htaken : (om.onOrderResponse response).1 = true) :
    Turn (engine.allocator.ownerOf response.clientOrderId) (.onOrderResponse response) engine
      (engine.processResponse response) := by
  obtain ⟨slot, hslot, rfl⟩ := Option.map_eq_some_iff.mp hom
  have hturn : Turn (engine.allocator.ownerOf response.clientOrderId) (.onOrderResponse response) engine
      (engine.handBack (engine.allocator.ownerOf response.clientOrderId)
        { slot with om := ((engine.manager slot).onOrderResponse response).2 }) := turn_handBack hslot rfl
  have hprocess : engine.processResponse response =
      { engine.handBack (engine.allocator.ownerOf response.clientOrderId)
          { slot with om := ((engine.manager slot).onOrderResponse response).2 } with
        result := { engine.result with responses := engine.result.responses + 1 } } := by
    unfold TradeEngine.processResponse
    simp only [hslot, htaken, if_true]
  rw [hprocess]
  exact ⟨hturn.orders, hturn.length, rfl⟩

/-- **A report** goes to the slot of its ticket, which books it. -/
theorem Settling.processResponse {response : OrderResponse} (hsettling : engine.Settling booked)
    (hreports : Ticket.Reports booked response) (hbookable : engine.Bookable response) :
    (engine.processResponse response).Settling (Ticket.book booked response) := by
  obtain ⟨ticket, hmem, hid, hallows⟩ := hreports
  have hplaced := hsettling.placed ticket hmem
  have howner : engine.allocator.ownerOf response.clientOrderId = ticket.slot := by
    rw [OrderIdAllocator.ownerOf, ← hid]
    exact if_pos (hplaced.trans_le hsettling.few.1)
  obtain ⟨om, hom⟩ : ∃ om, engine.orders ticket.slot = some om :=
    ⟨_, congrArg (Option.map engine.manager) (List.getElem?_eq_getElem hplaced)⟩
  have hdesk := hsettling.desks ticket.slot om hom
  have hown : ticket ∈ Ticket.ofSlot ticket.slot booked := Ticket.mem_ofSlot.mpr ⟨hmem, rfl⟩
  have hmay : Desk.MayReport ⟨om, Ticket.ofSlot ticket.slot booked⟩ ticket response := by
    refine ⟨hallows.1, ?_⟩
    have hterms := hallows.2
    cases hstatus : response.status <;> simp only [hstatus] at hterms ⊢
    case executed =>
        obtain ⟨before, order, after, -, -, hat, -, hticker, hside, -⟩ := hdesk.exists_order hown hallows.1
        have hrange := hbookable hstatus om (by rw [howner, hom]; rfl) _ (hid ▸ hat.find_eq)
        rw [hticker, hside] at hrange
        exact ⟨hterms.1, hterms.2.1, hterms.2.2, hrange⟩
    case canceled => exact hterms
  have htaken : (om.onOrderResponse response).1 = true := hdesk.accepts hown hid hmay
  have hturn : Turn ticket.slot (.onOrderResponse response) engine (engine.processResponse response) := by
    rw [← howner]
    exact turn_processResponse (howner ▸ hom) htaken
  have hioc : Desk.ImmediateOrCancel ⟨om, Ticket.ofSlot ticket.slot booked⟩ (.onOrderResponse response) :=
    ⟨Or.inr (om.counter_onOrderResponse response), ticket, hown, hid, hmay⟩
  refine hsettling.turn hturn hom hioc (Ticket.ofSlot_book ..) ?_ ?_ ?_ ?_
  · intro i hi
    rw [Ticket.ofSlot_book]
    apply Ticket.book_of_not_mem
    intro hmem
    obtain ⟨other, hother, hsame⟩ := List.mem_map.mp hmem
    obtain ⟨-, hslot⟩ := Ticket.mem_ofSlot.mp hother
    rw [Ticket.slot, hsame, ← hid] at hslot
    exact hi hslot.symm
  · rw [Ticket.ids_book]
    exact hsettling.distinct
  · intro other hother
    obtain ⟨old, hold, rfl⟩ := List.mem_map.mp hother
    have hslot : (if old.id = response.clientOrderId then old.report response else old).slot = old.slot := by
      split
      · rw [Ticket.slot, Ticket.report_id]
        rfl
      · rfl
    rw [hslot]
    exact hsettling.placed old hold
  · rw [(engine.processResponse_shared response).2]
    exact hsettling.requests

/-! ### Updates -/

/-- The slots, the allocator and the queue are the same. -/
theorem Settling.congr (hsettling : engine.Settling booked) (horders : ∀ i, engine'.orders i = engine.orders i)
    (hallocator : engine'.allocator = engine.allocator) (hrequests : engine'.orderRequests = engine.orderRequests)
    (hlength : engine'.slots.length = engine.slots.length)
    (hrejected : engine'.result.rejectedResponses = engine.result.rejectedResponses) :
    engine'.Settling booked where
  desks index om hom := hsettling.desks index om (horders index ▸ hom)
  numbers index om hom := hsettling.numbers index om (horders index ▸ hom)
  distinct := hsettling.distinct
  placed := hlength ▸ hsettling.placed
  requests := hrequests ▸ hsettling.requests
  rejected := hrejected.trans hsettling.rejected
  few := by
    rw [hlength, hallocator]
    exact hsettling.few
  counter := hallocator ▸ hsettling.counter

/-- The gateway takes a request off the queue. -/
theorem Settling.takeRequest {request : OrderRequest} {rest : List OrderRequest}
    (hsettling : engine.Settling booked) (hrequests : engine.orderRequests = request :: rest) :
    Settling { engine with orderRequests := rest } booked where
  desks index om hom := by
    obtain ⟨slot, hslot, rfl⟩ := Option.map_eq_some_iff.mp hom
    have hdesk := hsettling.desks index _ (congrArg (Option.map engine.manager) hslot)
    exact hdesk.withOutgoing rest
  numbers index om hom := by
    obtain ⟨slot, hslot, rfl⟩ := Option.map_eq_some_iff.mp hom
    have hnumber := hsettling.numbers index _ (congrArg (Option.map engine.manager) hslot)
    exact hnumber
  distinct := hsettling.distinct
  placed := hsettling.placed
  requests := by
    have hall := hsettling.requests
    rw [hrequests] at hall
    exact (List.forall_mem_cons.mp hall).2
  rejected := hsettling.rejected
  few := hsettling.few
  counter := hsettling.counter

/-- New orders have been sent, and have their tickets. -/
def Grows (booked : List Ticket) (engine engine' : TradeEngine S F π cap) : Prop :=
  ∃ sent, engine'.orderRequests = engine.orderRequests ++ sent
    ∧ engine'.Settling (booked ++ sent.map Ticket.ofRequest)

theorem Grows.refl (hsettling : engine.Settling booked) : Grows booked engine engine :=
  ⟨[], by simp, by simpa using hsettling⟩

theorem Grows.trans {engine'' : TradeEngine S F π cap} (hgrows : Grows booked engine engine')
    (hmore : ∀ booked', engine'.Settling booked' → Grows booked' engine' engine'') :
    Grows booked engine engine'' := by
  obtain ⟨sent, hrequests, hsettling⟩ := hgrows
  obtain ⟨sent', hrequests', hsettling'⟩ := hmore _ hsettling
  refine ⟨sent ++ sent', ?_, ?_⟩
  · rw [hrequests', hrequests, List.append_assoc]
  · rw [List.map_append, ← List.append_assoc]
    exact hsettling'

/-- So many ids have been drawn at most, and there are as many slots as before. -/
structure Draws (draws : Nat) (engine engine' : TradeEngine S F π cap) : Prop where
  drawn : ∃ count ≤ draws, engine'.allocator.counter = engine.allocator.counter + UInt64.ofNat count
  slots : engine'.slots.length = engine.slots.length

theorem Draws.refl (draws : Nat) (engine : TradeEngine S F π cap) : Draws draws engine engine :=
  ⟨⟨0, Nat.zero_le _, (UInt64.add_zero _).symm⟩, rfl⟩

theorem Draws.trans {engine'' : TradeEngine S F π cap} {draws draws' : Nat}
    (hdraws : Draws draws engine engine') (hmore : Draws draws' engine' engine'') :
    Draws (draws + draws') engine engine'' := by
  obtain ⟨count, hle, hcounter⟩ := hdraws.drawn
  obtain ⟨count', hle', hcounter'⟩ := hmore.drawn
  refine ⟨⟨count + count', by omega, ?_⟩, hmore.slots.trans hdraws.slots⟩
  rw [hcounter', hcounter, UInt64.ofNat_add, UInt64.add_assoc]

/-- The counter has not come round. -/
theorem Draws.toNat_counter {draws : Nat} (hdraws : Draws draws engine engine') (hfew : draws ≤ 2 ^ 48)
    (hcounter : engine.allocator.counter.toNat ≤ 2 ^ 48) :
    ∃ count ≤ draws, engine'.allocator.counter.toNat = engine.allocator.counter.toNat + count := by
  obtain ⟨count, hle, hdrawn⟩ := hdraws.drawn
  refine ⟨count, hle, ?_⟩
  rw [hdrawn, UInt64.toNat_add, UInt64.toNat_ofNat']
  omega

/-- What the counter has room for at the end, it has room for in between. -/
theorem Draws.counter_le {engine'' : TradeEngine S F π cap} {draws draws' : Nat}
    (hdraws : Draws draws engine engine') (hmore : Draws draws' engine' engine'')
    (hfew : draws + draws' ≤ 2 ^ 48) (hcounter : engine.allocator.counter.toNat ≤ 2 ^ 48)
    (hend : engine''.allocator.counter.toNat ≤ 2 ^ 48) : engine'.allocator.counter.toNat ≤ 2 ^ 48 := by
  obtain ⟨count, hle, hcount⟩ := hdraws.toNat_counter (by omega) hcounter
  obtain ⟨count', hle', hdrawn⟩ := hmore.drawn
  rw [hdrawn, UInt64.toNat_add, UInt64.toNat_ofNat'] at hend
  omega

/-- The last id is drawn while the counter has room. -/
theorem Draws.fits (hdraws : Draws 1 engine engine') (hcounter : engine.allocator.counter.toNat ≤ 2 ^ 48)
    (hend : engine'.allocator.counter.toNat ≤ 2 ^ 48) :
    engine.allocator.counter.toNat < 2 ^ 48 ∨ engine'.allocator.counter = engine.allocator.counter := by
  obtain ⟨count, hle, hcount⟩ := hdraws.toNat_counter (by decide) hcounter
  by_cases hzero : count = 0
  · exact Or.inr (UInt64.toNat_inj.mp (by omega))
  · exact Or.inl (by omega)

theorem handBack_handBack (engine : TradeEngine S F π cap) (index : Nat) (slot slot' : EngineSlot S F cap) :
    (engine.handBack index slot).handBack index slot' = engine.handBack index slot' := by
  simp [TradeEngine.handBack, setSlot]

theorem getElem?_handBack (hslot : engine.slots[index]? = some slot) (slot' : EngineSlot S F cap) :
    (engine.handBack index slot').slots[index]? = some slot' :=
  List.getElem?_set_self (List.getElem?_eq_some_iff.mp hslot).1

/-- The mark of a position is an operation of the order manager, also where there is no price. -/
theorem mark_eq_step (om : Slot cap) (ticker : TickerId) (mark : Price) :
    { om with pnl := if mark = priceInvalid then om.pnl else (om.pnl.onMark ticker mark).getD om.pnl } =
      om.step (.onMark ticker mark) := by
  rw [Slot.step, Slot.apply]
  split
  case isTrue hinvalid =>
      have hnone : om.pnl.onMark ticker mark = none := by
        cases hfind : om.pnl.find ticker <;> simp [PnLTracker.onMark, hfind, hinvalid]
      rw [hnone]
  case isFalse => cases om.pnl.onMark ticker mark <;> rfl

/-- **A turn of a slot**: the position is marked, which the strategy then finds in the order manager. -/
theorem Grows.slot_turn {ticker : TickerId} {mark : Price} {result : StrategyRunResult}
    (hsettling : engine.Settling booked) (hslot : engine.slots[index]? = some slot)
    (hsends : ((engine.manager slot).step (.onMark ticker mark)).SendsOne slot'.om)
    (hrejected : result.rejectedResponses = engine.result.rejectedResponses)
    (hfits : engine.allocator.counter.toNat < 2 ^ 48
      ∨ slot'.om.allocator.counter = engine.allocator.counter) :
    Grows booked engine { engine.handBack index slot' with result := result } := by
  have hom : engine.orders index = some (engine.manager slot) := congrArg (Option.map engine.manager) hslot
  rcases hsends with hidle | ⟨request, position, room, hsent⟩
  · have hturn := turn_handBack hslot hidle
    obtain ⟨hmarked, -, hrequests⟩ := hsettling.quiet_turn hturn hom trivial
    refine ⟨[], by rw [List.append_nil]; exact hrequests, ?_⟩
    rw [List.map_nil, List.append_nil]
    exact hmarked.congr (fun _ => rfl) rfl rfl rfl (hrejected.trans hturn.rejected.symm)
  · let marked := engine.handBack index { slot with om := (engine.manager slot).step (.onMark ticker mark) }
    have hmark : Turn index (.onMark ticker mark) engine marked := turn_handBack hslot rfl
    have hturn : Turn index (.sendNewOrder request position room) marked (marked.handBack index slot') :=
      turn_handBack (getElem?_handBack hslot _) hsent
    obtain ⟨hmarked, hallocator, hrequests⟩ := hsettling.quiet_turn hmark hom trivial
    rw [← hallocator] at hfits
    obtain ⟨sent, hsentRequests, hsettled⟩ := hmarked.send_turn hturn (hmark.own hom) hfits
    rw [handBack_handBack] at hturn hsentRequests hsettled
    refine ⟨sent, by rw [← hrequests]; exact hsentRequests, ?_⟩
    exact hsettled.congr (fun _ => rfl) rfl rfl rfl
      (hrejected.trans (hmark.rejected.symm.trans hturn.rejected.symm))

section Updates

variable [FeatureEngine F] [Strategy S F cap]

theorem processSlotUpdate_cases (hsends : Strategy.SendsOne S F cap) (engine : TradeEngine S F π cap)
    (index : Nat) (ticker : TickerBook π) (update : MarketUpdate) :
    engine.processSlotUpdate index ticker update = engine
      ∨ ∃ slot slot' mark result, engine.slots[index]? = some slot
        ∧ ((engine.manager slot).step (.onMark ticker.tickerId mark)).SendsOne slot'.om
        ∧ result.rejectedResponses = engine.result.rejectedResponses
        ∧ engine.processSlotUpdate index ticker update =
          { engine.handBack index slot' with result := result } := by
  unfold TradeEngine.processSlotUpdate
  split
  case h_1 => exact Or.inl rfl
  case h_2 slot hslot =>
      split
      case h_1 => exact Or.inl rfl
      case h_2 place entry _ =>
          dsimp only
          rw [mark_eq_step]
          refine Or.inr ?_
          split
          case isTrue => exact ⟨slot, _, _, engine.result, hslot, Or.inl rfl, rfl, rfl⟩
          case isFalse =>
              split
              case isTrue =>
                  refine ⟨slot, _, _, _, hslot, hsends.onTrade .., ?_, rfl⟩
                  rfl
              case isFalse =>
                  refine ⟨slot, _, _, _, hslot, hsends.onBookUpdate .., ?_, rfl⟩
                  rfl

theorem draws_processSlotUpdate (hsends : Strategy.SendsOne S F cap) (engine : TradeEngine S F π cap)
    (index : Nat) (ticker : TickerBook π) (update : MarketUpdate) :
    Draws 1 engine (engine.processSlotUpdate index ticker update) := by
  rcases processSlotUpdate_cases hsends engine index ticker update with
    hsame | ⟨slot, slot', mark, result, -, hsent, -, hresult⟩
  · rw [hsame]
    exact Draws.refl 1 engine
  · have hmark : ((engine.manager slot).step (.onMark ticker.tickerId mark)).allocator = engine.allocator := by
      simp only [Slot.step, Slot.apply]
      split <;> rfl
    rw [hresult]
    refine ⟨?_, by simp [TradeEngine.handBack, setSlot]⟩
    rw [← hmark]
    rcases hsent with hidle | ⟨request, position, room, hsent⟩
    · have hkept := congrArg OrderIdAllocator.counter (congrArg Slot.allocator hidle)
      exact ⟨0, Nat.zero_le 1, hkept.trans (UInt64.add_zero _).symm⟩
    · have hallocator : ({ engine.handBack index slot' with result := result } :
          TradeEngine S F π cap).allocator = slot'.om.allocator := rfl
      rw [hallocator, hsent]
      rcases (Slot.effect_step _ (.sendNewOrder request position room)).counter with heq | heq
      · exact ⟨0, Nat.zero_le 1, heq.trans (UInt64.add_zero _).symm⟩
      · exact ⟨1, le_rfl, heq⟩

theorem Grows.processSlotUpdate (hsends : Strategy.SendsOne S F cap) (hsettling : engine.Settling booked)
    (index : Nat) (ticker : TickerBook π) (update : MarketUpdate)
    (hend : (engine.processSlotUpdate index ticker update).allocator.counter.toNat ≤ 2 ^ 48) :
    Grows booked engine (engine.processSlotUpdate index ticker update) := by
  have hfits := (draws_processSlotUpdate hsends engine index ticker update).fits hsettling.counter hend
  rcases processSlotUpdate_cases hsends engine index ticker update with
    hsame | ⟨slot, slot', mark, result, hslot, hsent, hrejected, hresult⟩
  · rw [hsame]
    exact Grows.refl hsettling
  · rw [hresult] at hfits ⊢
    exact Grows.slot_turn hsettling hslot hsent hrejected hfits

theorem draws_foldl_processSlotUpdate (hsends : Strategy.SendsOne S F cap) (indices : List Nat)
    (engine : TradeEngine S F π cap) (ticker : TickerBook π) (update : MarketUpdate) :
    Draws indices.length engine (indices.foldl (fun engine index =>
      engine.processSlotUpdate index ticker update) engine) := by
  induction indices generalizing engine with
  | nil => exact Draws.refl 0 engine
  | cons index indices ih =>
      rw [List.foldl_cons, List.length_cons, Nat.add_comm]
      exact (draws_processSlotUpdate hsends engine index ticker update).trans (ih _)

theorem Grows.foldl_processSlotUpdate (hsends : Strategy.SendsOne S F cap) (indices : List Nat)
    (ticker : TickerBook π) (update : MarketUpdate) (hsettling : engine.Settling booked)
    (hfew : indices.length ≤ 2 ^ 48)
    (hend : (indices.foldl (fun engine index => engine.processSlotUpdate index ticker update)
      engine).allocator.counter.toNat ≤ 2 ^ 48) :
    Grows booked engine (indices.foldl (fun engine index =>
      engine.processSlotUpdate index ticker update) engine) := by
  induction indices generalizing engine booked with
  | nil => exact Grows.refl hsettling
  | cons index indices ih =>
      rw [List.length_cons] at hfew
      rw [List.foldl_cons] at hend ⊢
      have hmiddle := (draws_processSlotUpdate hsends engine index ticker update).counter_le
        (draws_foldl_processSlotUpdate hsends indices _ ticker update) (by omega) hsettling.counter hend
      exact (Grows.processSlotUpdate hsends hsettling index ticker update hmiddle).trans
        fun booked' hsettling' => ih hsettling' (by omega) hend

variable [ObjectPool π]

theorem draws_processBookUpdate (hsends : Strategy.SendsOne S F cap) {update : MarketUpdate} {place : Nat}
    (hprocess : engine.processBookUpdate update place = some engine') :
    Draws engine.slots.length engine engine' := by
  obtain ⟨ticker, -, hprocess⟩ := Option.bind_eq_some_iff.mp hprocess
  obtain ⟨book, -, hprocess⟩ := Option.bind_eq_some_iff.mp hprocess
  obtain rfl := Option.some.inj hprocess
  have hbook : Draws 0 engine { engine with
      tickers := engine.tickers.set place { ticker with book := book } } :=
    ⟨⟨0, le_rfl, (UInt64.add_zero _).symm⟩, rfl⟩
  have hdraws := hbook.trans (draws_foldl_processSlotUpdate hsends (List.range engine.slots.length) _
    { ticker with book := book } update)
  rw [List.length_range, Nat.zero_add] at hdraws
  exact hdraws

theorem Grows.processBookUpdate (hsends : Strategy.SendsOne S F cap) (hsettling : engine.Settling booked)
    {update : MarketUpdate} {place : Nat} (hfew : engine.slots.length ≤ 2 ^ 48)
    (hprocess : engine.processBookUpdate update place = some engine')
    (hend : engine'.allocator.counter.toNat ≤ 2 ^ 48) : Grows booked engine engine' := by
  obtain ⟨ticker, -, hprocess⟩ := Option.bind_eq_some_iff.mp hprocess
  obtain ⟨book, -, hprocess⟩ := Option.bind_eq_some_iff.mp hprocess
  obtain rfl := Option.some.inj hprocess
  have hwritten : Settling { engine with
      tickers := engine.tickers.set place { ticker with book := book } } booked :=
    hsettling.congr (fun _ => rfl) rfl rfl rfl rfl
  exact Grows.foldl_processSlotUpdate hsends (List.range engine.slots.length) { ticker with book := book }
    update hwritten (by rw [List.length_range]; exact hfew) hend

theorem draws_foldlM_processBookUpdate (hsends : Strategy.SendsOne S F cap) {update : MarketUpdate}
    {places : List Nat}
    (hprocess : places.foldlM (fun engine => engine.processBookUpdate update) engine = some engine') :
    Draws (places.length * engine.slots.length) engine engine' := by
  induction places generalizing engine with
  | nil =>
      obtain rfl := Option.some.inj hprocess
      exact Draws.refl _ engine
  | cons place places ih =>
      rw [List.foldlM_cons] at hprocess
      obtain ⟨middle, hplace, hprocess⟩ := Option.bind_eq_some_iff.mp hprocess
      have hfirst := draws_processBookUpdate hsends hplace
      have hrest := ih hprocess
      rw [hfirst.slots] at hrest
      rw [List.length_cons, Nat.add_mul, Nat.one_mul, Nat.add_comm]
      exact hfirst.trans hrest

theorem Grows.foldlM_processBookUpdate (hsends : Strategy.SendsOne S F cap) {update : MarketUpdate}
    {places : List Nat} (hsettling : engine.Settling booked)
    (hfew : places.length * engine.slots.length ≤ 2 ^ 48)
    (hprocess : places.foldlM (fun engine => engine.processBookUpdate update) engine = some engine')
    (hend : engine'.allocator.counter.toNat ≤ 2 ^ 48) : Grows booked engine engine' := by
  induction places generalizing engine booked with
  | nil =>
      obtain rfl := Option.some.inj hprocess
      exact Grows.refl hsettling
  | cons place places ih =>
      rw [List.length_cons, Nat.add_mul, Nat.one_mul] at hfew
      rw [List.foldlM_cons] at hprocess
      obtain ⟨middle, hplace, hprocess⟩ := Option.bind_eq_some_iff.mp hprocess
      have hfirst := draws_processBookUpdate hsends hplace
      have hrest := draws_foldlM_processBookUpdate hsends hprocess
      rw [hfirst.slots] at hrest
      have hmiddle := hfirst.counter_le hrest (by omega) hsettling.counter hend
      refine (Grows.processBookUpdate hsends hsettling (by omega) hplace hmiddle).trans
        fun booked' hsettling' => ih hsettling' ?_ hprocess
      rw [hfirst.slots]
      omega

/-- **An update** makes every slot that has the ticker work once for each book that it reaches. -/
theorem Settling.processUpdate (hsends : Strategy.SendsOne S F cap) (hsettling : engine.Settling booked)
    {update : MarketUpdate} (hfew : engine.tickers.length * engine.slots.length ≤ 2 ^ 48)
    (hprocess : engine.processUpdate update = some engine')
    (hend : engine'.allocator.counter.toNat ≤ 2 ^ 48) : Grows booked engine engine' := by
  have hcounted : Settling { engine with
      result := { engine.result with marketUpdates := engine.result.marketUpdates + 1 } } booked :=
    hsettling.congr (fun _ => rfl) rfl rfl rfl rfl
  unfold TradeEngine.processUpdate at hprocess
  dsimp only at hprocess
  split at hprocess
  case isTrue =>
      have hrange : (List.range engine.tickers.length).length = engine.tickers.length := List.length_range
      obtain ⟨sent, hrequests, hsettled⟩ := Grows.foldlM_processBookUpdate hsends hcounted
        (by rw [hrange]; exact hfew) hprocess hend
      exact ⟨sent, hrequests, hsettled⟩
  case isFalse =>
      split at hprocess
      case h_1 =>
          obtain rfl := Option.some.inj hprocess
          exact ⟨[], by simp, by simpa using hcounted⟩
      case h_2 place _ _ =>
          obtain ⟨ticker, hticker, -⟩ := Option.bind_eq_some_iff.mp hprocess
          have hplace := (List.getElem?_eq_some_iff.mp hticker).1
          dsimp only at hplace
          have hbooks : engine.slots.length ≤ engine.tickers.length * engine.slots.length :=
            Nat.le_mul_of_pos_left _ (by omega)
          obtain ⟨sent, hrequests, hsettled⟩ := Grows.processBookUpdate hsends hcounted
            (hbooks.trans hfew) hprocess hend
          exact ⟨sent, hrequests, hsettled⟩

end Updates

/-! ### Prepared engines -/

section Prepared

variable [ObjectPool π] [FeatureEngine F]

end Prepared

end TradeEngine

end AlphaTrader
