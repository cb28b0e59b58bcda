import AlphaTrader.Library.Run
import AlphaTrader.Proof.ExchangeSpec
import AlphaTrader.Proof.OrderIds

/-!
# Every execution is booked

The position and the executions on their way add up to what the exchange has executed. An execution is
lost when the slot no longer has its order under the id of the report, or no longer has room for it:
because a replace has crossed it, because a partial cancel has ended the order, or because a replace
has lowered the quantity. Without these, what is open of an order on the exchange and on its way is
always backed by a live order and a reservation of the slot.
-/

namespace AlphaTrader

namespace Market

variable {cap : Capacity} {m m' : Market cap} {id : OrderId} {event : Event}

/-! ### What is due -/

/-- The orders of the exchange under the ids that the slot knows. -/
def ahead (m : Market cap) : Exchange := m.exchange.settle m.client.outgoing

/-- What is open under an id. -/
def openUnder (exchange : Exchange) (id : OrderId) : Nat := (exchange id).elim 0 ExchangeOrder.openQty

/-- The executions of an order among some reports. -/
def inFlight (id : OrderId) (reports : List Report) : Nat :=
  (reports.map fun report =>
    if report.response.status = .executed ∧ report.response.clientOrderId = id then
      report.response.executedQty.toNat
    else 0).sum

@[simp]
theorem inFlight_append (reports reports' : List Report) :
    inFlight id (reports ++ reports') = inFlight id reports + inFlight id reports' := by
  simp [inFlight]

theorem inFlight_cons (report : Report) (reports : List Report) :
    inFlight id (report :: reports) =
      (if report.response.status = .executed ∧ report.response.clientOrderId = id then
        report.response.executedQty.toNat else 0) + inFlight id reports := by
  simp [inFlight]

theorem inFlight_eq_zero {reports : List Report}
    (hnone : ∀ report ∈ reports, report.response.status = .executed →
      report.response.clientOrderId ≠ id) : inFlight id reports = 0 := by
  induction reports with
  | nil => rfl
  | cons report reports ih =>
      rw [inFlight_cons, ih fun other hmem => hnone other (by simp [hmem]), if_neg]
      rintro ⟨hstatus, hid⟩
      exact hnone report (by simp) hstatus hid

/-- What may still be executed under an id, or has been without the slot knowing. -/
def due (m : Market cap) (id : OrderId) : Nat := openUnder m.ahead id + inFlight id m.responses

/-- A live order and a reservation of the slot have room for a quantity. -/
def Backs (client : Slot cap) (id : OrderId) (qty : Nat) : Prop :=
  ∃ order ∈ client.orders, ∃ pending ∈ client.risk.pending, order.id = id
    ∧ pending.clientOrderId = id ∧ order.state.Live
    ∧ order.filledQty.toNat + qty ≤ order.request.qty.toNat ∧ qty ≤ pending.reservedQty.toNat

theorem Backs.mono {client : Slot cap} {qty qty' : Nat} (hbacks : Backs client id qty)
    (hle : qty' ≤ qty) : Backs client id qty' := by
  obtain ⟨order, hmem, pending, hpending, hid, hid', hlive, hqty, hreserved⟩ := hbacks
  exact ⟨order, hmem, pending, hpending, hid, hid', hlive, by omega, by omega⟩

theorem Backs.frame {client client' : Slot cap} {op : Slot.Op} {qty : Nat}
    (hbacks : Backs client id qty) (heffect : Slot.Effect client op client')
    (hne : op.target ≠ some id) : Backs client' id qty := by
  obtain ⟨order, hmem, pending, hpending, rfl, hid', hlive, hroom⟩ := hbacks
  exact ⟨order, heffect.mem_orders hmem hlive hne, pending,
    heffect.mem_pending hpending (hid' ▸ hne), rfl, hid', hlive, hroom⟩

/-- The response ends the order. -/
def Ends (report : Report) : Prop :=
  report.response.status = .canceled ∨ report.response.status = .rejected

/-- What relates the slot, the exchange and the channels between them. -/
structure Sound (m : Market cap) : Prop where
  keyed : m.client.Keyed
  opensFresh : m.exchange.OpensFresh m.client.outgoing
  issuedRequests : ∀ id ∈ m.client.outgoing.flatMap Exchange.created, m.client.Issued id
  issuedOrders : ∀ id order, m.exchange id = some order → m.client.Issued id
  issuedReports : ∀ report ∈ m.responses, report.response.status = .executed ∨ Ends report →
    m.client.Issued report.response.clientOrderId
  positive : ∀ report ∈ m.responses, report.response.status = .executed →
    report.response.executedQty ≠ 0
  backed : ∀ id, 0 < m.due id → Backs m.client id (m.due id)
  sameOrder : ∀ pending ∈ m.client.risk.pending, ∀ order,
    m.ahead pending.clientOrderId = some order →
      order.tickerId = pending.tickerId ∧ order.side = pending.side
  sameReport : ∀ pending ∈ m.client.risk.pending, ∀ report ∈ m.responses,
    report.response.status = .executed → report.response.clientOrderId = pending.clientOrderId →
      report.tickerId = pending.tickerId ∧ report.side = pending.side
  ended : ∀ report ∈ m.responses, Ends report →
    openUnder m.ahead report.response.clientOrderId = 0
  endedLast : m.responses.Pairwise fun report later => Ends report →
    later.response.status = .executed →
      later.response.clientOrderId ≠ report.response.clientOrderId
  conserved : ∀ ticker, m.client.pnl.netQty ticker + shares ticker m.responses =
    shares ticker m.executed

/-- Before the first operation nothing is open. -/
structure Start (m : Market cap) : Prop where
  client : m.client.Fresh
  exchange : m.exchange = fun _ => none
  responses : m.responses = []
  executed : m.executed = []

theorem Start.sound (hstart : m.Start) : m.Sound where
  keyed := hstart.client.keyed
  opensFresh := by
    rw [hstart.client.outgoing]
    exact ⟨List.nodup_nil, by simp⟩
  issuedRequests := by simp [hstart.client.outgoing]
  issuedOrders := by simp [hstart.exchange]
  issuedReports := by simp [hstart.responses]
  positive := by simp [hstart.responses]
  backed := by
    intro id hdue
    simp [due, ahead, openUnder, inFlight, hstart.client.outgoing, hstart.exchange,
      hstart.responses] at hdue
  sameOrder := by simp [hstart.client.pending]
  sameReport := by simp [hstart.client.pending]
  ended := by simp [hstart.responses]
  endedLast := by
    rw [hstart.responses]
    exact List.Pairwise.nil
  conserved := by
    intro ticker
    simp [shares, hstart.responses, hstart.executed, hstart.client.netQty]

/-! ### Conditions -/

/-- The ids that the slot draws are numbered. -/
def Numbered (m : Market cap) : Event → Prop
  | .client op => m.client.Numbered op
  | _ => True

instance (m : Market cap) : (event : Event) → Decidable (m.Numbered event)
  | .client op => inferInstanceAs (Decidable (m.client.Numbered op))
  | .process _ | .execute .. | .deliver => isTrue trivial

/-- No execution of an order crosses a replace of it, replaces do not lower the quantity, cancels are
for all that is open, the positions take every execution, and ids are numbered. -/
def Orderly (m : Market cap) (event : Event) : Prop :=
  m.Numbered event ∧
    match event with
    | .client (.sendReplace id _ qty _) =>
        ∀ found ∈ m.client.find id, Slot.Open found.2 →
          found.2.request.qty ≤ qty
            ∧ ∀ report ∈ m.responses, report.response.status = .executed →
              report.response.clientOrderId ≠ id
    | .client _ => True
    | .process (.cancel qty) =>
        ∀ request ∈ m.client.outgoing.head?, ∀ order ∈ m.exchange request.clientOrderId,
          order.openQty ≤ qty.toNat
    | .process _ => True
    | .execute id _ _ =>
        ∀ request ∈ m.client.outgoing, request.type = .replace → request.clientOrderId ≠ id
    | .deliver =>
        ∀ report ∈ m.responses.head?, report.response.status = .executed →
          m.client.pnl.onExecution report.tickerId report.side report.response.executionPrice
            report.response.executedQty ≠ none

/-! ### The exchange executes -/

theorem openUnder_update (exchange : Exchange) (value : Option ExchangeOrder) (id' : OrderId) :
    openUnder (Function.update exchange id value) id' =
      if id' = id then value.elim 0 ExchangeOrder.openQty else openUnder exchange id' := by
  unfold openUnder
  by_cases hid : id' = id
  · rw [if_pos hid, hid, Function.update_self]
  · rw [if_neg hid, Function.update_of_ne hid]

theorem shares_append (ticker : TickerId) (reports reports' : List Report) :
    shares ticker (reports ++ reports') = shares ticker reports + shares ticker reports' := by
  simp [shares]

theorem shares_cons (ticker : TickerId) (report : Report) (reports : List Report) :
    shares ticker (report :: reports) = sharesOf ticker report + shares ticker reports := by
  simp [shares]

theorem Sound.notMem_created {order : ExchangeOrder} (hsound : m.Sound)
    (hopen : m.exchange id = some order) : id ∉ m.client.outgoing.flatMap Exchange.created := by
  intro hmem
  rw [hsound.opensFresh.unused id hmem] at hopen
  cases hopen

/-- An order that no replace on its way moves stays under its id. -/
theorem Sound.ahead_eq {order : ExchangeOrder} (hsound : m.Sound) (hopen : m.exchange id = some order)
    (hstays : ∀ request ∈ m.client.outgoing, request.type = .replace → request.clientOrderId ≠ id) :
    m.ahead id = some order := by
  have hupdate : Exchange.settle (Function.update m.exchange id (m.exchange id)) m.client.outgoing =
      Function.update (m.exchange.settle m.client.outgoing) id (m.exchange id) :=
    Exchange.settle_update (hsound.notMem_created hopen) hstays (m.exchange id)
  rw [Function.update_eq_self] at hupdate
  rw [ahead, hupdate, Function.update_self, hopen]

/-- What an execution takes from what is open, it adds to what is on its way. -/
theorem Sound.due_execute {order : ExchangeOrder} {qty : Quantity} (hsound : m.Sound)
    (hopen : m.exchange id = some order) (hqty : qty.toNat ≤ order.openQty)
    (hstays : ∀ request ∈ m.client.outgoing, request.type = .replace → request.clientOrderId ≠ id)
    (price : Price) (id' : OrderId) :
    openUnder ((m.exchange.reduce id order qty.toNat).settle m.client.outgoing) id'
      + inFlight id' (m.responses ++ [executionReport id order qty price]) = m.due id' := by
  have hahead : (m.exchange.reduce id order qty.toNat).settle m.client.outgoing =
      Function.update m.ahead id (if order.openQty ≤ qty.toNat then none
        else some { order with openQty := order.openQty - qty.toNat }) :=
    Exchange.settle_update (hsound.notMem_created hopen) hstays _
  have hleft : ((if order.openQty ≤ qty.toNat then none
      else some { order with openQty := order.openQty - qty.toNat }).elim 0
        ExchangeOrder.openQty) = order.openQty - qty.toNat := by
    split
    · simp only [Option.elim_none]
      omega
    · rfl
  rw [hahead, openUnder_update, hleft, inFlight_append, inFlight_cons, due]
  by_cases hid : id' = id
  · subst hid
    simp only [if_true, executionReport, openUnder, hsound.ahead_eq hopen hstays, Option.elim_some, inFlight,
      List.map_nil, List.sum_nil, and_self]
    omega
  · simp [hid, executionReport, Ne.symm hid, inFlight]

/-- **An execution** moves from what is open to what is on its way. -/
theorem sound_execute {order : ExchangeOrder} {qty : Quantity} {price : Price} (hsound : m.Sound)
    (hopen : m.exchange id = some order) (hpositive : qty ≠ 0) (hqty : qty.toNat ≤ order.openQty)
    (hstays : ∀ request ∈ m.client.outgoing, request.type = .replace → request.clientOrderId ≠ id) :
    Sound { m with
      exchange := m.exchange.reduce id order qty.toNat
      responses := m.responses ++ [executionReport id order qty price]
      executed := m.executed ++ [executionReport id order qty price] } := by
  have hread : m.ahead id = some order := hsound.ahead_eq hopen hstays
  have hqtyPos : 0 < qty.toNat := Nat.pos_of_ne_zero fun hzero => hpositive (UInt32.toNat_inj.mp hzero)
  have hwithin := Exchange.within_reduce hopen qty.toNat
  have hahead : (m.exchange.reduce id order qty.toNat).settle m.client.outgoing =
      Function.update m.ahead id (if order.openQty ≤ qty.toNat then none
        else some { order with openQty := order.openQty - qty.toNat }) :=
    Exchange.settle_update (hsound.notMem_created hopen) hstays _
  have hends : ∀ report ∈ m.responses, Ends report → report.response.clientOrderId ≠ id := by
    rintro report hmem hends rfl
    have hzero := hsound.ended report hmem hends
    rw [openUnder, hread, Option.elim_some] at hzero
    omega
  refine
    { keyed := hsound.keyed
      opensFresh := ⟨hsound.opensFresh.nodup, fun id' hmem =>
        hwithin.eq_none (hsound.opensFresh.unused id' hmem)⟩
      issuedRequests := hsound.issuedRequests
      issuedOrders := ?_
      issuedReports := ?_
      positive := ?_
      backed := ?_
      sameOrder := ?_
      sameReport := ?_
      ended := ?_
      endedLast := ?_
      conserved := ?_ }
  · intro id' order' heq
    obtain ⟨order₀, heq₀, -⟩ := hwithin id' order' heq
    exact hsound.issuedOrders id' order₀ heq₀
  · intro report hmem hstatus
    rcases List.mem_append.mp hmem with hold | hnew
    · exact hsound.issuedReports report hold hstatus
    · obtain rfl := List.mem_singleton.mp hnew
      exact hsound.issuedOrders id order hopen
  · intro report hmem hstatus
    rcases List.mem_append.mp hmem with hold | hnew
    · exact hsound.positive report hold hstatus
    · obtain rfl := List.mem_singleton.mp hnew
      exact hpositive
  · intro id'
    have hdue := hsound.due_execute hopen hqty hstays price id'
    intro hpos
    simp only [due, ahead] at hpos ⊢
    rw [hdue] at hpos ⊢
    exact hsound.backed id' hpos
  · intro pending hmem order' heq
    simp only [ahead, hahead] at heq
    by_cases hid : pending.clientOrderId = id
    · rw [hid, Function.update_self] at heq
      split at heq
      · cases heq
      · obtain rfl := Option.some.inj heq
        exact hsound.sameOrder pending hmem order (hid ▸ hread)
    · rw [Function.update_of_ne hid] at heq
      exact hsound.sameOrder pending hmem order' heq
  · intro pending hmem report hreport hstatus hid
    rcases List.mem_append.mp hreport with hold | hnew
    · exact hsound.sameReport pending hmem report hold hstatus hid
    · obtain rfl := List.mem_singleton.mp hnew
      exact hsound.sameOrder pending hmem order (hid ▸ hread)
  · intro report hmem hend
    rcases List.mem_append.mp hmem with hold | hnew
    · simp only [ahead, hahead]
      rw [openUnder_update, if_neg (hends report hold hend)]
      exact hsound.ended report hold hend
    · obtain rfl := List.mem_singleton.mp hnew
      rcases hend with h | h <;> cases h
  · rw [List.pairwise_append]
    refine ⟨hsound.endedLast, List.pairwise_singleton _ _, ?_⟩
    intro report hmem later hlater hend _
    obtain rfl := List.mem_singleton.mp hlater
    exact Ne.symm (hends report hmem hend)
  · intro ticker
    simp only [shares_append]
    have hconserved := hsound.conserved ticker
    omega

/-! ### The exchange works on a request -/

theorem openUnder_le {exchange exchange' : Exchange} (hwithin : exchange.Within exchange')
    (id : OrderId) : openUnder exchange id ≤ openUnder exchange' id := by
  unfold openUnder
  cases heq : exchange id with
  | none => exact Nat.zero_le _
  | some order =>
      obtain ⟨order', heq', -, -, hle⟩ := hwithin id order heq
      rw [heq']
      exact hle

theorem inFlight_of_not_executed {reports : List Report}
    (hnone : ∀ report ∈ reports, report.response.status ≠ .executed) : inFlight id reports = 0 :=
  inFlight_eq_zero fun report hmem hstatus => absurd hstatus (hnone report hmem)

theorem shares_of_not_executed {reports : List Report} (ticker : TickerId)
    (hnone : ∀ report ∈ reports, report.response.status ≠ .executed) : shares ticker reports = 0 := by
  induction reports with
  | nil => rfl
  | cons report reports ih =>
      rw [shares_cons, ih fun other hmem => hnone other (by simp [hmem]), sharesOf, if_neg]
      · rfl
      · exact fun h => hnone report (by simp) h.1

/-- The orders that the exchange has after a request are those of ids that the slot has issued. -/
theorem Sound.issued_handled {request : OrderRequest} {rest : List OrderRequest} {exchange : Exchange}
    (hsound : m.Sound) (houtgoing : m.client.outgoing = request :: rest)
    (hwithin : exchange.Within (m.exchange.enroll request)) (id : OrderId) (hopen : exchange id ≠ none) :
    m.client.Issued id := by
  by_cases hmem : id ∈ Exchange.created request
  · apply hsound.issuedRequests
    simp [houtgoing, hmem]
  · obtain ⟨order, heq⟩ := Option.ne_none_iff_exists'.mp hopen
    obtain ⟨order', heq', -⟩ := hwithin id order heq
    rcases Exchange.enroll_of_notMem m.exchange hmem with hsame | hnone
    · exact hsound.issuedOrders id order' (hsame ▸ heq')
    · rw [hnone] at heq'
      cases heq'

/-- An order that a request has ended is not opened again by the requests behind it. -/
theorem Sound.ended_handled {request : OrderRequest} {rest : List OrderRequest} {exchange : Exchange}
    (hsound : m.Sound) (houtgoing : m.client.outgoing = request :: rest) (hnone : exchange id = none)
    (hcase : id ∈ Exchange.created request ∨ m.exchange id ≠ none) :
    m.client.Issued id ∧ openUnder (exchange.settle rest) id = 0 := by
  have hfresh := hsound.opensFresh
  rw [houtgoing] at hfresh
  have hnodup := hfresh.nodup
  rw [List.flatMap_cons, List.nodup_append] at hnodup
  have hnotMem : id ∉ rest.flatMap Exchange.created := by
    intro hlater
    rcases hcase with hcreated | hopen
    · exact hnodup.2.2 _ hcreated _ hlater rfl
    · exact hopen (hfresh.unused _ (by simp_all))
  refine ⟨?_, ?_⟩
  · rcases hcase with hcreated | hopen
    · apply hsound.issuedRequests
      simp [houtgoing, hcreated]
    · obtain ⟨order, heq⟩ := Option.ne_none_iff_exists'.mp hopen
      exact hsound.issuedOrders _ order heq
  · rw [openUnder, Exchange.settle_eq_none hnotMem hnone]
    rfl

/-- **A request** is worked on, and no order gets more open than the slot expects. -/
theorem sound_process {request : OrderRequest} {rest : List OrderRequest} {verdict : Verdict}
    {exchange : Exchange} {responses : List OrderResponse} (hsound : m.Sound)
    (houtgoing : m.client.outgoing = request :: rest)
    (hfull : ∀ qty, verdict = .cancel qty → ∀ order ∈ m.exchange request.clientOrderId,
      order.openQty ≤ qty.toNat)
    (hhandle : m.exchange.handle request verdict = some (exchange, responses)) :
    Sound { m with
      client := { m.client with outgoing := rest }
      exchange := exchange
      responses := m.responses ++
        responses.map fun response => ⟨response, request.tickerId, request.side⟩ } := by
  have hfresh := hsound.opensFresh
  rw [houtgoing] at hfresh
  have hissued := hsound.issuedRequests
  rw [houtgoing] at hissued
  have hnodup := hfresh.nodup
  rw [List.flatMap_cons, List.nodup_append] at hnodup
  have hunused : ∀ id ∈ Exchange.created request, m.exchange id = none := fun id hmem =>
    hfresh.unused id (by simp [hmem])
  obtain ⟨hwithin, hresponses⟩ := Exchange.handle_spec hunused hfull hhandle
  have hahead : (exchange.settle rest).Within m.ahead := by
    have hsettled := hwithin.settle hfresh.enroll
    rw [ahead, houtgoing, Exchange.settle_cons]
    exact hsettled
  have hnew : ∀ report ∈ responses.map fun response =>
      (⟨response, request.tickerId, request.side⟩ : Report), report.response.status ≠ .executed := by
    intro report hmem
    obtain ⟨response, hmem', rfl⟩ := List.mem_map.mp hmem
    exact (hresponses response hmem').1
  have hend : ∀ response ∈ responses,
      (response.status = .canceled ∨ response.status = .rejected) →
      m.client.Issued response.clientOrderId
        ∧ openUnder (exchange.settle rest) response.clientOrderId = 0 := by
    intro response hmem hends
    obtain ⟨hnone, hcase⟩ := (hresponses response hmem).2 hends
    exact hsound.ended_handled houtgoing hnone hcase
  refine
    { keyed := ⟨hsound.keyed.counter_pos, hsound.keyed.issued, hsound.keyed.distinct,
        hsound.keyed.settled, hsound.keyed.pendingIssued, hsound.keyed.pendingDistinct⟩
      opensFresh := ⟨hnodup.2.1, fun id hmem => hwithin.eq_none (hfresh.enroll.unused id hmem)⟩
      issuedRequests := fun id hmem => hissued id (by simp_all)
      issuedOrders := fun id order heq =>
        hsound.issued_handled houtgoing hwithin id (Option.ne_none_iff_exists'.mpr ⟨order, heq⟩)
      issuedReports := ?_
      positive := ?_
      backed := ?_
      sameOrder := ?_
      sameReport := ?_
      ended := ?_
      endedLast := ?_
      conserved := ?_ }
  · intro report hmem hstatus
    rcases List.mem_append.mp hmem with hold | hlast
    · exact hsound.issuedReports report hold hstatus
    · have hends := hstatus.resolve_left (hnew report hlast)
      obtain ⟨response, hmem', rfl⟩ := List.mem_map.mp hlast
      exact (hend response hmem' hends).1
  · intro report hmem hstatus
    rcases List.mem_append.mp hmem with hold | hlast
    · exact hsound.positive report hold hstatus
    · exact absurd hstatus (hnew report hlast)
  · intro id hpos
    have hle : openUnder (exchange.settle rest) id + inFlight id m.responses ≤ m.due id :=
      Nat.add_le_add_right (openUnder_le hahead id) _
    simp only [due, ahead, inFlight_append, inFlight_of_not_executed hnew, add_zero] at hpos ⊢
    exact (hsound.backed id (lt_of_lt_of_le hpos hle)).mono hle
  · intro pending hmem order heq
    obtain ⟨order', heq', hticker, hside, -⟩ := hahead _ order heq
    rw [← hticker, ← hside]
    exact hsound.sameOrder pending hmem order' heq'
  · intro pending hmem report hreport hstatus hid
    rcases List.mem_append.mp hreport with hold | hlast
    · exact hsound.sameReport pending hmem report hold hstatus hid
    · exact absurd hstatus (hnew report hlast)
  · intro report hmem hends
    rcases List.mem_append.mp hmem with hold | hlast
    · have hzero := hsound.ended report hold hends
      exact Nat.le_zero.mp (hzero ▸ openUnder_le hahead _)
    · obtain ⟨response, hmem', rfl⟩ := List.mem_map.mp hlast
      exact (hend response hmem' hends).2
  · rw [List.pairwise_append]
    refine ⟨hsound.endedLast, ?_, ?_⟩
    · exact List.pairwise_of_forall_mem_list fun report hmem later hlater _ hstatus =>
        absurd hstatus (hnew later hlater)
    · exact fun report _ later hlater _ hstatus => absurd hstatus (hnew later hlater)
  · intro ticker
    rw [shares_append, shares_of_not_executed ticker hnew, add_zero]
    exact hsound.conserved ticker

/-! ### The slot sends a request -/

section Client

variable {op : Slot.Op} {client : Slot cap}

theorem sound_idle (hsound : m.Sound)
    (hfits : m.client.CounterFits ∨ client.allocator.counter = m.client.allocator.counter)
    (heffect : Slot.Effect m.client op client) (hsame : Slot.Same m.client client) :
    Sound { m with client := client } := by
  have hmono : ∀ id, m.client.Issued id → client.Issued id := fun id hissued =>
    hissued.mono heffect.slot_eq (heffect.counter_le hfits)
  have hahead : ahead { m with client := client } = m.ahead := by
    simp only [ahead, hsame.outgoing]
  have hdue : ∀ id, due { m with client := client } id = m.due id := by
    intro id
    simp only [due, hahead]
  refine
    { keyed := Slot.keyed_step hsound.keyed hfits heffect
      opensFresh := by
        dsimp only
        rw [hsame.outgoing]
        exact hsound.opensFresh
      issuedRequests := by
        dsimp only
        rw [hsame.outgoing]
        exact fun id hmem => hmono id (hsound.issuedRequests id hmem)
      issuedOrders := fun id order heq => hmono id (hsound.issuedOrders id order heq)
      issuedReports := fun report hmem hstatus => hmono _ (hsound.issuedReports report hmem hstatus)
      positive := hsound.positive
      backed := ?_
      sameOrder := ?_
      sameReport := ?_
      ended := ?_
      endedLast := hsound.endedLast
      conserved := ?_ }
  · intro id hpos
    rw [hdue] at hpos ⊢
    simp only [Backs, hsame.orders, hsame.pending]
    exact hsound.backed id hpos
  · rw [hahead]
    dsimp only
    rw [hsame.pending]
    exact hsound.sameOrder
  · dsimp only
    rw [hsame.pending]
    exact hsound.sameReport
  · rw [hahead]
    exact hsound.ended
  · intro ticker
    dsimp only
    rw [hsame.netQty]
    exact hsound.conserved ticker

/-- A request that opens an order under the next id opens nothing that is there already. -/
theorem Sound.opensFresh_concat {request : OrderRequest} (hsound : m.Sound)
    (hfree : ∀ id ∈ Exchange.created request, ¬ m.client.Issued id)
    (hnodup : (Exchange.created request).Nodup) :
    m.exchange.OpensFresh (m.client.outgoing ++ [request]) := by
  refine ⟨?_, ?_⟩
  · rw [List.flatMap_append, List.flatMap_singleton, List.nodup_append]
    refine ⟨hsound.opensFresh.nodup, hnodup, ?_⟩
    rintro id hmem id' hlast rfl
    exact hfree id hlast (hsound.issuedRequests id hmem)
  · intro id hmem
    rw [List.flatMap_append, List.flatMap_singleton, List.mem_append] at hmem
    rcases hmem with hmem | hlast
    · exact hsound.opensFresh.unused id hmem
    · cases heq : m.exchange id with
      | none => rfl
      | some order => exact absurd (hsound.issuedOrders id order heq) (hfree id hlast)

/-- What every request keeps, whatever it is: it remains to see that what is due is backed, and that
the order under the next id is that of the reservation. -/
theorem sound_push {request : OrderRequest} (hsound : m.Sound)
    (hfits : m.client.CounterFits ∨ client.allocator.counter = m.client.allocator.counter)
    (heffect : Slot.Effect m.client op client) (hop : ∀ response, op ≠ .onOrderResponse response)
    (houtgoing : client.outgoing = m.client.outgoing ++ [request])
    (hcreated : ∀ id ∈ Exchange.created request, id = m.client.nextId)
    (hnodup : (Exchange.created request).Nodup)
    (hdrawn : Exchange.created request ≠ [] →
      client.allocator.counter = m.client.allocator.counter + 1)
    (hbacked : ∀ id, 0 < openUnder (m.ahead.enroll request) id + inFlight id m.responses →
      Backs client id (openUnder (m.ahead.enroll request) id + inFlight id m.responses))
    (hnew : client.allocator.counter = m.client.allocator.counter + 1 →
      ∀ pending ∈ client.risk.pending, pending.clientOrderId = m.client.nextId → ∀ order,
        m.ahead.enroll request m.client.nextId = some order →
          order.tickerId = pending.tickerId ∧ order.side = pending.side) :
    Sound { m with client := client } := by
  have hmono : ∀ id, m.client.Issued id → client.Issued id := fun id hissued =>
    hissued.mono heffect.slot_eq (heffect.counter_le hfits)
  have hunissued : client.allocator.counter = m.client.allocator.counter + 1 →
      ¬ m.client.Issued m.client.nextId := fun hcounter =>
    Slot.nextId_not_issued (Slot.counterFits_of_drawn hfits hcounter)
  have hfree : ∀ id ∈ Exchange.created request, ¬ m.client.Issued id := by
    intro id hmem
    rw [hcreated id hmem]
    exact hunissued (hdrawn (List.ne_nil_of_mem hmem))
  have hahead : ahead { m with client := client } = m.ahead.enroll request := by
    simp only [ahead, houtgoing, Exchange.settle_concat]
  -- Only the next id is opened, so the orders under issued ids stay or move away.
  have hold : ∀ id, m.client.Issued id →
      m.ahead.enroll request id = m.ahead id ∨ m.ahead.enroll request id = none := by
    intro id hissued
    apply Exchange.enroll_of_notMem
    exact fun hmem => hfree id hmem hissued
  refine
    { keyed := Slot.keyed_step hsound.keyed hfits heffect
      opensFresh := ?_
      issuedRequests := ?_
      issuedOrders := fun id order heq => hmono id (hsound.issuedOrders id order heq)
      issuedReports := fun report hmem hstatus => hmono _ (hsound.issuedReports report hmem hstatus)
      positive := hsound.positive
      backed := by
        simp only [due, hahead]
        exact hbacked
      sameOrder := ?_
      sameReport := ?_
      ended := ?_
      endedLast := hsound.endedLast
      conserved := ?_ }
  · dsimp only
    rw [houtgoing]
    exact hsound.opensFresh_concat hfree hnodup
  · dsimp only
    rw [houtgoing]
    intro id hmem
    rw [List.flatMap_append, List.flatMap_singleton, List.mem_append] at hmem
    rcases hmem with hmem | hlast
    · exact hmono id (hsound.issuedRequests id hmem)
    · have hcounter := hdrawn (List.ne_nil_of_mem hlast)
      rw [hcreated id hlast]
      exact Slot.issued_nextId (Slot.counterFits_of_drawn hfits hcounter) hsound.keyed.counter_pos
        heffect.slot_eq hcounter
  · rw [hahead]
    intro pending' hmem order heq
    rcases heffect.pending_origin hmem with ⟨hnext, hcounter⟩ | ⟨pending, hmem', hid, hticker, hside⟩
    · rw [hnext] at heq
      exact hnew hcounter pending' hmem hnext order heq
    · rcases hold _ (hsound.keyed.pendingIssued pending hmem') with hsame | hnone
      · rw [← hticker, ← hside]
        refine hsound.sameOrder pending hmem' order ?_
        rw [← hsame, hid]
        exact heq
      · rw [← hid, hnone] at heq
        cases heq
  · intro pending' hmem report hreport hstatus hid
    rcases heffect.pending_origin hmem with ⟨hnext, hcounter⟩ | ⟨pending, hmem', hid', hticker, hside⟩
    · have hissued := hsound.issuedReports report hreport (Or.inl hstatus)
      rw [hid, hnext] at hissued
      exact absurd hissued (hunissued hcounter)
    · rw [← hticker, ← hside]
      exact hsound.sameReport pending hmem' report hreport hstatus (hid.trans hid'.symm)
  · rw [hahead]
    intro report hmem hends
    have hzero := hsound.ended report hmem hends
    unfold openUnder at hzero ⊢
    rcases hold _ (hsound.issuedReports report hmem (Or.inr hends)) with hsame | hnone
    · rw [hsame]
      exact hzero
    · rw [hnone]
      rfl
  · intro ticker
    dsimp only
    rw [heffect.netQty_eq (fun response heq => absurd heq (hop response)) ticker]
    exact hsound.conserved ticker

theorem Sound.inFlight_nextId (hsound : m.Sound) (hfits : m.client.CounterFits) :
    inFlight m.client.nextId m.responses = 0 := by
  apply inFlight_eq_zero
  intro report hmem hstatus hid
  exact Slot.nextId_not_issued hfits (hid ▸ hsound.issuedReports report hmem (Or.inl hstatus))

theorem sound_submitted {request : OrderRequest} {position : Position} {room : Bool}
    {limits : RiskLimits} (hsound : m.Sound) (hfits : m.client.CounterFits)
    (heffect : Slot.Effect m.client (.sendNewOrder request position room) client)
    (hpassed : m.client.risk.Passed (m.client.submission request) position limits)
    (houtgoing : client.outgoing = m.client.outgoing ++ [m.client.submission request])
    (hcounter : client.allocator.counter = m.client.allocator.counter + 1)
    (horder : { request := m.client.submission request, state := .notActive } ∈ client.orders)
    (hpending : client.risk.pending =
      m.client.risk.pending ++ [Slot.reservation (m.client.submission request)]) :
    Sound { m with client := client } := by
  have hcreated : Exchange.created (m.client.submission request) = [m.client.nextId] :=
    Exchange.created_new hpassed.type
  have henroll : m.ahead.enroll (m.client.submission request) =
      Function.update m.ahead m.client.nextId
        (some ⟨request.tickerId, request.side, request.qty.toNat⟩) := Exchange.enroll_new hpassed.type
  refine sound_push hsound (Or.inl hfits) heffect (fun _ => by simp) houtgoing (by simp [hcreated])
    (by simp [hcreated]) (fun _ => hcounter) ?_ ?_
  · intro id hpos
    rw [henroll, openUnder_update] at hpos ⊢
    by_cases hid : id = m.client.nextId
    · subst hid
      rw [if_pos rfl, hsound.inFlight_nextId hfits]
      refine ⟨_, horder, Slot.reservation (m.client.submission request), by simp [hpending], rfl, rfl,
        OMOrderState.live_notActive, ?_, ?_⟩
      · simp [Slot.submission]
      · simp [Slot.reservation, Slot.submission]
    · rw [if_neg hid] at hpos ⊢
      exact (hsound.backed id hpos).frame heffect (by simp [Slot.Op.target])
  · intro _ pending hmem hid order heq
    rw [henroll, Function.update_self] at heq
    obtain rfl := Option.some.inj heq
    rw [hpending] at hmem
    rcases List.mem_append.mp hmem with hold | hlast
    · exact absurd hid ((hsound.keyed.nextId_free hfits).2 pending hold)
    · obtain rfl := List.mem_singleton.mp hlast
      exact ⟨rfl, rfl⟩

theorem sound_cancelSent {qty : Quantity} {room : Bool} {before after : List OMOrder}
    {order order' : OMOrder} (hsound : m.Sound)
    (hkept : client.allocator.counter = m.client.allocator.counter)
    (heffect : Slot.Effect m.client (.sendCancel id qty room) client)
    (hat : m.client.OrderAt id before order after)
    (houtgoing : client.outgoing = m.client.outgoing ++ [Slot.cancelRequest order qty])
    (horders : client.orders = before ++ order' :: after)
    (hrequest : order'.request = order.request) (hfilled : order'.filledQty = order.filledQty)
    (hstate : order'.state = order.state) (hpending : client.risk.pending = m.client.risk.pending) :
    Sound { m with client := client } := by
  have hcreated : Exchange.created (Slot.cancelRequest order qty) = [] := Exchange.created_cancel rfl
  have henroll : m.ahead.enroll (Slot.cancelRequest order qty) = m.ahead := Exchange.enroll_cancel rfl
  refine sound_push hsound (Or.inr hkept) heffect (fun _ => by simp) houtgoing (by simp [hcreated])
    (by simp [hcreated]) (by simp [hcreated]) ?_ ?_
  · intro id' hpos
    rw [henroll] at hpos ⊢
    have hbacks := hsound.backed id' hpos
    by_cases hid : id' = id
    · subst hid
      obtain ⟨order₀, hmem, pending, hmem', hid₀, hid', hlive, hroom⟩ := hbacks
      obtain rfl := hsound.keyed.eq_of_id_eq hmem hat.mem (hid₀.trans hat.found.symm)
      refine ⟨order', by simp [horders], pending, hpending ▸ hmem', ?_, hid', ?_, ?_⟩
      · rw [OMOrder.id, hrequest]
        exact hid₀
      · rw [hstate]
        exact hlive
      · rw [hrequest, hfilled]
        exact hroom
    · exact hbacks.frame heffect fun heq => hid (Option.some.inj heq).symm
  · intro hdrawn
    simp [hkept] at hdrawn

/-- What a replace does to the orders under the slot's ids. -/
theorem Sound.enroll_replaceRequest {order : OMOrder} (hsound : m.Sound)
    (hfits : m.client.CounterFits) (hmem : order ∈ m.client.orders) (price : Price) (qty : Quantity)
    (id : OrderId) :
    m.ahead.enroll (m.client.replaceRequest order price qty) id =
      if id = m.client.nextId then m.ahead order.id
      else if id = order.id then none else m.ahead id := by
  have hfree : ¬ m.client.Issued m.client.nextId := Slot.nextId_not_issued hfits
  have hne : order.id ≠ m.client.nextId := fun heq => hfree (heq ▸ hsound.keyed.issued order hmem)
  have hnext : m.ahead m.client.nextId = none := by
    refine Exchange.settle_eq_none (fun hmem => hfree (hsound.issuedRequests _ hmem)) ?_
    cases heq : m.exchange m.client.nextId with
    | none => rfl
    | some order => exact absurd (hsound.issuedOrders _ order heq) hfree
  have htype : (m.client.replaceRequest order price qty).type = .replace := rfl
  cases hmoved : m.ahead order.id with
  | none =>
      rw [Exchange.enroll_replace_of_none htype hmoved]
      by_cases hid : id = m.client.nextId
      · simp [hid, hnext]
      · by_cases hold : id = order.id
        · simp [hold, hmoved, hne]
        · simp [hid, hold]
  | some moved =>
      rw [Exchange.enroll_replace_of_some htype hmoved]
      simp only [Function.update_apply, Slot.replaceRequest]

theorem Sound.openUnder_replaceRequest {order : OMOrder} (hsound : m.Sound)
    (hfits : m.client.CounterFits) (hmem : order ∈ m.client.orders) (price : Price) (qty : Quantity)
    (id : OrderId) :
    openUnder (m.ahead.enroll (m.client.replaceRequest order price qty)) id =
      if id = m.client.nextId then openUnder m.ahead order.id
      else if id = order.id then 0 else openUnder m.ahead id := by
  unfold openUnder
  rw [hsound.enroll_replaceRequest hfits hmem]
  split
  · rfl
  · split <;> rfl

theorem sound_unreserved {price : Price} {qty : Quantity} {room : Bool} {before after : List OMOrder}
    {order : OMOrder} (hsound : m.Sound) (hfits : m.client.CounterFits)
    (heffect : Slot.Effect m.client (.sendReplace id price qty room) client)
    (hat : m.client.OrderAt id before order after)
    (houtgoing : client.outgoing = m.client.outgoing ++ [m.client.replaceRequest order price qty])
    (hcounter : client.allocator.counter = m.client.allocator.counter + 1)
    (horders : client.orders = m.client.orders)
    (hpending : client.risk.pending = m.client.risk.pending)
    (hnone : ∀ pending ∈ m.client.risk.pending, pending.clientOrderId ≠ id) :
    Sound { m with client := client } := by
  have hcreated : Exchange.created (m.client.replaceRequest order price qty) = [m.client.nextId] :=
    Exchange.created_replace rfl
  have hzero : m.due order.id = 0 := by
    by_contra hne
    obtain ⟨-, -, pending, hmem, -, hid, -⟩ := hsound.backed order.id (Nat.pos_of_ne_zero hne)
    exact hnone pending hmem (hid.trans hat.found)
  refine sound_push hsound (Or.inl hfits) heffect (fun _ => by simp) houtgoing (by simp [hcreated])
    (by simp [hcreated]) (fun _ => hcounter) ?_ ?_
  · intro id' hpos
    rw [hsound.openUnder_replaceRequest hfits hat.mem] at hpos ⊢
    unfold due at hzero
    by_cases hnext : id' = m.client.nextId
    · rw [if_pos hnext, hnext, hsound.inFlight_nextId hfits] at hpos
      omega
    · rw [if_neg hnext] at hpos ⊢
      by_cases hid : id' = order.id
      · rw [if_pos hid, hid] at hpos
        omega
      · rw [if_neg hid] at hpos ⊢
        have hbacks := hsound.backed id' hpos
        unfold Backs at hbacks ⊢
        rw [horders, hpending]
        exact hbacks
  · intro _ pending hmem hid
    rw [hpending] at hmem
    exact absurd hid ((hsound.keyed.nextId_free hfits).2 pending hmem)

theorem sound_replaced {price : Price} {qty : Quantity} {room : Bool} {before after : List OMOrder}
    {order : OMOrder} {pendingBefore pendingAfter : List PendingOrder} {pending : PendingOrder}
    (hsound : m.Sound) (hfits : m.client.CounterFits)
    (heffect : Slot.Effect m.client (.sendReplace id price qty room) client)
    (hat : m.client.OrderAt id before order after)
    (hsplit : m.client.risk.SplitAt id pendingBefore pending pendingAfter)
    (houtgoing : client.outgoing = m.client.outgoing ++ [m.client.replaceRequest order price qty])
    (hcounter : client.allocator.counter = m.client.allocator.counter + 1)
    (horders : client.orders = before ++ m.client.replacedOrder order price qty :: after)
    (hpending : client.risk.pending =
      pendingBefore ++ { pending with clientOrderId := m.client.nextId } :: pendingAfter)
    (hcrossed : ∀ report ∈ m.responses, report.response.status = .executed →
      report.response.clientOrderId ≠ id)
    (hqty : order.request.qty ≤ qty) : Sound { m with client := client } := by
  have hcreated : Exchange.created (m.client.replaceRequest order price qty) = [m.client.nextId] :=
    Exchange.created_replace rfl
  have hflight : inFlight order.id m.responses = 0 := inFlight_eq_zero (hat.found ▸ hcrossed)
  have hmem : pending ∈ m.client.risk.pending := by simp [hsplit.split]
  refine sound_push hsound (Or.inl hfits) heffect (fun _ => by simp) houtgoing (by simp [hcreated])
    (by simp [hcreated]) (fun _ => hcounter) ?_ ?_
  · intro id' hpos
    rw [hsound.openUnder_replaceRequest hfits hat.mem] at hpos ⊢
    by_cases hnext : id' = m.client.nextId
    · rw [if_pos hnext, hnext, hsound.inFlight_nextId hfits, add_zero] at hpos ⊢
      have hdue : m.due order.id = openUnder m.ahead order.id := by rw [due, hflight, add_zero]
      obtain ⟨order₀, hmem₀, pending₀, hmem', hid₀, hid', hlive, hroom, hreserved⟩ :=
        hsound.backed order.id (hdue ▸ hpos)
      obtain rfl := hsound.keyed.eq_of_id_eq hmem₀ hat.mem hid₀
      obtain rfl := hsound.keyed.eq_of_clientOrderId_eq hmem' hmem
        (hid'.trans (hat.found.trans hsplit.found.symm))
      rw [hdue] at hroom hreserved
      refine ⟨m.client.replacedOrder order₀ price qty, by simp [horders],
        { pending₀ with clientOrderId := m.client.nextId }, by simp [hpending], rfl, rfl, hlive, ?_,
        hreserved⟩
      exact le_trans hroom (UInt32.le_iff_toNat_le.mp hqty)
    · rw [if_neg hnext] at hpos ⊢
      by_cases hid : id' = order.id
      · rw [if_pos hid, hid, hflight] at hpos
        omega
      · rw [if_neg hid] at hpos ⊢
        refine (hsound.backed id' hpos).frame heffect fun heq => hid ?_
        rw [hat.found]
        exact (Option.some.inj heq).symm
  · intro _ pending' hmem' hid' moved heq
    have hsame : pending' = { pending with clientOrderId := m.client.nextId } := by
      rw [hpending] at hmem'
      simp only [List.mem_append, List.mem_cons] at hmem'
      have hfree := (hsound.keyed.nextId_free hfits).2
      rcases hmem' with hbefore | rfl | hafter
      · exact absurd hid' (hfree pending' (by simp [hsplit.split, hbefore]))
      · rfl
      · exact absurd hid' (hfree pending' (by simp [hsplit.split, hafter]))
    subst hsame
    have hread : m.ahead pending.clientOrderId = some moved := by
      rw [hsound.enroll_replaceRequest hfits hat.mem, if_pos rfl] at heq
      rw [hsplit.found, ← hat.found]
      exact heq
    exact hsound.sameOrder pending hmem moved hread

/-- **A request of the slot** keeps what is due backed. -/
theorem sound_client (hsound : m.Sound) (horderly : m.Orderly (.client op))
    (hop : ∀ response, op ≠ .onOrderResponse response) :
    Sound { m with client := m.client.step op } := by
  have hfits : m.client.CounterFits
      ∨ (m.client.step op).allocator.counter = m.client.allocator.counter := horderly.1
  have heffect := Slot.effect_step m.client op
  generalize m.client.step op = client at heffect hfits
  have hcases := heffect
  cases hcases with
  | idle hsame => exact sound_idle hsound hfits heffect hsame
  | submitted hpassed hsplit hevicted =>
      exact sound_submitted hsound (Slot.counterFits_of_drawn hfits rfl) heffect hpassed rfl rfl (by simp) rfl
  | cancelSent hat hopen => exact sound_cancelSent hsound rfl heffect hat rfl rfl rfl rfl rfl rfl
  | unreserved hat hopen hpending =>
      have hdrawn := Slot.counterFits_of_drawn hfits rfl
      have hfree := hsound.keyed.nextId_free hdrawn
      refine sound_unreserved hsound hdrawn heffect hat rfl rfl rfl rfl ?_
      rcases hpending with hzero | ⟨taken, htaken, hid⟩ | hnone
      · exact absurd hzero hfree.1
      · exact absurd hid (hfree.2 taken htaken)
      · exact hnone
  | replaced hat hopen hsplit =>
      obtain ⟨hqty, hcrossed⟩ := horderly.2 _ hat.find_eq hopen
      exact sound_replaced hsound (Slot.counterFits_of_drawn hfits rfl) heffect hat hsplit rfl rfl rfl rfl
        hcrossed hqty
  | _ => exact absurd rfl (hop _)

end Client

/-! ### The slot gets a response -/

section Deliver

variable {report : Report} {rest : List Report} {client : Slot cap}

/-- What every response keeps: it remains to see that what is due is backed, and what it adds to the
positions. -/
theorem sound_pop (hsound : m.Sound)
    (hkept : client.allocator.counter = m.client.allocator.counter)
    (hresponses : m.responses = report :: rest)
    (heffect : Slot.Effect m.client (.onOrderResponse report.response) client)
    (hbacked : 0 < openUnder m.ahead report.response.clientOrderId
        + inFlight report.response.clientOrderId rest →
      Backs client report.response.clientOrderId
        (openUnder m.ahead report.response.clientOrderId
          + inFlight report.response.clientOrderId rest))
    (hbooked : ∀ ticker, client.pnl.netQty ticker =
      m.client.pnl.netQty ticker + sharesOf ticker report) :
    Sound { m with client := client, responses := rest } := by
  have hmono : ∀ id, m.client.Issued id → client.Issued id := fun id hissued =>
    hissued.mono heffect.slot_eq (heffect.counter_le (Or.inr hkept))
  have houtgoing := heffect.outgoing_of_response
  have hmem : ∀ later ∈ rest, later ∈ m.responses := by simp_all
  have hlast := hsound.endedLast
  rw [hresponses, List.pairwise_cons] at hlast
  refine
    { keyed := Slot.keyed_step hsound.keyed (Or.inr hkept) heffect
      opensFresh := by
        dsimp only
        rw [houtgoing]
        exact hsound.opensFresh
      issuedRequests := by
        dsimp only
        rw [houtgoing]
        exact fun id hmem => hmono id (hsound.issuedRequests id hmem)
      issuedOrders := fun id order heq => hmono id (hsound.issuedOrders id order heq)
      issuedReports := fun later hlater hstatus =>
        hmono _ (hsound.issuedReports later (hmem later hlater) hstatus)
      positive := fun later hlater => hsound.positive later (hmem later hlater)
      backed := ?_
      sameOrder := ?_
      sameReport := ?_
      ended := ?_
      endedLast := hlast.2
      conserved := ?_ }
  · intro id hpos
    simp only [due, ahead, houtgoing] at hpos ⊢
    by_cases hid : id = report.response.clientOrderId
    · subst hid
      exact hbacked hpos
    · have hdue : m.due id = openUnder m.ahead id + inFlight id rest := by
        rw [due, hresponses, inFlight_cons, if_neg fun h => hid h.2.symm, zero_add]
      have hbacks := hsound.backed id (hdue ▸ hpos)
      rw [hdue] at hbacks
      exact hbacks.frame heffect fun heq => hid (Option.some.inj heq).symm
  · intro pending' hpending order heq
    simp only [ahead, houtgoing] at heq
    obtain ⟨pending, hold, hid, hticker, hside⟩ := heffect.pending_origin_of_response hpending
    rw [← hticker, ← hside]
    exact hsound.sameOrder pending hold order (hid ▸ heq)
  · intro pending' hpending later hlater hstatus hid
    obtain ⟨pending, hold, hid', hticker, hside⟩ := heffect.pending_origin_of_response hpending
    rw [← hticker, ← hside]
    exact hsound.sameReport pending hold later (hmem later hlater) hstatus (hid.trans hid'.symm)
  · intro later hlater hends
    simp only [ahead, houtgoing]
    exact hsound.ended later (hmem later hlater) hends
  · intro ticker
    have hconserved := hsound.conserved ticker
    rw [hresponses, shares_cons] at hconserved
    rw [hbooked ticker, add_assoc]
    exact hconserved

theorem sound_pop_executed (hsound : m.Sound) (hresponses : m.responses = report :: rest) (hstatus : report.response.status = .executed)
    (hpnl : m.client.pnl.onExecution report.tickerId report.side report.response.executionPrice
      report.response.executedQty ≠ none) :
    Sound { m with
      client := m.client.step (.onOrderResponse report.response)
      responses := rest } := by
  have hmem : report ∈ m.responses := by simp [hresponses]
  have hpositive := hsound.positive report hmem hstatus
  have hqtyPos : 0 < report.response.executedQty.toNat :=
    Nat.pos_of_ne_zero fun hzero => hpositive (UInt32.toNat_inj.mp hzero)
  have hdue : m.due report.response.clientOrderId =
      report.response.executedQty.toNat + (openUnder m.ahead report.response.clientOrderId
        + inFlight report.response.clientOrderId rest) := by
    rw [due, hresponses, inFlight_cons, if_pos ⟨hstatus, rfl⟩]
    omega
  obtain ⟨order, horder, pending, hpending, hid, hid', hlive, hroom, hreserved⟩ :=
    hsound.backed report.response.clientOrderId (by omega)
  rw [hdue] at hroom hreserved
  obtain ⟨before, after, hat⟩ := hsound.keyed.exists_orderAt horder
  obtain ⟨pendingBefore, pendingAfter, hsplit⟩ := hsound.keyed.exists_splitAt hpending
  rw [hid] at hat
  rw [hid'] at hsplit
  obtain ⟨hticker, hside⟩ := hsound.sameReport pending hpending report hmem hstatus hid'.symm
  rw [hticker, hside] at hpnl
  obtain ⟨pnl, hexec⟩ := Option.ne_none_iff_exists'.mp hpnl
  have hle : report.response.executedQty ≤ pending.reservedQty :=
    UInt32.le_iff_toNat_le.mpr (by omega)
  have hqty : order.filledQty.toNat + report.response.executedQty.toNat ≤ order.request.qty.toNat := by
    omega
  have hrisk := RiskManager.onOrderResponse_executed hsplit hstatus hpositive hle hexec
  obtain ⟨order', horders, hrequest, hfilled, hstate, hrisk', hpnl'⟩ :=
    Slot.step_executed hat hstatus hpositive (fun hfinished => hfinished.not_live hlive) hqty hrisk
  refine sound_pop hsound (Slot.counter_onOrderResponse ..) hresponses (Slot.effect_step _ _) ?_ ?_
  · intro hpos
    have hne : order.filledQty + report.response.executedQty ≠ order.request.qty := by
      intro heq
      have hsum := congrArg UInt32.toNat heq
      rw [Slot.toNat_filledQty_add hqty] at hsum
      omega
    have hleft : (pending.reservedQty - report.response.executedQty).toNat =
        pending.reservedQty.toNat - report.response.executedQty.toNat :=
      UInt32.toNat_sub_of_le _ _ hle
    let left : PendingOrder :=
      { pending with reservedQty := pending.reservedQty - report.response.executedQty }
    have hremains : RiskManager.remainder pending report.response.executedQty = [left] := by
      rw [RiskManager.remainder, if_neg]
      intro hzero
      rw [hzero, UInt32.toNat_zero] at hleft
      omega
    have hperm := RiskManager.pending_release pendingBefore pendingAfter pending hsplit.split
      report.response.executedQty
    refine ⟨order', by simp [horders], left, ?_, ?_, hid', ?_, ?_, ?_⟩
    · rw [hrisk']
      exact hperm.symm.subset (by simp [hremains])
    · rw [OMOrder.id, hrequest]
      exact hid
    · rw [hstate, if_neg hne]
      exact OMOrderState.live_partiallyFilled
    · rw [hrequest, hfilled, Slot.toNat_filledQty_add hqty]
      omega
    · change _ ≤ (pending.reservedQty - report.response.executedQty).toNat
      rw [hleft]
      omega
  · intro ticker
    rw [hpnl', PnLTracker.netQty_onExecution hexec, sharesOf, hticker, hside]
    simp only [hstatus, true_and, eq_comm]

/-- **A response** that is delivered leaves what is due backed, and books its execution. -/
theorem sound_deliver (hsound : m.Sound) (horderly : m.Orderly .deliver)
    (hresponses : m.responses = report :: rest) :
    Sound { m with
      client := m.client.step (.onOrderResponse report.response)
      responses := rest } := by
  have hmem : report ∈ m.responses := by simp [hresponses]
  by_cases hexecuted : report.response.status = .executed
  · exact sound_pop_executed hsound hresponses hexecuted
      (horderly.2 report (by simp [hresponses]) hexecuted)
  have heffect := Slot.effect_step m.client (.onOrderResponse report.response)
  have hbooked : ∀ ticker, (m.client.step (.onOrderResponse report.response)).pnl.netQty ticker =
      m.client.pnl.netQty ticker + sharesOf ticker report := by
    intro ticker
    rw [sharesOf, if_neg fun h => hexecuted h.1, add_zero]
    refine heffect.netQty_eq ?_ ticker
    rintro response ⟨⟩
    exact hexecuted
  refine sound_pop hsound (Slot.counter_onOrderResponse ..) hresponses heffect ?_ hbooked
  intro hpos
  by_cases hends : Ends report
  · -- Nothing is open under the id any more, and no execution of it follows.
    have hlast := hsound.endedLast
    rw [hresponses, List.pairwise_cons] at hlast
    have hflight : inFlight report.response.clientOrderId rest = 0 :=
      inFlight_eq_zero fun later hlater hstatus => hlast.1 later hlater hends hstatus
    have hopen := hsound.ended report hmem hends
    omega
  · have hdue : m.due report.response.clientOrderId =
        openUnder m.ahead report.response.clientOrderId
          + inFlight report.response.clientOrderId rest := by
      rw [due, hresponses, inFlight_cons, if_neg fun h => hexecuted h.1, zero_add]
    have hbacks := hsound.backed _ (hdue ▸ hpos)
    rw [hdue] at hbacks
    generalize m.client.step (.onOrderResponse report.response) = client at heffect
    cases heffect with
    | idle hsame =>
        simp only [Backs, hsame.orders, hsame.pending]
        exact hbacks
    | @noted _ before after order order' hat hstatus hrequest hfilled hlive hfinished =>
        obtain ⟨order₀, horder, pending, hpending, hid, hid', hlive₀, hroom⟩ := hbacks
        obtain rfl := hsound.keyed.eq_of_id_eq horder hat.mem (hid.trans hat.found.symm)
        refine ⟨order', by simp, pending, hpending, ?_, hid', hlive.mpr hlive₀, ?_⟩
        · rw [OMOrder.id, hrequest]
          exact hid
        · rw [hrequest, hfilled]
          exact hroom
    | filled hat hstatus => exact absurd hstatus hexecuted
    | failed hat hstatus => exact absurd hstatus hexecuted
    | canceled hat hstatus => exact absurd (Or.inl hstatus) hends
    | rejected hat hstatus => exact absurd (Or.inr hstatus) hends

end Deliver

/-! ### Runs -/

/-- **An orderly step** of either party keeps what is due backed. -/
theorem sound_step (hsound : m.Sound) (horderly : m.Orderly event)
    (hstep : m.step event = some m') : m'.Sound := by
  cases event with
  | client op =>
      by_cases hop : ∃ response, op = .onOrderResponse response
      · obtain ⟨response, rfl⟩ := hop
        cases hstep
      · have hne : ∀ response, op ≠ .onOrderResponse response := fun response heq =>
          hop ⟨response, heq⟩
        have hclient : m.step (.client op) = some { m with client := m.client.step op } := by
          cases op with
          | onOrderResponse response => exact absurd rfl (hne response)
          | _ => rfl
        obtain rfl := Option.some.inj (hclient.symm.trans hstep)
        exact sound_client hsound horderly hne
  | process verdict =>
      simp only [step] at hstep
      split at hstep
      case h_1 => cases hstep
      case h_2 request rest houtgoing =>
          split at hstep
          case h_1 => cases hstep
          case h_2 exchange responses hhandle =>
              obtain rfl := Option.some.inj hstep
              refine sound_process hsound houtgoing ?_ hhandle
              rintro qty rfl order hopen
              exact horderly.2 request (by simp [houtgoing]) order hopen
  | execute id qty price =>
      simp only [step] at hstep
      split at hstep
      case h_1 => cases hstep
      case h_2 order hopen =>
          split at hstep
          case isTrue => cases hstep
          case isFalse hvalid =>
              obtain ⟨hpositive, hqty⟩ := not_or.mp hvalid
              obtain rfl := Option.some.inj hstep
              exact sound_execute hsound hopen hpositive (Nat.not_lt.mp hqty) horderly.2
  | deliver =>
      simp only [step] at hstep
      split at hstep
      case h_1 => cases hstep
      case h_2 report rest hresponses =>
          obtain rfl := Option.some.inj hstep
          exact sound_deliver hsound horderly hresponses

/-- **Every execution is booked exactly once.** In every orderly run the positions and the executions
on their way add up to what the exchange has executed, so that the positions are what it has executed
once all responses are delivered. -/
theorem executions_booked {events : List Event} (hstart : m.Start)
    (halong : Run.Along step Orderly m events) (hrun : events.foldlM step m = some m') :
    (∀ ticker, m'.client.pnl.netQty ticker + shares ticker m'.responses = shares ticker m'.executed)
      ∧ (m'.responses = [] → ∀ ticker, m'.client.pnl.netQty ticker = shares ticker m'.executed) := by
  have hsound : m'.Sound :=
    Run.invariant (fun m event m' hsound horderly hstep => sound_step hsound horderly hstep)
      hstart.sound halong hrun
  refine ⟨hsound.conserved, fun hdelivered ticker => ?_⟩
  have hconserved := hsound.conserved ticker
  rw [hdelivered] at hconserved
  simpa [shares] using hconserved

instance (m : Market cap) : (event : Event) → Decidable (m.Orderly event)
  | .client (.sendReplace ..) => inferInstanceAs (Decidable (_ ∧ _))
  | .client (.sendNewOrder ..) => inferInstanceAs (Decidable (_ ∧ True))
  | .client (.sendCancel ..) => inferInstanceAs (Decidable (_ ∧ True))
  | .client (.onOrderResponse ..) => inferInstanceAs (Decidable (_ ∧ True))
  | .client (.onMark ..) => inferInstanceAs (Decidable (_ ∧ True))
  | .client .disableTrading => inferInstanceAs (Decidable (_ ∧ True))
  | .client .enableTrading => inferInstanceAs (Decidable (_ ∧ True))
  | .client (.otherSlot ..) => inferInstanceAs (Decidable (_ ∧ True))
  | .process (.cancel _) => inferInstanceAs (Decidable (_ ∧ _))
  | .process .accept => inferInstanceAs (Decidable (_ ∧ True))
  | .process .refuse => inferInstanceAs (Decidable (_ ∧ True))
  | .process .ignore => inferInstanceAs (Decidable (_ ∧ True))
  | .execute .. => inferInstanceAs (Decidable (_ ∧ _))
  | .deliver => inferInstanceAs (Decidable (_ ∧ _))

/-- A slot and an exchange before the first order. -/
def quietMarket : Market ⟨1, 4, 4⟩ where
  client := Slot.limitedSlot

theorem quietMarket_start : quietMarket.Start where
  client := Slot.limitedSlot_fresh
  exchange := rfl
  responses := rfl
  executed := rfl

/-- What can be seen of a run: what is on its way, the position, and what has been executed. -/
def outcome (ticker : TickerId) (events : List Event) : Option (List Report × Int × Int) :=
  (events.foldlM step quietMarket).map fun m =>
    (m.responses, m.client.pnl.netQty ticker, shares ticker m.executed)

/-- The order fills in part, is replaced, fills again, and is cancelled. -/
def orderlyRun : List Event :=
  [ .client (.sendNewOrder { tickerId := 7, side := .buy, price := 10, qty := 100 } {} true),
    .process .accept, .execute 1 40 10, .deliver, .deliver,
    .client (.sendReplace 1 11 100 true), .process .accept, .execute 2 25 11,
    .client (.sendCancel 2 35 true), .process (.cancel 35), .deliver, .deliver, .deliver ]

theorem executions_booked_orderlyRun :
    ∃ m', orderlyRun.foldlM step quietMarket = some m' ∧ m'.responses = []
      ∧ shares 7 m'.executed = 65 ∧ m'.client.pnl.netQty 7 = shares 7 m'.executed := by
  have hrun : (orderlyRun.foldlM step quietMarket).isSome := by decide
  obtain ⟨m', hm'⟩ := Option.isSome_iff_exists.mp hrun
  have houtcome : outcome 7 orderlyRun = some ([], 65, 65) := by decide
  simp only [outcome, hm', Option.map_some, Option.some.injEq, Prod.mk.injEq] at houtcome
  obtain ⟨hresponses, -, hexecuted⟩ := houtcome
  exact ⟨m', hm', hresponses, hexecuted,
    (executions_booked quietMarket_start (by decide) hm').2 hresponses 7⟩

/-- The order executes while its replace is on the way. -/
def crossedRun : List Event :=
  [ .client (.sendNewOrder { tickerId := 7, side := .buy, price := 10, qty := 100 } {} true),
    .process .accept, .deliver,
    .client (.sendReplace 1 11 100 true), .execute 1 40 10, .process .accept, .deliver, .deliver ]

/-- **An execution that crosses a replace is lost.** All responses are delivered, and the 40 shares
that the exchange has executed are in no position. -/
theorem crossedRun_loses_execution :
    quietMarket.Start ∧ outcome 7 crossedRun = some ([], 0, 40) :=
  ⟨quietMarket_start, by decide⟩

end Market

end AlphaTrader
